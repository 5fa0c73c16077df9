import ReactorServer.Db.Pool

/-!
# The password cache, and logging in after registering

`/login` looks a password up in Redis before it asks MySQL, and writes it there afterwards.  Nobody
should notice.  What MySQL alone would say is `Store.consult`: the same code, run on the same users
table with nothing in Redis.

The key of the cache is built from the username with `c_str()`, so it is the username up to its
first NUL.  Two usernames that agree up to there share an entry, and the password of the one opens
the account of the other (`cache_poisoned`).  As long as no login is made under such a twin of a
username (`Move.Apart`), an entry for it holds what MySQL would return (`World.Cached`), and the
cache is transparent (`cache_transparent`).

A password goes into the users table byte for byte, but `row[0]` returns it up to its first NUL.  So
a user can log in with the password that was registered, and with no other, if there is no NUL in it
(`login_after_register`), and cannot log in at all with it otherwise (`login_refused`).

Both are about one login in a run in which everything else goes on.  That login and the other tasks
have different duties, and `Duty` is what they differ in.
-/

set_option autoImplicit false

namespace ReactorServer

open Program Machine

/-! ## What MySQL says -/

/-- What `/login` comes to, if there is no failure. -/
inductive Verdict where
  | success
  | notFound
  | wrongPassword
  deriving DecidableEq, Repr

/-- The verdict that a response to `/login` expresses. -/
def Verdict.ofReply (statusCode : ℕ) (body : Bytes) : Option Verdict :=
  if statusCode = 200 then some .success
  else if statusCode = 401 ∧ body = errorJson "user not found" then some .notFound
  else if statusCode = 401 ∧ body = errorJson "wrong password" then some .wrongPassword
  else none

namespace Store

/-- A call that comes out well. -/
def well (s : Store) (token : Bytes) : (o : Call) → Store × o.Res
  | .redisGetConn => (s, some 0)
  | .redisCommand _ cmd => ((s.redisRun cmd).1, some (s.redisRun cmd).2)
  | .mysqlGetConn => (s, some 0)
  | .mysqlQuery _ sql => s.mysqlQuery sql
  | .generateToken => ({ s with drawn := token :: s.drawn }, token)
  | .redisRelease _ => (s, ⟨⟩)
  | .redisDiscard _ => (s, ⟨⟩)
  | .mysqlRelease _ => (s, ⟨⟩)
  | .send .. => (s, ⟨⟩)

/-- What a task answers when it is alone and all goes well. -/
def serve (token : Bytes) : Job PUnit → Store → List Reply
  | .ret _, _ => []
  | .throw, _ => []
  | .call o next, s => o.reply 0 ++ serve token (next (some (s.well token o).2)) (s.well token o).1

/-- The verdict of `/login` when there is nothing in Redis, so that the cache misses and MySQL is
asked. -/
def consult (s : Store) (username password : Bytes) : Option Verdict :=
  (serve [] (runDbTask (loginWork username password)) { s with redis := fun _ ↦ none }).head?.bind
    fun r ↦ Verdict.ofReply r.statusCode r.body

theorem serve_call (token : Bytes) (o : Call) (next : Option o.Res → Job PUnit) (s : Store) :
    serve token (.call o next) s =
      o.reply 0 ++ serve token (next (some (s.well token o).2)) (s.well token o).1 := rfl

theorem perform_eq_call (o : Call) : perform o = .call o fun r ↦ r.elim .throw .ret := rfl

/-- What that comes to: the submitted password is compared with `row[0]`. -/
theorem consult_eq (s : Store) (username password : Bytes) :
    s.consult username password = some (match s.users username with
      | none => .notFound
      | some row => if password = cstr row then .success else .wrongPassword) := by
  have hsql : mysqlQuery { s with redis := fun _ ↦ none }
      (cstr (selectPasswordSql (cstr (mysqlEscape username)))) =
      ({ s with redis := fun _ ↦ none }, .done (some (s.users username).toList)) := by
    rw [mysqlQuery, parseSql_cstr_selectPassword]
    rfl
  rw [consult]
  unfold runDbTask loginWork lookupPassword redisGet mysqlLookup withGuard
  cases hrow : s.users username with
  | none =>
    rw [hrow] at hsql
    simp [perform_eq_call, serve_call, serve, Call.reply, well, redisRun, hsql, sendError,
      releaseGuard, Program.bind, Verdict.ofReply]
  | some row =>
    rw [hrow] at hsql
    by_cases hpassword : password = cstr row
    · simp [perform_eq_call, serve_call, serve, Call.reply, well, redisRun, hsql, sendError,
        releaseGuard, Program.bind, Verdict.ofReply, hpassword, redisSetex, openSession]
    · simp [perform_eq_call, serve_call, serve, Call.reply, well, redisRun, hsql, sendError,
        releaseGuard, Program.bind, Verdict.ofReply, hpassword, redisSetex]
      decide

end Store

/-! ## Twins -/

/-- No login under a name that agrees with this one up to the first NUL, and is another. -/
def Move.Apart (username : Bytes) : Move → Prop
  | .start (.login _ _ username' _) => cstr username' = cstr username → username' = username
  | _ => True

instance (username : Bytes) : ∀ m : Move, Decidable (m.Apart username)
  | .start (.login _ _ username' _) =>
    inferInstanceAs (Decidable (cstr username' = cstr username → username' = username))
  | .start (.register ..) => inferInstanceAs (Decidable True)
  | .start (.profile ..) => inferInstanceAs (Decidable True)
  | .start (.logout ..) => inferInstanceAs (Decidable True)
  | .call .. => inferInstanceAs (Decidable True)
  | .expire _ => inferInstanceAs (Decidable True)

/-- A Redis entry under the key of a user's password is that password, as MySQL returns it. -/
def World.Cached (w : World) (username key value : Bytes) : Prop :=
  key = lit "user:" ++ cstr username → ∃ row, w.users username = some row ∧ value = cstr row

theorem World.Cached.mono {w w' : World} {username key value : Bytes}
    (h : w.Cached username key value) (hw : w ≤ w') : w'.Cached username key value := by
  intro hkey
  obtain ⟨row, hrow, hvalue⟩ := h hkey
  exact ⟨row, hw.1 _ _ hrow, hvalue⟩

/-! ## Duties -/

/-- The call is one to MySQL. -/
def Call.isMysql : Call → Bool
  | .mysqlGetConn | .mysqlQuery .. | .mysqlRelease _ => true
  | _ => false

/-- What a worker may count on, and what it owes. -/
structure Duty where
  /-- MySQL serves it well. -/
  mysql : Prop
  /-- So does everything else. -/
  redis : Prop
  /-- The responses it may give. -/
  allows : World → ℕ → Bytes → Prop
  mono : ∀ {w w' : World} {statusCode : ℕ} {body : Bytes}, w ≤ w' → allows w statusCode body →
    allows w' statusCode body

/-- What is true when a call has been answered: a cached password is the one in the users table, a
`SELECT` returns it, and an `INSERT` that succeeds puts it there. -/
def World.Answers (w : World) (username : Bytes) : (o : Call) → Option o.Res → Prop
  | .redisCommand _ (.get key), some (some (.string value)) => w.Cached username key value
  | .mysqlQuery _ sql, some (.done rows) =>
    (∀ u l, parseSql sql = some (.selectPassword u) → rows = some l → l = (w.users u).toList) ∧
      ∀ u p, parseSql sql = some (.insert u p) → w.users u = some p
  | _, _ => True

namespace Duty

variable {d : Duty} {username : Bytes} {w : World}

/-- The specification of the calls of a worker, with an eye on the cached password of a user. -/
def spec (d : Duty) (username : Bytes) : Spec Call Call.Res World where
  pre w
    | .redisCommand _ (.setex key _ value) => w.Cached username key value
    | .send statusCode body => d.allows w statusCode body
    | _ => True
  post w o r w' :=
    w ≤ w' ∧ w'.Answers username o r ∧ (d.mysql → o.isMysql = true → o.Well r) ∧
      (d.redis → o.isMysql = false → o.Well r)

theorem spec_stable (d : Duty) (username : Bytes) : (d.spec username).Stable where
  pre {w w' o} hw h := by
    cases o with
    | redisCommand conn cmd =>
      cases cmd with
      | setex key ttl value => exact World.Cached.mono h hw
      | _ => trivial
    | send statusCode body => exact d.mono hw h
    | _ => trivial
  post hw h := ⟨hw.trans h.1, h.2⟩

theorem spec_lenient (d : Duty) (username : Bytes) : Lenient (d.spec username) where
  pre {_ o} ho := by cases o <;> trivial
  le h := h.1

theorem not_fallible (hmysql : d.mysql) (hredis : d.redis) : ¬Fallible (d.spec username) := by
  rintro ⟨w, o, r, w', ⟨-, -, hm, hr⟩, hwell⟩
  cases ho : o.isMysql with
  | true => exact hwell (hm hmysql ho)
  | false => exact hwell (hr hredis ho)

theorem wp_send {statusCode : ℕ} {body : Bytes} {Q : World → Option PUnit → Prop}
    (hallows : d.allows w statusCode body) (hQ : ∀ w' r, w ≤ w' → Q w' r) :
    wp (d.spec username) (perform (.send statusCode body)) Q w :=
  wp_perform hallows fun w' r hr ↦ hQ w' r hr.1

theorem wp_runDbTask {work : Job PUnit}
    (hbad : Fallible (d.spec username) → ∀ w, d.allows w 500 (errorJson "internal error"))
    (h : wp (d.spec username) work (fun _ r ↦ r = none → Fallible (d.spec username)) w) :
    wp (d.spec username) (runDbTask work) (fun _ _ ↦ True) w := by
  refine wp_handle (wp_imp h fun w' r hr ↦ ?_)
  cases r with
  | none => exact wp_send (hbad (hr rfl) w') fun _ _ _ ↦ trivial
  | some _ => trivial

end Duty

section Login

variable {d : Duty} {username name password : Bytes} {w : World}

/-- A password that was found is the one MySQL returns, if the user is the one we look at. -/
def World.Finds (w : World) (username name dbPassword : Bytes) : Prop :=
  name = username → ∃ row, w.users username = some row ∧ dbPassword = cstr row

theorem World.Finds.mono {w w' : World} {dbPassword : Bytes} (h : w.Finds username name dbPassword)
    (hw : w ≤ w') : w'.Finds username name dbPassword := by
  intro hname
  obtain ⟨row, hrow, e⟩ := h hname
  exact ⟨row, hw.1 _ _ hrow, e⟩

/-- What the lookup of a password promises.  A user that MySQL does not find was not there before
either. -/
def Lookup.Faithful (d : Duty) (username name : Bytes) (w₀ w : World) : Option Lookup → Prop
  | some (.found dbPassword) => w.Finds username name dbPassword
  | some .notFound => d.mysql → w₀.users name = none
  | some .answered => True
  | none => Fallible (d.spec username)

theorem Lookup.Faithful.mono {w₀ w w' : World} {l : Option Lookup}
    (h : Lookup.Faithful d username name w₀ w l) (hw : w ≤ w') :
    Lookup.Faithful d username name w₀ w' l := by
  rcases l with _ | _ | _ | dbPassword
  · exact h
  · exact h
  · exact h
  · exact World.Finds.mono h hw

theorem mysqlLookup_faithful (hapart : cstr name = cstr username → name = username)
    (hbad : Fallible (d.spec username) → ∀ w statusCode message, statusCode ≠ 200 → statusCode ≠ 401 →
      d.allows w statusCode (errorJson message)) {w₀ : World} (hw₀ : w₀ ≤ w) :
    wp (d.spec username) (mysqlLookup name) (Lookup.Faithful d username name w₀) w := by
  refine wp_withGuard (d.spec_lenient username) (fun h _ _ ↦ h) fun w₁ conn h₁ hconn ↦ ?_
  cases conn with
  | none =>
    have hf := hconn.resolve_left (by simp)
    refine wp_bind (Duty.wp_send (hbad hf _ _ _ (by decide) (by decide)) fun w₂ r _ ↦ ?_)
    cases r with
    | none => exact fun w₃ _ ↦ ⟨id, hf⟩
    | some _ => exact fun w₃ _ ↦ ⟨id, trivial⟩
  | some conn =>
    refine wp_bind (wp_perform trivial fun w₂ r hr ↦ ?_)
    obtain ⟨h₂, hanswer, hmysql, -⟩ := hr
    rcases r with _ | _ | rows
    · exact fun w₃ _ ↦ ⟨id, fallible_of_throw (w := w₁) ⟨h₂, hanswer, hmysql, by simp [Call.isMysql]⟩⟩
    · -- the query failed, so MySQL is not served well
      have hf : Fallible (d.spec username) := by
        refine ⟨w₁, _, _, w₂, ⟨h₂, hanswer, hmysql, by simp [Call.isMysql]⟩, ?_⟩
        rintro ⟨-, hwell⟩
        obtain ⟨rows, hrows⟩ := hwell name (parseSql_cstr_selectPassword name)
        exact absurd hrows (by simp)
      refine wp_bind (Duty.wp_send (hbad hf _ _ _ (by decide) (by decide)) fun w₃ r _ ↦ ?_)
      cases r with
      | none => exact fun w₄ _ ↦ ⟨id, hf⟩
      | some _ => exact fun w₄ _ ↦ ⟨id, trivial⟩
    · have hselect := hanswer.1 name
      rcases rows with _ | _ | ⟨row, rows⟩
      · -- no result set
        refine fun w₃ _ ↦ ⟨id, fun hm ↦ ?_⟩
        obtain ⟨rows, hrows⟩ := (hmysql hm rfl).2 name (parseSql_cstr_selectPassword name)
        exact absurd hrows (by simp)
      · -- no row now, so there was none at the start
        refine fun w₃ _ ↦ ⟨id, fun _ ↦ ?_⟩
        have hnone : w₂.users name = none := by
          have hnil := hselect [] (parseSql_cstr_selectPassword name) rfl
          cases hu : w₂.users name with
          | none => rfl
          | some row => simp [hu] at hnil
        cases hu : w₀.users name with
        | none => rfl
        | some row =>
          have hlater := (hw₀.trans (h₁.trans h₂)).1 _ _ hu
          exact absurd (hnone.symm.trans hlater) (by simp)
      · have hrow : w₂.users name = some row := by
          have hcons := hselect (row :: rows) (parseSql_cstr_selectPassword name) rfl
          cases hu : w₂.users name with
          | none => simp [hu] at hcons
          | some row' => simp_all
        have hfinds : w₂.Finds username name (cstr row) := by
          rintro rfl
          exact ⟨row, hrow, rfl⟩
        refine wp_bind (wp_redisSetex (d.spec_lenient username) (fun w₃ conn' h₃ ↦ ?_)
          fun w₃ r h₃ hr ↦ ?_)
        · rw [cstr_append (by decide), cstr_cstr]
          intro hkey
          obtain rfl := hapart (List.append_cancel_left hkey)
          exact ⟨row, h₃.1 _ _ hrow, rfl⟩
        · cases r with
          | none => exact fun w₄ _ ↦ ⟨id, hr.resolve_left (by simp)⟩
          | some _ => exact fun w₄ h₄ ↦ ⟨id, hfinds.mono (h₃.trans h₄)⟩

theorem lookupPassword_faithful (hapart : cstr name = cstr username → name = username)
    (hbad : Fallible (d.spec username) → ∀ w statusCode message, statusCode ≠ 200 → statusCode ≠ 401 →
      d.allows w statusCode (errorJson message)) :
    wp (d.spec username) (lookupPassword name) (Lookup.Faithful d username name w) w := by
  refine wp_bind (wp_redisGet (d.spec_lenient username)
    (E := fun w v ↦ w.Cached username (lit "user:" ++ cstr name) v)
    (fun hle h ↦ World.Cached.mono h hle) (fun _ _ _ ↦ trivial) (fun _ hr ↦ ?_)
    (fun w₁ st h₁ hst ↦ ?_) (fun w₁ value h₁ hcached ↦ ?_) fun h _ _ ↦ h)
  · rw [← cstr_append (by decide)]
    exact hr.2.1
  · show wp _ (if st = .Ok ∧ [] ≠ [] then pure (.found []) else mysqlLookup name) _ w₁
    rw [if_neg (by simp)]
    exact mysqlLookup_faithful hapart hbad h₁
  · show wp _ (if .Ok = RedisStatus.Ok ∧ value ≠ [] then pure (.found value) else mysqlLookup name)
      _ w₁
    by_cases hvalue : value = []
    · rw [if_neg (by simp [hvalue])]
      exact mysqlLookup_faithful hapart hbad h₁
    · rw [if_pos ⟨rfl, hvalue⟩]
      rintro rfl
      exact hcached rfl

/-- **A login, as the cache and MySQL answer it.**  It says that there is no such user only if there
was none at the start, and compares with what MySQL returns. -/
theorem loginWork_duty (hapart : cstr name = cstr username → name = username)
    (hbad : Fallible (d.spec username) → ∀ w statusCode message, statusCode ≠ 200 → statusCode ≠ 401 →
      d.allows w statusCode (errorJson message))
    (hnotFound : (d.mysql → w.users name = none) →
      ∀ w', w ≤ w' → d.allows w' 401 (errorJson "user not found"))
    (hwrong : ∀ w' dbPassword, w ≤ w' → w'.Finds username name dbPassword → password ≠ dbPassword →
      d.allows w' 401 (errorJson "wrong password"))
    (hsuccess : ∀ w' token, w ≤ w' → w'.Finds username name password →
      d.allows w' 200 (loginJson token)) :
    wp (d.spec username) (runDbTask (loginWork name password)) (fun _ _ ↦ True) w := by
  refine Duty.wp_runDbTask (fun h w ↦ hbad h w _ _ (by decide) (by decide)) ?_
  have hlookup : wp (d.spec username) (lookupPassword name)
      (fun w' l ↦ w ≤ w' ∧ Lookup.Faithful d username name w w' l) w :=
    wp_le (d.spec_lenient username) (lookupPassword_faithful hapart hbad)
  refine wp_bind (wp_imp hlookup fun w₁ l ⟨h₁, hl⟩ ↦ ?_)
  have hend : ∀ {w₂ : World} {statusCode : ℕ} {body : Bytes}, d.allows w₂ statusCode body →
      wp (d.spec username) (perform (.send statusCode body))
        (fun _ r ↦ r = none → Fallible (d.spec username)) w₂ := by
    intro w₂ statusCode body hallows
    refine wp_perform hallows fun w₃ r hr hnone ↦ ?_
    subst hnone
    exact fallible_of_throw hr
  rcases l with _ | _ | _ | dbPassword
  · exact fun _ ↦ hl
  · exact fun h ↦ absurd h (by simp)
  · exact hend (hnotFound hl w₁ h₁)
  show wp _ (if password ≠ dbPassword then _ else _) _ _
  by_cases hpassword : password = dbPassword
  · subst hpassword
    rw [if_neg (by simp)]
    refine wp_bind (wp_perform trivial fun w₂ r hr ↦ ?_)
    cases r with
    | none => exact fun _ ↦ fallible_of_throw hr
    | some token =>
      have h₂ := h₁.trans hr.1
      refine wp_bind (wp_redisSetex (d.spec_lenient username) (fun w₃ conn h₃ hkey ↦ ?_)
        fun w₃ r h₃ hok ↦ ?_)
      · -- a session is not a cached password
        rw [cstr_append (by decide)] at hkey
        exact absurd hkey.symm (lit_user_ne_session _ _)
      · rcases r with _ | _ | _
        · exact fun _ ↦ hok.resolve_left (by simp)
        · have hf := hok.resolve_left (by simp)
          exact hend (hbad hf w₃ _ _ (by decide) (by decide))
        · exact hend (hsuccess w₃ token (h₂.trans h₃) (World.Finds.mono hl (hr.1.trans h₃)))
  · rw [if_pos hpassword]
    exact hend (hwrong w₁ dbPassword h₁ hl hpassword)

end Login

/-- **A registration** says that it has succeeded only if the user is in the users table. -/
theorem registerWork_duty {d : Duty} {username name password : Bytes} {w : World}
    (hbad : ∀ w statusCode body, statusCode ≠ 200 → d.allows w statusCode body)
    (hsuccess : ∀ w body, w.users name = some password → d.allows w 200 body) :
    wp (d.spec username) (runDbTask (registerWork name password)) (fun _ _ ↦ True) w := by
  have hend : ∀ {w : World} {statusCode : ℕ} {body : Bytes}, d.allows w statusCode body →
      wp (d.spec username) (perform (.send statusCode body)) (fun _ _ ↦ True) w :=
    fun hallows ↦ Duty.wp_send hallows fun _ _ _ ↦ trivial
  refine wp_handle (wp_imp (Q := fun _ _ ↦ True) ?_ fun w' r _ ↦ ?_)
  · refine wp_withGuard (d.spec_lenient username) (fun _ _ _ ↦ trivial) fun w₁ conn _ _ ↦ ?_
    refine wp_imp (Q := fun _ _ ↦ True) ?_ fun _ _ _ _ _ ↦ ⟨fun _ ↦ trivial, trivial⟩
    cases conn with
    | none => exact hend (hbad _ _ _ (by decide))
    | some conn =>
      refine wp_bind (wp_perform trivial fun w₂ r _ ↦ ?_)
      rcases r with _ | _ | _ | (_ | _)
      case none => trivial
      case some.failed => exact hend (hbad _ _ _ (by decide))
      case some.done.some.cons => exact hend (hbad _ _ _ (by decide))
      case some.done.none | some.done.some.nil =>
        refine wp_bind (wp_perform trivial fun w₃ r hr ↦ ?_)
        rcases r with _ | _ | rows
        · trivial
        · exact hend (hbad _ _ _ (by decide))
        · exact hend (hsuccess w₃ _ (hr.2.1.2 name password (parseSql_cstr_insert name password)))
  · cases r with
    | none => exact hend (hbad _ _ _ (by decide))
    | some _ => trivial

/-- **The other two tasks** have nothing to do with passwords. -/
theorem plain_duty {d : Duty} {username : Bytes} {w : World} {p : Job PUnit}
    (hp : Calls Call.Plain p) (hall : ∀ w statusCode body, d.allows w statusCode body) :
    wp (d.spec username) p (fun _ _ ↦ True) w := by
  refine wp_of_calls (I := fun _ ↦ True) (fun o ho w _ ↦ ⟨?_, fun _ _ _ ↦ trivial⟩) hp trivial
  cases o with
  | redisCommand conn cmd =>
    cases cmd with
    | setex key ttl value => exact absurd ho id
    | _ => trivial
  | send statusCode body => exact hall w statusCode body
  | _ => trivial

/-- The duty of a task that nothing is expected of, except that a registration means what it says. -/
def Task.duty (t : Task) : Duty where
  mysql := False
  redis := False
  allows w statusCode _ := ∀ fd keepAlive username password,
    t = .register fd keepAlive username password → statusCode = 200 → w.users username = some password
  mono hw h fd keepAlive username password ht hcode :=
    hw.1 _ _ (h fd keepAlive username password ht hcode)

theorem work_duty {t : Task} {username : Bytes} (hapart : (Move.start t).Apart username) (w : World) :
    wp (t.duty.spec username) t.work (fun _ _ ↦ True) w := by
  cases t with
  | register fd keepAlive name password =>
    refine registerWork_duty (fun w statusCode body hcode ↦ ?_) fun w body hrow ↦ ?_
    · exact fun _ _ _ _ _ h ↦ absurd h hcode
    · rintro _ _ _ _ ⟨⟩ -
      exact hrow
  | login fd keepAlive name password =>
    have hall : ∀ w statusCode body, (Task.login fd keepAlive name password).duty.allows w statusCode
        body := fun _ _ _ _ _ _ _ h ↦ absurd h (by simp)
    exact loginWork_duty hapart (fun _ w _ _ _ _ ↦ hall w _ _) (fun _ w _ ↦ hall w _ _)
      (fun w _ _ _ _ ↦ hall w _ _) fun w _ _ _ ↦ hall w _ _
  | profile fd keepAlive token =>
    exact plain_duty (work_plain (by simp)) fun _ _ _ _ _ _ _ h ↦ absurd h (by simp)
  | logout fd keepAlive token =>
    exact plain_duty (work_plain (by simp)) fun _ _ _ _ _ _ _ h ↦ absurd h (by simp)

/-! ## Runs -/

namespace Auth

/-- What holds in a run in which every worker does its duty. -/
structure Tended (duty : ℕ → Task → Duty) (username : Bytes) (s : Auth) (log : List Reply) : Prop where
  cached : ∀ key value, s.store.redis key = some value → s.world.Cached username key value
  keeps : s.Keeps (fun i t ↦ (duty i t).spec username) (fun _ _ _ ↦ True) fun _ ↦ s.world
  allowed : ∀ r ∈ log, ∀ k, s.running[r.worker]? = some k →
    (duty r.worker k.task).allows s.world r.statusCode r.body

variable {duty : ℕ → Task → Duty} {username : Bytes} {s : Auth} {log : List Reply}

/-- The condition on a move: the calls of a worker come out as well as its duty lets it expect. -/
def Serves (duty : ℕ → Task → Duty) (s : Auth) (m : Move) : Prop :=
  ∀ i out t o next, m = .call i out → s.running[i]? = some ⟨t, .call o next⟩ →
    ((duty i t).mysql → o.isMysql = true → out.isFine = true) ∧
      ((duty i t).redis → o.isMysql = false → out.isFine = true)

theorem cached_exec (h : ∀ key value, s.store.redis key = some value →
    s.world.Cached username key value) {d : Duty} {o : Call} {out : Outcome} {store : Store}
    {r : Option o.Res} (hpre : (d.spec username).pre s.world o)
    (hexec : s.store.exec o out = some (store, r)) (key value : Bytes)
    (hvalue : store.redis key = some value) : s.world.Cached username key value := by
  rcases Store.exec_store hexec with rfl | ⟨conn, cmd, rfl, rfl⟩ | ⟨conn, sql, -, rfl⟩ |
    ⟨token, -, -, rfl⟩
  · exact h key value hvalue
  · cases cmd with
    | get key' => exact h key value hvalue
    | setex key' ttl value' =>
      change Function.update s.store.redis key' (some value') key = some value at hvalue
      by_cases hkey : key = key'
      · subst hkey
        rw [Function.update_self, Option.some_inj] at hvalue
        subst hvalue
        exact hpre
      · rw [Function.update_of_ne hkey] at hvalue
        exact h key value hvalue
    | del key' =>
      change Function.update s.store.redis key' none key = some value at hvalue
      by_cases hkey : key = key'
      · subst hkey
        simp at hvalue
      · rw [Function.update_of_ne hkey] at hvalue
        exact h key value hvalue
  · have hredis : (s.store.mysqlQuery sql).1.redis = s.store.redis := by
      rcases s.store.mysqlQuery_cases sql with e | ⟨u, p, -, -, e⟩
      · rw [e]
      · rw [e]
    rw [hredis] at hvalue
    exact h key value hvalue
  · exact h key value hvalue

theorem answers_exec (h : ∀ key value, s.store.redis key = some value →
    s.world.Cached username key value) {o : Call} {out : Outcome} {store : Store} {r : Option o.Res}
    (hexec : s.store.exec o out = some (store, r)) {w : World} (hw : s.world ≤ w)
    (husers : w.users = store.users) : w.Answers username o r := by
  unfold World.Answers
  split
  · exact (h _ _ (Store.exec_get hexec)).mono hw
  · obtain ⟨rfl, rows', hresult, hrows⟩ := Store.exec_done hexec
    refine ⟨fun u l hsql hl ↦ ?_, fun u p hsql ↦ ?_⟩
    · -- the rows of a `SELECT`
      rw [Store.mysqlQuery, hsql] at hresult
      have hrows' : some (s.store.users u).toList = rows' := QueryResult.done.inj hresult
      have husers' : w.users u = s.store.users u := by
        rw [husers, Store.mysqlQuery, hsql]
        rfl
      rcases hrows with rfl | ⟨hnone, -⟩
      · rw [husers', ← Option.some_inj, ← hl, hrows']
      · exact absurd (hl.symm.trans hnone) (by simp)
    · rw [husers]
      exact Store.users_of_insert hsql hresult
  · trivial

theorem Tended.step (h : s.Tended duty username log) {m : Move} (hserves : s.Serves duty m)
    (hstart : ∀ t, m = .start t →
      wp ((duty s.running.length t).spec username) t.work (fun _ _ ↦ True) s.world)
    (hlog : ∀ r ∈ log, r.worker < s.running.length) :
    (s.step m).Tended duty username (log ++ s.reply m) := by
  have hw := s.world_le_step m
  rcases s.move_cases m with ⟨t, rfl⟩ | ⟨key, rfl⟩ | ⟨e, hreply⟩ |
    ⟨i, out, t, o, next, store, r, rfl, hi, hexec, hreply, e⟩
  · rw [reply, List.append_nil]
    refine ⟨h.cached, h.keeps.start (hstart t rfl), fun r hr k hk ↦ ?_⟩
    change (s.running ++ [⟨t, t.work⟩])[r.worker]? = some k at hk
    rw [List.getElem?_append_left (hlog r hr)] at hk
    exact h.allowed r hr k hk
  · rw [reply, List.append_nil]
    refine ⟨fun key' value hvalue ↦ ?_, h.keeps.of_running_eq rfl, h.allowed⟩
    change Function.update s.store.redis key none key' = some value at hvalue
    by_cases hkey : key' = key
    · subst hkey
      simp at hvalue
    · rw [Function.update_of_ne hkey] at hvalue
      exact h.cached key' value hvalue
  · rw [e, hreply, List.append_nil]
    exact h
  · obtain ⟨hpre, -⟩ := h.keeps i _ hi
    obtain ⟨hmysql, hredis⟩ := hserves i out t o next rfl hi
    have hwell := fun hfine ↦ Store.exec_well hexec hfine
    have husers : (s.step (.call i out)).world.users = store.users := by rw [e]; rfl
    have hpost : ((duty i t).spec username).post s.world o r (s.step (.call i out)).world :=
      ⟨hw, answers_exec h.cached hexec hw husers, fun hm ho ↦ hwell (hmysql hm ho),
        fun hr ho ↦ hwell (hredis hr ho)⟩
    have hrunning : (s.step (.call i out)).running = s.running.set i ⟨t, next r⟩ := by rw [e]
    refine ⟨fun key value hvalue ↦ ?_, ?_, fun r' hr' k hk ↦ ?_⟩
    · rw [e] at hvalue
      exact (cached_exec h.cached hpre hexec key value hvalue).mono hw
    · refine (h.keeps.call hi hpost hrunning).mono (fun i t ↦ (duty i t).spec_stable username)
        (fun _ _ _ _ _ _ ↦ trivial) fun j ↦ ?_
      by_cases hj : j = i
      · rw [hj, Function.update_self]
      · rw [Function.update_of_ne hj]
        exact hw
    · -- the tasks are what they were
      have htask : ∃ k', s.running[r'.worker]? = some k' ∧ k'.task = k.task := by
        rw [hrunning, List.getElem?_set] at hk
        by_cases hworker : i = r'.worker
        · rw [if_pos hworker, if_pos (List.getElem?_eq_some_iff.mp hi).1] at hk
          exact ⟨_, hworker ▸ hi, by rw [← Option.some.inj hk]⟩
        · rw [if_neg hworker] at hk
          exact ⟨k, hk, rfl⟩
      obtain ⟨k', hk', htask⟩ := htask
      rw [← htask]
      rcases List.mem_append.mp hr' with hr' | hr'
      · exact (duty _ _).mono hw (h.allowed r' hr' k' hk')
      · rw [hreply] at hr'
        cases o with
        | send statusCode body =>
          obtain rfl := List.mem_singleton.mp hr'
          obtain rfl := Option.some.inj (hk'.symm.trans hi)
          exact (duty _ _).mono hw hpre
        | _ => exact absurd hr' (by simp [Call.reply])

theorem tended_start : start.Tended duty username [] where
  cached key value h := absurd h (by simp [start, Store.empty])
  keeps i k hk := absurd hk (by simp [start])
  allowed r hr := absurd hr (by simp)

/-- A run in which no login is made under a twin. -/
theorem tended_run {ms : List Move} (hapart : ∀ m ∈ ms, m.Apart username) :
    (start.run ms).Tended (fun _ t ↦ t.duty) username (start.replies ms) ∧
      (start.run ms).Once (start.replies ms) := by
  have hmeets : Meets step (fun _ m ↦ m.Apart username) start ms :=
    meets_of_forall (fun m hm _ ↦ hapart m hm) start
  refine replies_invariant (I := fun s log ↦ s.Tended (fun _ t ↦ t.duty) username log ∧ s.Once log)
    (fun s log m h hm ↦ ⟨h.1.step ?_ (fun t e ↦ work_duty (e ▸ hm) _) h.2.started, h.2.step m⟩) hmeets
    ⟨tended_start, once_of_running_nil rfl⟩
  exact fun _ _ _ _ _ _ _ ↦ ⟨False.elim, False.elim⟩

/-- The duties when one worker has a special one. -/
def special (j : ℕ) (d : Duty) (i : ℕ) (t : Task) : Duty := if i = j then d else t.duty

theorem serves_of_healthy {P : Call → Bool} {j : ℕ} {d : Duty}
    (hmysql : d.mysql → ∀ o : Call, o.isMysql = true → P o = true)
    (hredis : d.redis → ∀ o : Call, o.isMysql = false → P o = true) {m : Move}
    (h : s.Healthy P j m) : s.Serves (special j d) m := by
  rintro i out t o next rfl hi
  by_cases hj : i = j
  · subst hj
    have hnext : o ∈ s.nextCall i := by simp [nextCall, hi]
    rw [special, if_pos rfl]
    exact ⟨fun hm ho ↦ (h rfl o hnext (hmysql hm o ho)).1, fun hr ho ↦ (h rfl o hnext (hredis hr o ho)).1⟩
  · rw [special, if_neg hj]
    exact ⟨False.elim, False.elim⟩

/-- **One login in the middle of everything.**  If its task keeps to its duty when it is started, then
its responses are within it. -/
theorem allowed_login {ms₀ ms₁ : List Move} (hapart : ∀ m ∈ ms₀ ++ ms₁, m.Apart username) {t : Task}
    {d : Duty} (hwork : wp (d.spec username) t.work (fun _ _ ↦ True) (start.run ms₀).world)
    {P : Call → Bool} (hmysql : d.mysql → ∀ o : Call, o.isMysql = true → P o = true)
    (hredis : d.redis → ∀ o : Call, o.isMysql = false → P o = true)
    (hhealthy : Meets step (Healthy P (start.run ms₀).running.length)
      ((start.run ms₀).step (.start t)) ms₁) {r : Reply}
    (hr : r ∈ ((start.run ms₀).step (.start t)).replies ms₁)
    (hworker : r.worker = (start.run ms₀).running.length) :
    d.allows (((start.run ms₀).step (.start t)).run ms₁).world r.statusCode r.body := by
  generalize hj : (start.run ms₀).running.length = j at *
  obtain ⟨htended, honce⟩ := tended_run fun m hm ↦ hapart m (List.mem_append_left _ hm)
  -- nobody has the number of the new worker yet, so its duty can be anything
  have hspecial : (start.run ms₀).Tended (special j d) username (start.replies ms₀) := by
    have hother : ∀ {i : ℕ} (t : Task), i < (start.run ms₀).running.length →
        special j d i t = t.duty := fun t hi ↦ if_neg (by omega)
    refine ⟨htended.cached, fun i k hk ↦ ?_, fun r hr k hk ↦ ?_⟩
    · show wp ((special j d i k.task).spec username) _ _ _
      rw [hother k.task (List.getElem?_eq_some_iff.mp hk).1]
      exact htended.keeps i k hk
    · rw [hother k.task (honce.started r hr)]
      exact htended.allowed r hr k hk
  have hstarted : ((start.run ms₀).step (.start t)).Tended (special j d) username (start.replies ms₀) ∧
      ((start.run ms₀).step (.start t)).Once (start.replies ms₀) ∧
      j < ((start.run ms₀).step (.start t)).running.length := by
    refine ⟨?_, ?_, ?_⟩
    · have h := hspecial.step (m := .start t) (fun i out _ _ _ e ↦ absurd e (by simp)) ?_ honce.started
      · simpa [reply] using h
      · rintro _ ⟨⟩
        rw [hj, special, if_pos rfl]
        exact hwork
    · simpa [reply] using honce.step (.start t)
    · rw [show ((start.run ms₀).step (.start t)).running = (start.run ms₀).running ++ [⟨t, t.work⟩]
        from rfl, List.length_append, hj]
      simp
  have hmeets : Meets step (fun s m ↦ s.Healthy P j m ∧ m.Apart username)
      ((start.run ms₀).step (.start t)) ms₁ :=
    hhealthy.and fun m hm ↦ hapart m (List.mem_append_right _ hm)
  have hend := replies_invariant
    (I := fun s log ↦ s.Tended (special j d) username log ∧ s.Once log ∧ j < s.running.length)
    (fun s log m h hm ↦ ⟨?_, h.2.1.step m, ?_⟩) hmeets hstarted
  · obtain ⟨htended', honce', hlt⟩ := hend
    have hmem : r ∈ start.replies ms₀ ++ ((start.run ms₀).step (.start t)).replies ms₁ :=
      List.mem_append_right _ hr
    have hk := List.getElem?_eq_getElem (honce'.started r hmem)
    have hallows := htended'.allowed r hmem _ hk
    rwa [special, if_pos hworker] at hallows
  · refine h.1.step (serves_of_healthy hmysql hredis hm.1) (fun t' e ↦ ?_) h.2.1.started
    rw [special, if_neg (by omega)]
    exact work_duty (e ▸ hm.2) _
  · exact h.2.2.trans_le (s.running_length_le m)

end Auth

/-! ## Transparency -/

/-- The password that was submitted has been compared with the one MySQL returns. -/
def World.Compared (w : World) (username password : Bytes) (v : Verdict) : Prop :=
  ∃ row, w.users username = some row ∧
    v = if password = cstr row then .success else .wrongPassword

/-- The duty of a login that must say what MySQL says, now or at the start. -/
def Store.transparentDuty (s : Store) (username password : Bytes) : Duty where
  mysql := True
  redis := False
  allows w statusCode body := ∀ v, Verdict.ofReply statusCode body = some v →
    s.consult username password = some v ∨ w.Compared username password v
  mono := by
    intro w w' statusCode body hw h v hv
    refine (h v hv).imp_right ?_
    rintro ⟨row, hrow, e⟩
    exact ⟨row, hw.1 _ _ hrow, e⟩

theorem login_transparent (s : Auth) (fd : ℕ) (keepAlive : Bool) (username password : Bytes) :
    wp ((s.store.transparentDuty username password).spec username)
      (Task.login fd keepAlive username password).work (fun _ _ ↦ True) s.world := by
  refine loginWork_duty (fun _ ↦ rfl) (fun _ w statusCode message h200 h401 v hv ↦ ?_)
    (fun hnone w' _ v hv ↦ .inl ?_) (fun w' dbPassword _ hfinds hne v hv ↦ .inr ?_)
    fun w' token _ hfinds v hv ↦ .inr ?_
  · simp [Verdict.ofReply, h200, h401] at hv
  · obtain rfl : Verdict.notFound = v := by simpa [Verdict.ofReply] using hv
    have hnone' : s.store.users username = none := hnone trivial
    rw [Store.consult_eq, hnone']
  · obtain rfl : Verdict.wrongPassword = v := by
      have hbody : errorJson "wrong password" ≠ errorJson "user not found" := by decide
      simpa [Verdict.ofReply, hbody] using hv
    obtain ⟨row, hrow, rfl⟩ := hfinds rfl
    exact ⟨row, hrow, (if_neg hne).symm⟩
  · obtain rfl : Verdict.success = v := by simpa [Verdict.ofReply] using hv
    obtain ⟨row, hrow, e⟩ := hfinds rfl
    exact ⟨row, hrow, (if_pos e).symm⟩

/-- **The password cache is transparent.**  When a login with credentials of any bytes, in a run in
which none is made under a twin of its username, comes to a verdict, it is the one that MySQL alone
would give, on the users table as it was when the login began or as it is in the end.  (The two are
the same unless the user is registered in between.) -/
theorem cache_transparent (ms₀ ms₁ : List Move) (fd : ℕ) (keepAlive : Bool)
    (username password : Bytes) (hapart : ∀ m ∈ ms₀ ++ ms₁, m.Apart username)
    (hmysql : Meets Auth.step (Auth.Healthy Call.isMysql (Auth.start.run ms₀).running.length)
      ((Auth.start.run ms₀).step (.start (.login fd keepAlive username password))) ms₁)
    (r : Reply)
    (hr : r ∈ ((Auth.start.run ms₀).step (.start (.login fd keepAlive username password))).replies ms₁)
    (hworker : r.worker = (Auth.start.run ms₀).running.length) (v : Verdict)
    (hv : Verdict.ofReply r.statusCode r.body = some v) :
    (Auth.start.run ms₀).store.consult username password = some v ∨
      (((Auth.start.run ms₀).step (.start (.login fd keepAlive username password))).run
        ms₁).store.consult username password = some v := by
  have hallows := Auth.allowed_login hapart (login_transparent _ fd keepAlive username password)
    (P := Call.isMysql) (fun _ _ ho ↦ ho) False.elim hmysql hr hworker
  refine (hallows v hv).imp_right ?_
  rintro ⟨row, hrow, rfl⟩
  rw [Store.consult_eq, show Store.users _ username = some row from hrow]

/-- The next login of that user is answered from the cache, as MySQL would answer it. -/
theorem cache_transparent_hit :
    (∀ m ∈ Move.fillCache (lit "bob") (lit "pw") ++ Move.loginHit 2 (List.replicate 32 98),
        m.Apart (lit "bob")) ∧
      (⟨2, 200, loginJson (List.replicate 32 98)⟩ : Reply) ∈
        ((Auth.start.run (Move.fillCache (lit "bob") (lit "pw"))).step
          (.start (.login 8 true (lit "bob") (lit "pw")))).replies
          (Move.loginHit 2 (List.replicate 32 98)) ∧
      ((Auth.start.run (Move.fillCache (lit "bob") (lit "pw"))).store.consult (lit "bob") (lit "pw") =
          some .success ∨
        (((Auth.start.run (Move.fillCache (lit "bob") (lit "pw"))).step
          (.start (.login 8 true (lit "bob") (lit "pw")))).run
          (Move.loginHit 2 (List.replicate 32 98))).store.consult (lit "bob") (lit "pw") =
          some .success) := by
  have hapart : ∀ m ∈ Move.fillCache (lit "bob") (lit "pw") ++ Move.loginHit 2 (List.replicate 32 98),
      m.Apart (lit "bob") := by
    decide +kernel
  have hreply : (⟨2, 200, loginJson (List.replicate 32 98)⟩ : Reply) ∈
      ((Auth.start.run (Move.fillCache (lit "bob") (lit "pw"))).step
        (.start (.login 8 true (lit "bob") (lit "pw")))).replies
        (Move.loginHit 2 (List.replicate 32 98)) := by
    decide +kernel
  exact ⟨hapart, hreply,
    cache_transparent _ _ 8 true _ _ hapart (by decide +kernel) _ hreply (by decide +kernel) _ rfl⟩

/-- **A cache entry that opens another account.**  The login of `alice\0` leaves its password under
the key of `alice`, who is not registered; then `alice` can log in with it. -/
theorem cache_poisoned :
    (⟨2, 200, loginJson (List.replicate 32 98)⟩ : Reply) ∈
        ((Auth.start.run (Move.fillCache (lit "alice" ++ [0]) (lit "pw"))).step
          (.start (.login 8 true (lit "alice") (lit "pw")))).replies
          (Move.loginHit 2 (List.replicate 32 98)) ∧
      Meets Auth.step (Auth.Healthy Call.isMysql 2)
        ((Auth.start.run (Move.fillCache (lit "alice" ++ [0]) (lit "pw"))).step
          (.start (.login 8 true (lit "alice") (lit "pw")))) (Move.loginHit 2 (List.replicate 32 98)) ∧
      checkCredentials (lit "alice" ++ [0]) (lit "pw") = none ∧
      (Auth.start.run (Move.fillCache (lit "alice" ++ [0]) (lit "pw"))).store.consult
          (lit "alice") (lit "pw") = some .notFound ∧
      (((Auth.start.run (Move.fillCache (lit "alice" ++ [0]) (lit "pw"))).step
          (.start (.login 8 true (lit "alice") (lit "pw")))).run
          (Move.loginHit 2 (List.replicate 32 98))).store.consult (lit "alice") (lit "pw") =
        some .notFound := by
  refine ⟨by decide +kernel, by decide +kernel, by decide +kernel, ?_, ?_⟩
  · rw [Store.consult_eq]
    decide +kernel
  · rw [Store.consult_eq]
    decide +kernel

/-! ## Logging in after registering -/

/-- The duty of a login that must succeed with one password and fail with all others. -/
def loginDuty (password submitted : Bytes) : Duty where
  mysql := True
  redis := True
  allows _ statusCode _ := statusCode = 200 ↔ submitted = password
  mono _ h := h

theorem login_registered {w : World} {username password : Bytes}
    (hrow : w.users username = some password) (hnul : 0 ∉ password) (fd : ℕ) (keepAlive : Bool)
    (submitted : Bytes) :
    wp ((loginDuty password submitted).spec username)
      (Task.login fd keepAlive username submitted).work (fun _ _ ↦ True) w := by
  have hfound : ∀ {w' : World} {dbPassword : Bytes}, w ≤ w' →
      w'.Finds username username dbPassword → dbPassword = password := by
    intro w' dbPassword hw hfinds
    obtain ⟨row, hrow', rfl⟩ := hfinds rfl
    obtain rfl := Option.some.inj (hrow'.symm.trans (hw.1 _ _ hrow))
    exact cstr_eq_self hnul
  refine loginWork_duty (fun _ ↦ rfl) (fun hbad ↦ absurd hbad (Duty.not_fallible trivial trivial))
    (fun hnone ↦ ?_) (fun w' dbPassword hw hfinds hne ↦ ?_) fun w' token hw hfinds ↦ ?_
  · exact absurd ((hnone trivial).symm.trans hrow) (by simp)
  · rw [hfound hw hfinds] at hne
    exact ⟨fun h ↦ absurd h (by decide), fun h ↦ absurd h hne⟩
  · exact ⟨fun _ ↦ hfound hw hfinds, fun _ ↦ rfl⟩

/-- **Register, then log in.**  Take a user who has been registered with a password without a NUL, in
a run in which no login is made under a twin of the username.  A login that MySQL and Redis serve
well, in any later state and with anything else going on, answers 200 if and only if the password
submitted is the one that was registered; and it has answered after fifteen calls. -/
theorem login_after_register (ms₀ ms₁ : List Move) (fd fd' : ℕ) (keepAlive keepAlive' : Bool)
    (username password submitted : Bytes) (r₀ : Reply) (hregistered : r₀ ∈ Auth.start.replies ms₀)
    (hcode : r₀.statusCode = 200)
    (htask : (Auth.start.run ms₀).running[r₀.worker]?.map Worker.task =
      some (.register fd keepAlive username password))
    (hnul : 0 ∉ password) (hapart : ∀ m ∈ ms₀ ++ ms₁, m.Apart username)
    (hhealthy : Meets Auth.step (Auth.Healthy (fun _ ↦ true) (Auth.start.run ms₀).running.length)
      ((Auth.start.run ms₀).step (.start (.login fd' keepAlive' username submitted))) ms₁) :
    (∀ r ∈ ((Auth.start.run ms₀).step (.start (.login fd' keepAlive' username submitted))).replies ms₁,
        r.worker = (Auth.start.run ms₀).running.length →
        (r.statusCode = 200 ↔ submitted = password)) ∧
      (15 ≤ ms₁.countP (·.isCallOf (Auth.start.run ms₀).running.length) →
        ∃ r ∈ ((Auth.start.run ms₀).step
          (.start (.login fd' keepAlive' username submitted))).replies ms₁,
          r.worker = (Auth.start.run ms₀).running.length) := by
  obtain ⟨htended, honce⟩ := Auth.tended_run fun m hm ↦ hapart m (List.mem_append_left _ hm)
  have hrow : (Auth.start.run ms₀).world.users username = some password := by
    obtain ⟨k, hk, ht⟩ := Option.map_eq_some_iff.mp htask
    exact htended.allowed r₀ hregistered k hk fd keepAlive username password ht hcode
  refine ⟨fun r hr hworker ↦ ?_, fun hcount ↦ ?_⟩
  · exact Auth.allowed_login hapart (login_registered hrow hnul fd' keepAlive' submitted)
      (P := fun _ ↦ true) (fun _ _ _ ↦ rfl) (fun _ _ _ ↦ rfl) hhealthy hr hworker
  · exact Auth.exists_reply_of_calls hhealthy hcount

/-- A user who has been registered logs in, and is let in with the right password. -/
theorem login_after_register_bob :
    (⟨1, 200, loginJson (List.replicate 32 97)⟩ : Reply) ∈
        ((Auth.start.run (Move.register 0 (lit "bob") (lit "pw"))).step
          (.start (.login 8 true (lit "bob") (lit "pw")))).replies
          (Move.loginMiss 1 (List.replicate 32 97)) ∧
      ((200 = 200) ↔ lit "pw" = lit "pw") := by
  have hreply : (⟨1, 200, loginJson (List.replicate 32 97)⟩ : Reply) ∈
      ((Auth.start.run (Move.register 0 (lit "bob") (lit "pw"))).step
        (.start (.login 8 true (lit "bob") (lit "pw")))).replies
        (Move.loginMiss 1 (List.replicate 32 97)) := by
    decide +kernel
  have key := login_after_register (Move.register 0 (lit "bob") (lit "pw"))
    (Move.loginMiss 1 (List.replicate 32 97)) 7 8 true true (lit "bob") (lit "pw") (lit "pw")
    ⟨0, 200, messageJson "register success"⟩ (by decide +kernel) rfl (by decide +kernel)
    (by decide) (by decide +kernel) (by decide +kernel)
  exact ⟨hreply, key.1 _ hreply (by decide +kernel)⟩

/-- The calls of a login that finds another password in the users table. -/
def Move.loginWrong (i : ℕ) : List Move :=
  [Outcome.handle 1, .served, .served, .handle 0, .served, .handle 1, .served, .served, .served,
    .served].map (.call i)

/-- **A password that does not open its account.**  `p\0w` is registered, and then refused, although
MySQL and Redis are well. -/
theorem login_refused :
    (⟨0, 200, messageJson "register success"⟩ : Reply) ∈
        Auth.start.replies (Move.register 0 (lit "bob") (lit "p" ++ 0 :: lit "w")) ∧
      checkCredentials (lit "bob") (lit "p" ++ 0 :: lit "w") = none ∧
      Meets Auth.step (Auth.Healthy (fun _ ↦ true) 1)
        ((Auth.start.run (Move.register 0 (lit "bob") (lit "p" ++ 0 :: lit "w"))).step
          (.start (.login 8 true (lit "bob") (lit "p" ++ 0 :: lit "w")))) (Move.loginWrong 1) ∧
      ((Auth.start.run (Move.register 0 (lit "bob") (lit "p" ++ 0 :: lit "w"))).step
          (.start (.login 8 true (lit "bob") (lit "p" ++ 0 :: lit "w")))).replies (Move.loginWrong 1) =
        [⟨1, 401, errorJson "wrong password"⟩] :=
  ⟨by decide +kernel, by decide +kernel, by decide +kernel, by decide +kernel⟩

end ReactorServer
