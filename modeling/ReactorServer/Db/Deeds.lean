import ReactorServer.Db.Service

/-!
# What the calls of a task decide

Each operation is decided by one of the calls of its task.  A registration is decided by its
`INSERT`, or by the `SELECT` that finds the name taken.  A login with a wrong password is decided when
the password is read, from the cache or from the table, since a row of the table never changes; a
login that succeeds is decided by the `SETEX` of the session, also when the reply is lost and the
client is told that it failed.  Reading and deleting a session decide the other two.

`Progress` is how far a worker has come in this sense, and `Task.deed` is what its calls do to it, as
far as the worker can tell.  That a task answers with what has been decided, or with a failure, and
exactly once, is `work_meets_deed`.
-/

set_option autoImplicit false

namespace ReactorServer

open Program Machine Concurrent

/-! ## Progress -/

/-- How far a worker has come with its operation. -/
inductive Progress where
  /-- Nothing has been decided. -/
  | fresh
  /-- A token has been drawn, and there is no session for it yet. -/
  | holding (token : Bytes)
  /-- The operation has been carried out, with this answer. -/
  | settled (r : Result)
  | answered
  deriving DecidableEq, Repr

/-- What may be answered now. -/
def Progress.CanSend : Progress → Result → Prop
  | .fresh, r => r ∈ Result.failures
  | .holding _, r => r ∈ Result.failures
  | .settled r', r => r = r' ∨ r ∈ Result.failures
  | .answered, _ => False

theorem Progress.canSend_failure {p : Progress} (h : p ≠ .answered) {r : Result}
    (hr : r ∈ Result.failures) : p.CanSend r := by
  cases p with
  | fresh => exact hr
  | holding token => exact hr
  | settled r' => exact .inr hr
  | answered => exact absurd rfl h

/-- What a worker knows: rows of the users table, and its own progress. -/
structure View where
  users : Bytes → Option Bytes
  progress : Progress

instance : Preorder View where
  le v v' := (∀ u p, v.users u = some p → v'.users u = some p) ∧ v.progress = v'.progress
  le_refl v := ⟨fun _ _ h ↦ h, rfl⟩
  le_trans _ _ _ h h' := ⟨fun u p hu ↦ h'.1 u p (h.1 u p hu), h.2.trans h'.2⟩

/-! ## What the calls of a task are for -/

namespace Task

/-- The commands that a task gives. -/
def commands (t : Task) (v : View) (cmd : RedisCommand) : Prop :=
  match t, cmd with
  | .login _ _ username _, .get key => v.progress = .fresh ∧ key = lit "user:" ++ username
  | .login _ _ username password, .setex key _ value =>
    ((∀ token, v.progress ≠ .holding token) ∧ ∃ name, key = lit "user:" ++ name) ∨
      ∃ token, v.progress = .holding token ∧ key = lit "session:" ++ token ∧ value = username ∧
        v.users username = some password
  | .profile _ _ token, .get key => v.progress = .fresh ∧ key = lit "session:" ++ token
  | .logout _ _ token, .del key => v.progress = .fresh ∧ key = lit "session:" ++ token
  | _, _ => False

/-- What it knows when a command has been answered. -/
def commanded : Task → Progress → RedisCommand → Option (Option RedisReply) → View → Prop
  | .login _ _ username password, p, .get _, some (some (.string value)), v =>
    v.users username = some value ∧
      v.progress = if value = [] ∨ value = password then p else .settled (.error 401 "wrong password")
  | .login .., p, .setex .., r, v =>
    (v.progress = p ∧ ((∀ token, p ≠ .holding token) ∨ ∀ reply, r = some (some reply) → reply = .error)) ∨
      ∃ token, p = .holding token ∧ v.progress = .settled ⟨200, loginJson token⟩
  | .profile .., _, .get _, some (some (.string value)), v =>
    value ≠ [] ∧ v.progress = .settled ⟨200, profileJson value⟩
  | .profile .., _, .get _, some (some _), v =>
    v.progress = .settled (.error 401 "invalid or expired token")
  | .logout .., _, .del _, some (some (.integer (_ + 1))), v =>
    v.progress = .settled (.message 200 "logout success")
  | .logout .., _, .del _, some (some _), v =>
    v.progress = .settled (.error 401 "invalid or expired token")
  | .logout .., p, .del _, some none, v =>
    v.progress = p ∨ v.progress = .settled (.message 200 "logout success")
  | _, p, _, _, v => v.progress = p

/-- The statements that it sends. -/
def queries : Task → Progress → Option Stmt → Prop
  | .register _ _ username _, p, some (.selectExists user) => p = .fresh ∧ user = username
  | .register _ _ username password, p, some (.insert user pass) =>
    p = .fresh ∧ user = username ∧ pass = password
  | .login _ _ username _, p, some (.selectPassword user) => p = .fresh ∧ user = username
  | _, _, _ => False

/-- What it knows when a statement has been answered. -/
def queried : Task → Progress → Option Stmt → Option QueryResult → View → Prop
  | .register .., _, some (.selectExists _), some (.done (some (_ :: _))), v =>
    v.progress = .settled (.error 409 "user already exists")
  | .register .., _, some (.insert ..), some (.done _), v =>
    v.progress = .settled (.message 200 "register success")
  | .register .., p, some (.insert ..), some .failed, v =>
    v.progress = p ∨ v.progress = .settled (.message 200 "register success")
  | .login _ _ username password, p, _, some (.done (some (row :: _))), v =>
    v.users username = some row ∧ 0 ∉ row ∧
      v.progress = if row = password then p else .settled (.error 401 "wrong password")
  | .login .., _, _, some (.done (some [])), v => v.progress = .settled (.error 401 "user not found")
  | .login .., _, _, some (.done none), _ => False
  | _, p, _, _, v => v.progress = p

/-- **The specification of the calls of a task**, by what they decide. -/
def deed (t : Task) : Spec Call Call.Res View where
  pre v
    | .redisCommand _ cmd => t.commands v cmd
    | .mysqlQuery _ sql => t.queries v.progress (parseSql sql)
    | .generateToken => v.progress = .fresh ∧ ∃ fd keepAlive u p, t = .login fd keepAlive u p
    | .send statusCode body => v.progress.CanSend ⟨statusCode, body⟩
    | _ => True
  post v o r v' := (∀ u p, v.users u = some p → v'.users u = some p) ∧
    match o, r with
    | .redisCommand _ cmd, r => t.commanded v.progress cmd r v'
    | .mysqlQuery _ sql, r => t.queried v.progress (parseSql sql) r v'
    | .generateToken, some token => 0 ∉ token ∧ v'.progress = .holding token
    | .send .., r => r ≠ none ∧ v'.progress = .answered
    | .mysqlRelease _, r => r ≠ none ∧ v'.progress = v.progress
    | _, _ => v'.progress = v.progress

theorem commands_mono {t : Task} {v v' : View} (hv : v ≤ v') {cmd : RedisCommand}
    (h : t.commands v cmd) : t.commands v' cmd := by
  unfold commands at h
  rw [hv.2] at h
  split at h
  · exact h
  · refine h.imp_right ?_
    rintro ⟨token, hp, hkey, hvalue, huser⟩
    exact ⟨token, hp, hkey, hvalue, hv.1 _ _ huser⟩
  · exact h
  · exact h
  · exact absurd h id

/-- What a worker knows of an answer does not go away. -/
theorem commanded_mono {t : Task} {p : Progress} {cmd : RedisCommand} {r : Option (Option RedisReply)}
    {v v' : View} (hv : v ≤ v') (h : t.commanded p cmd r v) : t.commanded p cmd r v' := by
  unfold commanded at h
  split at h
  · exact ⟨hv.1 _ _ h.1, hv.2.symm.trans h.2⟩
  all_goals
    rw [hv.2] at h
    first
    | exact h
    | simpa only [commanded] using h

theorem deed_stable (t : Task) : t.deed.Stable where
  pre {v v' o} hv h := by
    cases o with
    | redisCommand conn cmd => exact commands_mono hv h
    | mysqlQuery conn sql =>
      show t.queries v'.progress _
      rw [← hv.2]
      exact h
    | generateToken => exact ⟨hv.2.symm.trans h.1, h.2⟩
    | send statusCode body =>
      show v'.progress.CanSend _
      rw [← hv.2]
      exact h
    | _ => trivial
  post {v v' v'' o r} hv h := by
    refine ⟨fun u p hu ↦ h.1 u p (hv.1 u p hu), ?_⟩
    rw [hv.2]
    exact h.2

end Task

/-! ## The tasks keep to it -/

section Rules

variable {t : Task} {v : View}

/-- The rule for a lease. -/
theorem deed_lease {o : Call} (ho : o.isLease = true) {Q : View → Option o.Res → Prop}
    (hQ : ∀ v' r, v ≤ v' → Q v' r) : wp t.deed (perform o) Q v := by
  refine wp_perform ?_ fun v' r hr ↦ hQ v' r ?_
  · cases o <;> trivial
  · cases o with
    | mysqlRelease conn => exact ⟨hr.1, hr.2.2.symm⟩
    | redisGetConn => exact ⟨hr.1, hr.2.symm⟩
    | redisRelease conn => exact ⟨hr.1, hr.2.symm⟩
    | redisDiscard conn => exact ⟨hr.1, hr.2.symm⟩
    | mysqlGetConn => exact ⟨hr.1, hr.2.symm⟩
    | _ => exact absurd ho (by simp [Call.isLease])

/-- A command that is not answered. -/
theorem commanded_get_lost {p : Progress} {key : Bytes} {r : Option (Option RedisReply)} {v' : View}
    (hr : ∀ reply, r ≠ some (some reply)) (h : t.commanded p (.get key) r v') : v'.progress = p := by
  rcases r with _ | _ | reply
  · cases t <;> exact h
  · cases t <;> exact h
  · exact absurd rfl (hr reply)

/-- What `RedisPool::get` returns for a reply. -/
def RedisReply.value : RedisReply → Bytes × RedisStatus
  | .string value => (value, .Ok)
  | _ => ([], .NotFound)

theorem deed_redisGet {key : Bytes} {Q : View → Option (Bytes × RedisStatus) → Prop}
    (hcmd : t.commands v (.get (cstr key)))
    (hfail : ∀ v', v ≤ v' → Q v' none ∧ Q v' (some ([], .Error)))
    (hreply : ∀ v' reply, t.commanded v.progress (.get (cstr key)) (some (some reply)) v' →
      Q v' none ∧ Q v' (some reply.value)) : wp t.deed (redisGet key) Q v := by
  refine wp_bind (deed_lease rfl fun v₁ r h₁ ↦ ?_)
  rcases r with _ | _ | conn
  · exact (hfail v₁ h₁).1
  · exact (hfail v₁ h₁).2
  refine wp_bind (wp_perform (t.commands_mono h₁ hcmd) fun v₂ r hr ↦ ?_)
  obtain ⟨husers, hr⟩ : _ ∧ t.commanded v₁.progress (.get (cstr key)) r v₂ := hr
  rw [← h₁.2] at hr
  have hlater : v₂.progress = v.progress → v ≤ v₂ :=
    fun hp ↦ ⟨fun u p hu ↦ husers u p (h₁.1 u p hu), hp.symm⟩
  rcases r with _ | _ | reply
  · exact (hfail v₂ (hlater (commanded_get_lost (by simp) hr))).1
  · have h₂ := hlater (commanded_get_lost (by simp) hr)
    refine wp_bind (deed_lease rfl fun v₃ r h₃ ↦ ?_)
    cases r with
    | none => exact (hfail v₃ (h₂.trans h₃)).1
    | some _ => exact (hfail v₃ (h₂.trans h₃)).2
  · have hQ : ∀ v₃, v₂ ≤ v₃ → Q v₃ none ∧ Q v₃ (some reply.value) :=
      fun v₃ h₃ ↦ hreply v₃ reply (t.commanded_mono h₃ hr)
    cases reply
    all_goals
      refine wp_bind (deed_lease rfl fun v₃ r h₃ ↦ ?_)
      cases r with
      | none => exact (hQ v₃ h₃).1
      | some _ => exact (hQ v₃ h₃).2

theorem deed_send {statusCode : ℕ} {body : Bytes} (h : v.progress.CanSend ⟨statusCode, body⟩)
    {Q : View → Option PUnit → Prop} (hQ : ∀ v', v'.progress = .answered → Q v' (some ⟨⟩)) :
    wp t.deed (perform (.send statusCode body)) Q v := by
  refine wp_perform h fun v' r ⟨_, hr, hp⟩ ↦ ?_
  cases r with
  | none => exact absurd rfl hr
  | some _ => exact hQ v' hp

/-- A block with a `MysqlGuard` in it.  Its destructor does not throw. -/
theorem deed_withGuard {α : Type} {body : Option ℕ → Job α} {Q : View → Option α → Prop}
    (hthrow : ∀ v', v ≤ v' → Q v' none)
    (hbody : ∀ v' conn, v ≤ v' → wp t.deed (body conn) (fun v₁ r ↦ ∀ v₂, v₁ ≤ v₂ → Q v₂ r) v') :
    wp t.deed (withGuard body) Q v := by
  refine wp_bind (deed_lease rfl fun v₁ r h₁ ↦ ?_)
  cases r with
  | none => exact hthrow v₁ h₁
  | some conn =>
    refine wp_protect (wp_imp (hbody v₁ conn h₁) fun v₂ r h ↦ ?_)
    cases conn with
    | none => exact h v₂ le_rfl
    | some conn =>
      refine wp_perform trivial fun v₃ r' ⟨husers, hr', hp⟩ ↦ ?_
      cases r' with
      | none => exact absurd rfl hr'
      | some _ => exact h v₃ ⟨husers, hp.symm⟩

/-- When the work is done: it has answered, or it has thrown before it has. -/
def Told (v : View) (r : Option PUnit) : Prop := v.progress = .answered ↔ r ≠ none

theorem told_none (h : v.progress ≠ .answered) : Told v none := by
  simp [Told, h]

theorem told_some (h : v.progress = .answered) : Told v (some ⟨⟩) := by
  simp [Told, h]

theorem Told.mono {v v' : View} {r : Option PUnit} (h : Told v r) (hv : v ≤ v') : Told v' r := by
  rw [Told, ← hv.2]
  exact h

theorem deed_sendFailure {statusCode : ℕ} {message : String}
    (h : .error statusCode message ∈ Result.failures) (hp : v.progress ≠ .answered)
    {Q : View → Option PUnit → Prop} (hQ : ∀ v', v'.progress = .answered → Q v' (some ⟨⟩)) :
    wp t.deed (sendError statusCode message) Q v :=
  deed_send (Progress.canSend_failure hp h) hQ

theorem deed_runDbTask {work : Job PUnit} (h : wp t.deed work Told v) :
    wp t.deed (runDbTask work) (fun v _ ↦ v.progress = .answered) v := by
  refine wp_handle (wp_imp h fun v' r hr ↦ ?_)
  cases r with
  | none => exact deed_sendFailure (by decide) (by simpa [Told] using hr) fun _ hp ↦ hp
  | some _ => exact hr.mpr (by simp)

end Rules

theorem registerWork_meets_deed (fd : ℕ) (keepAlive : Bool) (username password : Bytes) {v : View}
    (hv : v.progress = .fresh) :
    wp (Task.register fd keepAlive username password).deed (registerWork username password) Told v := by
  refine deed_withGuard (fun v' h ↦ told_none (by simp [← h.2, hv])) fun v₁ conn h₁ ↦ ?_
  rw [h₁.2] at hv
  refine wp_imp (Q := Told) ?_ fun v₂ r h v₃ h₃ ↦ h.mono h₃
  cases conn with
  | none => exact deed_sendFailure (by decide) (by simp [hv]) fun _ ↦ told_some
  | some conn =>
    refine wp_bind (wp_perform ?_ fun v₂ r ⟨_, hr⟩ ↦ ?_)
    · show Task.queries _ _ (parseSql _)
      rw [parseSql_cstr_selectExists]
      exact ⟨hv, rfl⟩
    change Task.queried _ _ (parseSql _) r v₂ at hr
    rw [parseSql_cstr_selectExists, hv] at hr
    rcases r with _ | _ | _ | (_ | _)
    case none => exact told_none (by simp [show v₂.progress = _ from hr])
    case some.failed =>
      exact deed_sendFailure (by decide) (by simp [show v₂.progress = _ from hr]) fun _ ↦ told_some
    case some.done.some.cons =>
      refine deed_send ?_ fun _ ↦ told_some
      rw [show v₂.progress = _ from hr]
      exact .inl rfl
    case some.done.none | some.done.some.nil =>
      -- the name seems to be free
      have hfresh : v₂.progress = .fresh := hr
      refine wp_bind (wp_perform ?_ fun v₃ r ⟨_, hr⟩ ↦ ?_)
      · show Task.queries _ _ (parseSql _)
        rw [parseSql_cstr_insert]
        exact ⟨hfresh, rfl, rfl⟩
      change Task.queried _ _ (parseSql _) r v₃ at hr
      rw [parseSql_cstr_insert, hfresh] at hr
      rcases r with _ | _ | _
      · exact told_none (by simp [show v₃.progress = _ from hr])
      · refine deed_sendFailure (by decide) ?_ fun _ ↦ told_some
        rcases hr with hp | hp <;> simp [hp]
      · refine deed_send ?_ fun _ ↦ told_some
        rw [show v₃.progress = _ from hr]
        exact .inl rfl

theorem profileWork_meets_deed (fd : ℕ) (keepAlive : Bool) {token : Bytes} (hexact : 0 ∉ token)
    {v : View} (hv : v.progress = .fresh) :
    wp (Task.profile fd keepAlive token).deed (profileWork token) Told v := by
  refine wp_bind (deed_redisGet ⟨hv, cstr_key (by decide) hexact⟩ (fun v' h ↦ ?_) fun v' reply h ↦ ?_)
  · rw [h.2] at hv
    refine ⟨told_none (by simp [hv]), ?_⟩
    exact deed_sendFailure (by decide) (by simp [hv]) fun _ ↦ told_some
  · cases reply with
    | string value =>
      obtain ⟨hvalue, hp⟩ := h
      refine ⟨told_none (by simp [hp]), ?_⟩
      show wp _ (if _ then _ else if _ then _ else _) _ _
      rw [if_neg (by simp), if_neg (by simp [hvalue])]
      refine deed_send ?_ fun _ ↦ told_some
      rw [hp]
      exact .inl rfl
    | _ =>
      have hp : v'.progress = _ := h
      refine ⟨told_none (by simp [hp]), ?_⟩
      refine deed_send ?_ fun _ ↦ told_some
      rw [hp]
      exact .inl rfl

/-- `RedisPool::del`, of a session. -/
theorem deed_redisDel {fd : ℕ} {keepAlive : Bool} {token key : Bytes} {v : View}
    {Q : View → Option RedisStatus → Prop} (hv : v.progress = .fresh)
    (hkey : cstr key = lit "session:" ++ token)
    (hfail : ∀ v', v'.progress ≠ .answered → Q v' none ∧ Q v' (some .Error))
    (hok : ∀ v', v'.progress = .settled (.message 200 "logout success") → Q v' (some .Ok))
    (hmiss : ∀ v', v'.progress = .settled (.error 401 "invalid or expired token") →
      Q v' (some .NotFound)) :
    wp (Task.logout fd keepAlive token).deed (redisDel key) Q v := by
  refine wp_bind (deed_lease rfl fun v₁ r h₁ ↦ ?_)
  rw [h₁.2] at hv
  rcases r with _ | _ | conn
  · exact (hfail v₁ (by simp [hv])).1
  · exact (hfail v₁ (by simp [hv])).2
  refine wp_bind (wp_perform ⟨hv, hkey⟩ fun v₂ r ⟨_, hr⟩ ↦ ?_)
  rw [hv] at hr
  rcases r with _ | _ | reply
  · exact (hfail v₂ (by simp [show v₂.progress = _ from hr])).1
  · have hp : v₂.progress ≠ .answered := by rcases hr with hp | hp <;> simp [hp]
    refine wp_bind (deed_lease rfl fun v₃ r h₃ ↦ ?_)
    rw [h₃.2] at hp
    cases r with
    | none => exact (hfail v₃ hp).1
    | some _ => exact (hfail v₃ hp).2
  · rcases reply with _ | _ | (_ | _) | _ | _
    all_goals
      have hp : v₂.progress = .settled _ := hr
      refine wp_bind (deed_lease rfl fun v₃ r h₃ ↦ ?_)
      rw [h₃.2] at hp
      cases r with
      | none => exact (hfail v₃ (by simp [hp])).1
      | some _ => first | exact hok v₃ hp | exact hmiss v₃ hp

theorem logoutWork_meets_deed (fd : ℕ) (keepAlive : Bool) {token : Bytes} (hexact : 0 ∉ token)
    {v : View} (hv : v.progress = .fresh) :
    wp (Task.logout fd keepAlive token).deed (logoutWork token) Told v := by
  refine wp_bind (deed_redisDel hv (cstr_key (by decide) hexact) (fun v' hp ↦ ?_) (fun v' hp ↦ ?_)
    fun v' hp ↦ ?_)
  · exact ⟨told_none hp, deed_sendFailure (by decide) hp fun _ ↦ told_some⟩
  · refine deed_send ?_ fun _ ↦ told_some
    rw [hp]
    exact .inl rfl
  · refine deed_send ?_ fun _ ↦ told_some
    rw [hp]
    exact .inl rfl

section Login

variable {fd : ℕ} {keepAlive : Bool} {username password : Bytes} {v : View}

/-- `RedisPool::setex`, of a password or of a session. -/
theorem deed_redisSetex {key value : Bytes} {ttl : ℕ} {Q : View → Option Bool → Prop}
    (hcmd : (Task.login fd keepAlive username password).commands v (.setex (cstr key) ttl (cstr value)))
    (hsame : ∀ v' r, v ≤ v' → ((∀ token, v.progress ≠ .holding token) ∨ r ≠ some true) → Q v' r)
    (hopen : ∀ v' r token, v.progress = .holding token →
      v'.progress = .settled ⟨200, loginJson token⟩ → Q v' r) :
    wp (Task.login fd keepAlive username password).deed (redisSetex key ttl value) Q v := by
  refine wp_bind (deed_lease rfl fun v₁ r h₁ ↦ ?_)
  rcases r with _ | _ | conn
  · exact hsame v₁ _ h₁ (.inr (by simp))
  · exact hsame v₁ _ h₁ (.inr (by simp))
  refine wp_bind (wp_perform (Task.commands_mono h₁ hcmd) fun v₂ r ⟨husers, hr⟩ ↦ ?_)
  rw [← h₁.2] at hr
  -- what remains is to give the connection back, which changes nothing
  have hQ : ∀ v₃, v₂ ≤ v₃ → ∀ r', (r' = some true → ∃ reply, r = some (some reply) ∧ reply ≠ .error) →
      Q v₃ r' := by
    intro v₃ h₃ r' hr'
    rcases hr with ⟨hp, hfail⟩ | ⟨token, hholding, hp⟩
    · refine hsame v₃ r' (h₁.trans ⟨fun u p hu ↦ h₃.1 u p (husers u p hu), ?_⟩) ?_
      · rw [← h₁.2, ← h₃.2, hp]
      · refine hfail.imp_right fun hfail htrue ↦ ?_
        obtain ⟨reply, hreply, hne⟩ := hr' htrue
        exact hne (hfail reply hreply)
    · exact hopen v₃ r' token hholding (by rw [← h₃.2, hp])
  rcases r with _ | _ | reply
  · exact hQ v₂ le_rfl _ (by simp)
  · refine wp_bind (deed_lease rfl fun v₃ r h₃ ↦ ?_)
    cases r with
    | none => exact hQ v₃ h₃ _ (by simp)
    | some _ => exact hQ v₃ h₃ _ (by simp)
  · refine wp_bind (deed_lease rfl fun v₃ r h₃ ↦ ?_)
    cases r with
    | none => exact hQ v₃ h₃ _ (by simp)
    | some _ => exact hQ v₃ h₃ _ fun htrue ↦ ⟨reply, rfl, by simpa using htrue⟩

/-- What a login knows once the password has been looked up. -/
def Lookup.Known (username password : Bytes) (v : View) : Option Lookup → Prop
  | none => v.progress ≠ .answered
  | some .answered => v.progress = .answered
  | some .notFound => v.progress = .settled (.error 401 "user not found")
  | some (.found dbPassword) =>
    (password = dbPassword ∧ v.progress = .fresh ∧ v.users username = some password) ∨
      password ≠ dbPassword ∧ v.progress = .settled (.error 401 "wrong password")

theorem Lookup.Known.mono {v v' : View} {l : Option Lookup} (h : Lookup.Known username password v l)
    (hv : v ≤ v') : Lookup.Known username password v' l := by
  rcases l with _ | _ | _ | dbPassword
  · exact fun hp ↦ h (hv.2.trans hp)
  · exact hv.2.symm.trans h
  · exact hv.2.symm.trans h
  · rcases h with ⟨rfl, hp, huser⟩ | ⟨hne, hp⟩
    · exact .inl ⟨rfl, hv.2.symm.trans hp, hv.1 _ _ huser⟩
    · exact .inr ⟨hne, hv.2.symm.trans hp⟩

theorem mysqlLookup_meets_deed (hexact : 0 ∉ username) (hv : v.progress = .fresh) :
    wp (Task.login fd keepAlive username password).deed (mysqlLookup username)
      (Lookup.Known username password) v := by
  refine deed_withGuard (fun v' h ↦ show v'.progress ≠ .answered by simp [← h.2, hv])
    fun v₁ conn h₁ ↦ ?_
  rw [h₁.2] at hv
  refine wp_imp (Q := Lookup.Known username password) ?_ fun v₂ r h v₃ h₃ ↦ h.mono h₃
  cases conn with
  | none => exact wp_bind (deed_sendFailure (by decide) (by simp [hv]) fun _ hp ↦ hp)
  | some conn =>
    refine wp_bind (wp_perform ?_ fun v₂ r ⟨_, hr⟩ ↦ ?_)
    · show Task.queries _ _ (parseSql _)
      rw [parseSql_cstr_selectPassword]
      exact ⟨hv, rfl⟩
    change Task.queried _ _ (parseSql _) r v₂ at hr
    rw [parseSql_cstr_selectPassword, hv] at hr
    rcases r with _ | _ | _ | (_ | ⟨row, rows⟩)
    · show v₂.progress ≠ .answered
      simp [show v₂.progress = _ from hr]
    · refine wp_bind (deed_sendFailure (by decide) ?_ fun _ hp ↦ hp)
      simp [show v₂.progress = _ from hr]
    · exact absurd hr id
    · exact hr
    · -- a row: what becomes of the cache entry does not matter
      obtain ⟨huser, hnul, hp⟩ := hr
      rw [← cstr_eq_self hnul] at huser hp
      have hknown : Lookup.Known username password v₂ (some (.found (cstr row))) := by
        by_cases hpassword : cstr row = password
        · rw [if_pos hpassword] at hp
          exact .inl ⟨hpassword.symm, hp, hpassword ▸ huser⟩
        · rw [if_neg hpassword] at hp
          exact .inr ⟨Ne.symm hpassword, hp⟩
      have hholding : ∀ token, v₂.progress ≠ .holding token := by
        intro token
        rw [hp]
        split <;> simp
      refine wp_bind (deed_redisSetex (.inl ⟨hholding, username, cstr_key (by decide) hexact⟩)
        (fun v₃ r h₃ _ ↦ ?_) fun v₃ r token h _ ↦ absurd h (hholding token))
      cases r with
      | none =>
        show v₃.progress ≠ .answered
        rw [← h₃.2, hp]
        split <;> simp
      | some _ => exact hknown.mono h₃

theorem lookupPassword_meets_deed (hexact : 0 ∉ username) (hv : v.progress = .fresh) :
    wp (Task.login fd keepAlive username password).deed (lookupPassword username)
      (Lookup.Known username password) v := by
  refine wp_bind (deed_redisGet ⟨hv, cstr_key (by decide) hexact⟩ (fun v' h ↦ ?_) fun v' reply h ↦ ?_)
  · rw [h.2] at hv
    exact ⟨show v'.progress ≠ .answered by simp [hv], mysqlLookup_meets_deed hexact hv⟩
  · rw [hv] at h
    cases reply with
    | string value =>
      obtain ⟨huser, hp⟩ := h
      refine ⟨?_, ?_⟩
      · show v'.progress ≠ .answered
        rw [hp]
        split <;> simp
      show wp _ (if .Ok = RedisStatus.Ok ∧ value ≠ [] then pure (.found value)
        else mysqlLookup username) _ v'
      by_cases hvalue : value = []
      · rw [if_neg (by simp [hvalue])]
        rw [if_pos (.inl hvalue)] at hp
        exact mysqlLookup_meets_deed hexact hp
      · rw [if_pos ⟨rfl, hvalue⟩]
        by_cases hpassword : value = password
        · rw [if_pos (.inr hpassword)] at hp
          exact .inl ⟨hpassword.symm, hp, hpassword ▸ huser⟩
        · rw [if_neg (by simp [hvalue, hpassword])] at hp
          exact .inr ⟨Ne.symm hpassword, hp⟩
    | _ =>
      have hp : v'.progress = .fresh := h
      exact ⟨show v'.progress ≠ .answered by simp [hp], mysqlLookup_meets_deed hexact hp⟩

theorem openSession_meets_deed (hexact : 0 ∉ username) (hv : v.progress = .fresh)
    (huser : v.users username = some password) :
    wp (Task.login fd keepAlive username password).deed (openSession username) Told v := by
  refine wp_bind (wp_perform ⟨hv, _, _, _, _, rfl⟩ fun v₁ r ⟨husers, hr⟩ ↦ ?_)
  cases r with
  | none => exact told_none (by simp [show v₁.progress = _ from hr, hv])
  | some token =>
    obtain ⟨hnul, hp⟩ := hr
    have hcmd : (Task.login fd keepAlive username password).commands v₁
        (.setex (cstr (lit "session:" ++ token)) kSessionTtlSec (cstr username)) :=
      .inr ⟨token, hp, cstr_key (by decide) hnul, cstr_eq_self hexact, husers _ _ huser⟩
    refine wp_bind (deed_redisSetex hcmd (fun v₂ r h₂ hr ↦ ?_) fun v₂ r token' h h₂ ↦ ?_)
    · have hfail : r ≠ some true := hr.resolve_left fun h ↦ h token hp
      have hp₂ : v₂.progress ≠ .answered := by simp [← h₂.2, hp]
      rcases r with _ | _ | _
      · exact told_none hp₂
      · exact deed_sendFailure (by decide) hp₂ fun _ ↦ told_some
      · exact absurd rfl hfail
    · obtain rfl : token = token' := by simpa [hp] using h
      rcases r with _ | _ | _
      · exact told_none (by simp [h₂])
      · exact deed_sendFailure (by decide) (by simp [h₂]) fun _ ↦ told_some
      · refine deed_send ?_ fun _ ↦ told_some
        rw [h₂]
        exact .inl rfl

theorem loginWork_meets_deed (hexact : 0 ∉ username) (hv : v.progress = .fresh) :
    wp (Task.login fd keepAlive username password).deed (loginWork username password) Told v := by
  refine wp_bind (wp_imp (lookupPassword_meets_deed hexact hv) fun v₁ r hr ↦ ?_)
  rcases r with _ | _ | _ | dbPassword
  · exact told_none hr
  · exact told_some hr
  · refine deed_send ?_ fun _ ↦ told_some
    rw [show v₁.progress = _ from hr]
    exact .inl rfl
  · show wp _ (if password ≠ dbPassword then _ else _) _ _
    rcases hr with ⟨rfl, hp, huser⟩ | ⟨hne, hp⟩
    · rw [if_neg (by simp)]
      exact openSession_meets_deed hexact hp huser
    · rw [if_pos hne]
      refine deed_send ?_ fun _ ↦ told_some
      rw [hp]
      exact .inl rfl

end Login

/-- **A task answers with what has been decided.** -/
theorem work_meets_deed {t : Task} (h : t.Exact) {v : View} (hv : v.progress = .fresh) :
    wp t.deed t.work (fun v _ ↦ v.progress = .answered) v := by
  cases t with
  | register fd keepAlive username password =>
    exact deed_runDbTask (registerWork_meets_deed fd keepAlive username password hv)
  | login fd keepAlive username password => exact deed_runDbTask (loginWork_meets_deed h.1 hv)
  | profile fd keepAlive token => exact deed_runDbTask (profileWork_meets_deed fd keepAlive h hv)
  | logout fd keepAlive token => exact deed_runDbTask (logoutWork_meets_deed fd keepAlive h hv)

end ReactorServer
