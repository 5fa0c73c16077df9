import ReactorServer.Db.Store
import ReactorServer.Db.Rules
import ReactorServer.Connection.Process

/-!
# Who a token belongs to

The database pool at work: tasks are taken up at any time, their calls are interleaved in any order
and come out in any way the stores allow, and Redis may drop an entry whenever it likes.  The
question is whether a profile that is handed out for a token is the profile of the user who logged
in for it, on the password the users table holds (`Auth.Sound`).

A user's identity goes through the JSON body, an SQL literal, a Redis key, a Redis value and a JSON
reply.  The two JSON ends and the SQL literal are safe for any bytes.  Redis is not: keys and values
reach it through `%s`, so it sees a name only up to its first NUL, and `dbPassword = row[0]` cuts a
password in the same way.  Where neither can happen (`Task.Clean`) the answer is yes
(`auth_sound`), and `auth_unsound` is what happens otherwise.

The proof is by a rely-guarantee argument.  A `World` is what every thread may rely on for ever: the
rows of the users table and the tokens that have been issued, neither of which go away.  `Task.spec`
says what each call of a task owes to the others and gets from them.  That a task keeps to it is a
matter of its own text (`work_meets_spec`), and that the stores do is `Store.exec_spec`.
-/

set_option autoImplicit false

namespace ReactorServer

open Program

/-! ## The pool at work -/

/-- A task a worker has taken up, and what it still has to do. -/
structure Worker where
  task : Task
  rest : Job PUnit

/-- A token that has been drawn for a login, with what that login submitted. -/
structure Issue where
  token : Bytes
  username : Bytes
  password : Bytes
  deriving DecidableEq, Repr

/-- A response of a task. -/
structure Answer where
  task : Task
  statusCode : ℕ
  body : Bytes
  deriving DecidableEq, Repr

/-- The stores, the tasks that have been taken up, and what has come of them so far. -/
structure Auth where
  store : Store
  running : List Worker
  issued : List Issue
  answers : List Answer

/-- What can happen. -/
inductive Move where
  /-- A worker takes up a task. -/
  | start (t : Task)
  /-- The call that worker `i` is about to make is made, and comes out like this. -/
  | call (i : ℕ) (out : Outcome)
  /-- A Redis entry expires. -/
  | expire (key : Bytes)
  deriving DecidableEq, Repr

/-- The tokens issued when a call of a task is answered. -/
def Task.issues : Task → (o : Call) → Option o.Res → List Issue
  | .login _ _ username password, .generateToken, some token => [⟨token, username, password⟩]
  | _, _, _ => []

/-- The answers given by a call of a task. -/
def Task.answers (t : Task) : Call → List Answer
  | .send statusCode body => [⟨t, statusCode, body⟩]
  | _ => []

namespace Auth

/-- A server that has just been set up. -/
def start : Auth := ⟨.empty, [], [], []⟩

/-- One move.  A call cannot come out in a way the stores do not allow. -/
def step (s : Auth) : Move → Auth
  | .start t => { s with running := s.running ++ [⟨t, t.work⟩] }
  | .call i out =>
    match s.running[i]? with
    | some ⟨t, .call o next⟩ =>
      match s.store.exec o out with
      | some (store, r) =>
        { store := store, running := s.running.set i ⟨t, next r⟩,
          issued := s.issued ++ t.issues o r, answers := s.answers ++ t.answers o }
      | none => s
    | _ => s
  | .expire key => { s with store := { s.store with
      redis := Function.update s.store.redis key none } }

/-- Some moves, one after another. -/
def run (s : Auth) (ms : List Move) : Auth := ms.foldl step s

end Auth

/-! ## Soundness -/

/-- What nobody takes back: rows of the users table, and issued tokens. -/
structure World where
  users : Bytes → Option Bytes
  issued : List Issue

namespace World

instance : Preorder World where
  le w w' := (∀ u p, w.users u = some p → w'.users u = some p) ∧ w.issued ⊆ w'.issued
  le_refl w := ⟨fun _ _ h ↦ h, fun _ h ↦ h⟩
  le_trans _ _ _ h h' := ⟨fun u p hu ↦ h'.1 u p (h.1 u p hu), fun _ hi ↦ h'.2 (h.2 hi)⟩

/-- The token was issued to a login of this user, on the user's password. -/
def Owns (w : World) (username token : Bytes) : Prop :=
  ∃ password, ⟨token, username, password⟩ ∈ w.issued ∧ w.users username = some password

theorem Owns.mono {w w' : World} {username token : Bytes} (h : w.Owns username token)
    (hw : w ≤ w') : w'.Owns username token := by
  obtain ⟨password, hi, hu⟩ := h
  exact ⟨password, hw.2 hi, hw.1 _ _ hu⟩

end World

/-- If this is a profile, it goes to its owner. -/
def Answer.Sound (a : Answer) (w : World) : Prop :=
  ∀ fd keepAlive token username, a = ⟨.profile fd keepAlive token, 200, profileJson username⟩ →
    w.Owns username token

namespace Auth

/-- The world of a state. -/
def world (s : Auth) : World := ⟨s.store.users, s.issued⟩

/-- **Authentication is sound so far**: whenever `/profile` has answered 200 with a username for a
token, the token was issued to a login that submitted exactly that username, and the password the
users table holds for it. -/
def Sound (s : Auth) : Prop := ∀ a ∈ s.answers, a.Sound s.world

end Auth

/-- No byte string of a task is one that `c_str()` would cut short where it matters. -/
def Task.Clean : Task → Prop
  | .register _ _ _ password => 0 ∉ password
  | .login _ _ username _ => 0 ∉ username
  | .profile _ _ token => 0 ∉ token
  | .logout .. => True

instance : ∀ t : Task, Decidable t.Clean
  | .register _ _ _ password => inferInstanceAs (Decidable (0 ∉ password))
  | .login _ _ username _ => inferInstanceAs (Decidable (0 ∉ username))
  | .profile _ _ token => inferInstanceAs (Decidable (0 ∉ token))
  | .logout .. => inferInstanceAs (Decidable True)

/-- The condition on a move: the task is clean. -/
def Move.Clean : Move → Prop
  | .start t => t.Clean
  | _ => True

instance : ∀ m : Move, Decidable m.Clean
  | .start t => inferInstanceAs (Decidable t.Clean)
  | .call .. => inferInstanceAs (Decidable True)
  | .expire _ => inferInstanceAs (Decidable True)

/-! ## What the calls owe to each other -/

/-- What a Redis entry may be: the password of a user, or the owner of a token. -/
def World.Entry (w : World) (key value : Bytes) : Prop :=
  (∃ username, key = lit "user:" ++ username ∧ w.users username = some value) ∨
    ∃ token, key = lit "session:" ++ token ∧ w.Owns value token

theorem World.Entry.mono {w w' : World} {key value : Bytes} (h : w.Entry key value)
    (hw : w ≤ w') : w'.Entry key value := by
  rcases h with ⟨username, hk, hu⟩ | ⟨token, hk, ho⟩
  · exact .inl ⟨username, hk, hw.1 _ _ hu⟩
  · exact .inr ⟨token, hk, ho.mono hw⟩

/-- A key passes through `c_str()` when what it is made of does. -/
theorem cstr_key {pre s : Bytes} (hpre : 0 ∉ pre) (hs : 0 ∉ s) : cstr (pre ++ s) = pre ++ s := by
  rw [cstr_append hpre, cstr_eq_self hs]

theorem lit_user_ne_session (s t : Bytes) : lit "user:" ++ s ≠ lit "session:" ++ t := by
  rw [show lit "user:" = 117 :: lit "ser:" from by decide,
    show lit "session:" = 115 :: lit "ession:" from by decide]
  simp

theorem World.Entry.user {w : World} {username value : Bytes}
    (h : w.Entry (lit "user:" ++ username) value) : w.users username = some value := by
  rcases h with ⟨u, hk, hu⟩ | ⟨token, hk, -⟩
  · rwa [List.append_cancel_left hk]
  · exact absurd hk (lit_user_ne_session _ _)

theorem World.Entry.session {w : World} {token value : Bytes}
    (h : w.Entry (lit "session:" ++ token) value) : w.Owns value token := by
  rcases h with ⟨u, hk, -⟩ | ⟨t, hk, ho⟩
  · exact absurd hk.symm (lit_user_ne_session _ _)
  · rwa [List.append_cancel_left hk]

/-- What must be true when a task makes a call. -/
def Task.pre (t : Task) (w : World) : Call → Prop
  | .redisCommand _ (.setex key _ value) => w.Entry key value
  | .mysqlQuery _ sql => ∀ u p, parseSql sql = some (.insert u p) → 0 ∉ p
  | .generateToken =>
    ∀ token, ∀ i ∈ t.issues .generateToken (some token), w.users i.username = some i.password
  | .send statusCode body => Answer.Sound ⟨t, statusCode, body⟩ w
  | _ => True

/-- What is true when a call of a task has been answered. -/
def Task.post (t : Task) (w : World) : (o : Call) → Option o.Res → Prop
  | .redisCommand _ (.get key), some (some (.string value)) => w.Entry key value
  | .mysqlQuery _ sql, some (.done (some (row :: _))) =>
    ∀ u, parseSql sql = some (.selectPassword u) → w.users u = some row ∧ 0 ∉ row
  | .generateToken, some token =>
    0 ∉ token ∧ ∀ i ∈ t.issues .generateToken (some token), i ∈ w.issued
  | _, _ => True

/-- The specification of the calls of a task.  While a call is under way the others move on. -/
def Task.spec (t : Task) : Spec Call Call.Res World where
  pre := t.pre
  post w o r w' := w ≤ w' ∧ t.post w' o r

theorem Task.spec_stable (t : Task) : t.spec.Stable where
  pre := by
    intro w w' o hw h
    change t.pre w o at h
    show t.pre w' o
    unfold Task.pre at h ⊢
    split
    · exact World.Entry.mono h hw
    · exact h
    · exact fun token i hi ↦ hw.1 _ _ (h token i hi)
    · exact fun fd keepAlive token username e ↦ (h fd keepAlive token username e).mono hw
    · trivial
  post hw h := ⟨hw.trans h.1, h.2⟩

theorem Task.spec_lenient (t : Task) : Lenient t.spec where
  pre {_ o} ho := by cases o <;> trivial
  le h := h.1

/-! ## The tasks keep to it -/

section Rules

variable {t : Task} {w : World}

theorem auth_redisGet {key : Bytes} {Q : World → Option (Bytes × RedisStatus) → Prop}
    (hmiss : ∀ w' st, w ≤ w' → st ≠ .Ok → Q w' (some ([], st)))
    (hok : ∀ w' value, w ≤ w' → w'.Entry (cstr key) value → Q w' (some (value, .Ok)))
    (hthrow : ∀ w', w ≤ w' → Q w' none) : wp t.spec (redisGet key) Q w :=
  wp_redisGet t.spec_lenient (E := fun w v ↦ w.Entry (cstr key) v)
    (fun hle h ↦ World.Entry.mono h hle) (fun _ _ _ ↦ trivial) (fun _ hr ↦ hr.2) hmiss hok
    fun _ ↦ hthrow

theorem auth_redisSetex {key value : Bytes} {ttl : ℕ} {Q : World → Option Bool → Prop}
    (hentry : w.Entry (cstr key) (cstr value)) (hQ : ∀ w' r, w ≤ w' → Q w' r) :
    wp t.spec (redisSetex key ttl value) Q w :=
  wp_redisSetex t.spec_lenient (fun _ _ hw ↦ hentry.mono hw) fun w' r hw _ ↦ hQ w' r hw

theorem auth_redisDel {key : Bytes} {Q : World → Option RedisStatus → Prop}
    (hQ : ∀ w' r, w ≤ w' → Q w' r) : wp t.spec (redisDel key) Q w :=
  wp_redisDel t.spec_lenient (E := fun _ ↦ True) (fun _ _ ↦ trivial) (fun _ _ _ ↦ trivial)
    (fun _ _ ↦ trivial) fun w' r hw _ ↦ hQ w' r hw

theorem auth_withGuard {α : Type} {body : Option ℕ → Job α} {Q : World → Option α → Prop}
    (hthrow : ∀ w', w ≤ w' → Q w' none)
    (hbody : ∀ w' conn, w ≤ w' →
      wp t.spec (body conn) (fun w₁ r ↦ ∀ w₂, w₁ ≤ w₂ → Q w₂ none ∧ Q w₂ r) w') :
    wp t.spec (withGuard body) Q w := by
  refine wp_withGuard t.spec_lenient (fun _ ↦ hthrow) fun w₁ conn h₁ _ ↦ ?_
  exact wp_imp (hbody w₁ conn h₁) fun _ _ h w₂ hw ↦ ⟨fun _ ↦ (h w₂ hw).1, (h w₂ hw).2⟩

/-- An answer other than 200 says nothing about a profile. -/
theorem wp_sendError {statusCode : ℕ} (hcode : statusCode ≠ 200) (message : String)
    {Q : World → Option PUnit → Prop} (hQ : ∀ w' r, w ≤ w' → Q w' r) :
    wp t.spec (sendError statusCode message) Q w := by
  refine wp_perform ?_ fun w' r ⟨hw, _⟩ ↦ hQ w' r hw
  intro fd keepAlive token username e
  exact absurd (congrArg Answer.statusCode e) hcode

/-- Nor does an answer to anything but `/profile`. -/
theorem wp_send_of_ne (htask : ∀ fd keepAlive token, t ≠ .profile fd keepAlive token)
    {statusCode : ℕ} {body : Bytes} {Q : World → Option PUnit → Prop}
    (hQ : ∀ w' r, w ≤ w' → Q w' r) : wp t.spec (perform (.send statusCode body)) Q w := by
  refine wp_perform ?_ fun w' r ⟨hw, _⟩ ↦ hQ w' r hw
  intro fd keepAlive token username e
  exact absurd (congrArg Answer.task e) (htask fd keepAlive token)

theorem wp_runDbTask {work : Job PUnit} (h : wp t.spec work (fun _ _ ↦ True) w) :
    wp t.spec (runDbTask work) (fun _ _ ↦ True) w := by
  refine wp_handle (wp_imp h fun w' r _ ↦ ?_)
  cases r with
  | none => exact wp_sendError (by decide) _ fun _ _ _ ↦ trivial
  | some _ => trivial

end Rules

theorem registerWork_meets_spec (fd : ℕ) (keepAlive : Bool) (username : Bytes) {password : Bytes}
    (hclean : 0 ∉ password) (w : World) :
    wp (Task.register fd keepAlive username password).spec (registerWork username password)
      (fun _ _ ↦ True) w := by
  refine auth_withGuard (fun _ _ ↦ trivial) fun w₁ conn _ ↦ ?_
  refine wp_imp (Q := fun _ _ ↦ True) ?_ fun _ _ _ _ _ ↦ ⟨trivial, trivial⟩
  cases conn with
  | none => exact wp_sendError (by decide) _ fun _ _ _ ↦ trivial
  | some conn =>
    refine wp_bind (wp_perform ?_ fun w₂ r _ ↦ ?_)
    · -- the text that asks for the user is not an `INSERT`
      intro u p hp
      rw [parseSql_cstr_selectExists] at hp
      exact absurd hp (by simp)
    rcases r with _ | _ | _ | (_ | _)
    case none => trivial
    case some.failed => exact wp_sendError (by decide) _ fun _ _ _ ↦ trivial
    case some.done.some.cons => exact wp_sendError (by decide) _ fun _ _ _ ↦ trivial
    case some.done.none | some.done.some.nil =>
      refine wp_bind (wp_perform ?_ fun w₃ r _ ↦ ?_)
      · intro u p hp
        rw [parseSql_cstr_insert] at hp
        obtain ⟨-, rfl⟩ : username = u ∧ password = p := by simpa using hp
        exact hclean
      · rcases r with _ | _ | _
        · trivial
        · exact wp_sendError (by decide) _ fun _ _ _ ↦ trivial
        · exact wp_send_of_ne (by simp) fun _ _ _ ↦ trivial

section Login

variable {t : Task} {w : World} {username : Bytes}

/-- What the lookup of a password promises: a password that was found is the user's. -/
def Lookup.Sound (username : Bytes) (w : World) (l : Lookup) : Prop :=
  ∀ dbPassword, l = .found dbPassword → w.users username = some dbPassword

theorem wp_mysqlLookup (hclean : 0 ∉ username) :
    wp t.spec (mysqlLookup username) (fun w r ↦ ∀ l ∈ r, l.Sound username w) w := by
  refine auth_withGuard (fun _ _ ↦ by simp) fun w₁ conn _ ↦ ?_
  cases conn with
  | none =>
    refine wp_bind (wp_sendError (by decide) _ fun w₂ r _ ↦ ?_)
    cases r <;> intro w₃ _ <;> simp [Lookup.Sound]
  | some conn =>
    refine wp_bind (wp_perform ?_ fun w₂ r ⟨_, hr⟩ ↦ ?_)
    · intro u p hp
      rw [parseSql_cstr_selectPassword] at hp
      exact absurd hp (by simp)
    rcases r with _ | _ | _ | (_ | ⟨row, rows⟩)
    · intro w₃ _
      simp
    · refine wp_bind (wp_sendError (by decide) _ fun w₃ r _ ↦ ?_)
      cases r <;> intro w₄ _ <;> simp [Lookup.Sound]
    · intro w₃ _
      simp [Lookup.Sound]
    · intro w₃ _
      simp [Lookup.Sound]
    · -- a row: `cstr` leaves it alone, and so it does the cache entry
      obtain ⟨hrow, hnul⟩ := hr username (parseSql_cstr_selectPassword username)
      refine wp_bind (auth_redisSetex ?_ fun w₃ r h₃ ↦ ?_)
      · rw [cstr_key (by decide) hclean, cstr_eq_self hnul, cstr_eq_self hnul]
        exact .inl ⟨username, rfl, hrow⟩
      · cases r with
        | none =>
          intro w₄ _
          simp
        | some _ =>
          intro w₄ h₄
          refine ⟨by simp, ?_⟩
          rintro l ⟨⟩ dbPassword ⟨⟩
          rw [cstr_eq_self hnul]
          exact h₄.1 _ _ (h₃.1 _ _ hrow)

theorem wp_lookupPassword (hclean : 0 ∉ username) :
    wp t.spec (lookupPassword username) (fun w r ↦ ∀ l ∈ r, l.Sound username w) w := by
  refine wp_bind (auth_redisGet (fun w₁ st _ hst ↦ ?_) (fun w₁ value _ hentry ↦ ?_) fun w₁ _ ↦ ?_)
  · show wp t.spec (if st = .Ok ∧ [] ≠ [] then pure (.found []) else mysqlLookup username) _ w₁
    rw [if_neg (by simp)]
    exact wp_mysqlLookup hclean
  · show wp t.spec (if .Ok = RedisStatus.Ok ∧ value ≠ [] then pure (.found value)
      else mysqlLookup username) _ w₁
    by_cases hvalue : value = []
    · rw [if_neg (by simp [hvalue])]
      exact wp_mysqlLookup hclean
    · rw [if_pos ⟨rfl, hvalue⟩]
      rintro l ⟨⟩ dbPassword ⟨⟩
      rw [cstr_key (by decide) hclean] at hentry
      exact hentry.user
  · simp

end Login

theorem loginWork_meets_spec (fd : ℕ) (keepAlive : Bool) {username : Bytes} (password : Bytes)
    (hclean : 0 ∉ username) (w : World) :
    wp (Task.login fd keepAlive username password).spec (loginWork username password)
      (fun _ _ ↦ True) w := by
  refine wp_bind (wp_imp (wp_lookupPassword hclean) fun w₁ r hr ↦ ?_)
  rcases r with _ | _ | _ | dbPassword
  · trivial
  · trivial
  · exact wp_sendError (by decide) _ fun _ _ _ ↦ trivial
  have huser : w₁.users username = some dbPassword := hr _ rfl dbPassword rfl
  show wp _ (if password ≠ dbPassword then _ else _) _ _
  by_cases hpassword : password = dbPassword
  · subst hpassword
    rw [if_neg (by simp)]
    -- the password is right: a token is drawn, and becomes this user's
    refine wp_bind (wp_perform ?_ fun w₂ r ⟨h₂, hr⟩ ↦ ?_)
    · rintro token i hi
      rw [List.mem_singleton.mp hi]
      exact huser
    cases r with
    | none => trivial
    | some token =>
      obtain ⟨hnul, hissued⟩ := hr
      have howns : w₂.Owns username token :=
        ⟨password, hissued _ (List.mem_singleton.mpr rfl), h₂.1 _ _ huser⟩
      refine wp_bind (auth_redisSetex ?_ fun w₃ r _ ↦ ?_)
      · rw [cstr_key (by decide) hnul, cstr_eq_self hclean]
        exact .inr ⟨token, rfl, howns⟩
      · rcases r with _ | _ | _
        · trivial
        · exact wp_sendError (by decide) _ fun _ _ _ ↦ trivial
        · exact wp_send_of_ne (by simp) fun _ _ _ ↦ trivial
  · rw [if_pos hpassword]
    exact wp_sendError (by decide) _ fun _ _ _ ↦ trivial

theorem profileWork_meets_spec (fd : ℕ) (keepAlive : Bool) {token : Bytes} (hclean : 0 ∉ token)
    (w : World) :
    wp (Task.profile fd keepAlive token).spec (profileWork token) (fun _ _ ↦ True) w := by
  refine wp_bind (auth_redisGet (fun w₁ st _ hst ↦ ?_) (fun w₁ value _ hentry ↦ ?_) fun w₁ _ ↦ ?_)
  · cases st with
    | Ok => exact absurd rfl hst
    | NotFound => exact wp_sendError (by decide) _ fun _ _ _ ↦ trivial
    | Error => exact wp_sendError (by decide) _ fun _ _ _ ↦ trivial
  · rw [cstr_key (by decide) hclean] at hentry
    show wp _ (if _ then _ else if _ then _ else _) _ _
    rw [if_neg (by decide)]
    by_cases hvalue : value = []
    · rw [if_pos (.inr hvalue)]
      exact wp_sendError (by decide) _ fun _ _ _ ↦ trivial
    · rw [if_neg (by simp [hvalue])]
      refine wp_perform ?_ fun _ _ _ ↦ trivial
      -- the username in the reply can be read back, so it is the one in the entry
      intro fd' keepAlive' token' username e
      obtain ⟨⟨⟩, -, hbody⟩ := Answer.mk.injEq .. ▸ e
      have hname : value = username :=
        jsonEscape_injective (List.append_cancel_left (List.append_cancel_right hbody))
      exact hname ▸ hentry.session
  · trivial

theorem logoutWork_meets_spec (fd : ℕ) (keepAlive : Bool) (token : Bytes) (w : World) :
    wp (Task.logout fd keepAlive token).spec (logoutWork token) (fun _ _ ↦ True) w := by
  refine wp_bind (auth_redisDel fun w₁ r _ ↦ ?_)
  rcases r with _ | _ | _ | _
  · trivial
  · exact wp_send_of_ne (by simp) fun _ _ _ ↦ trivial
  · exact wp_sendError (by decide) _ fun _ _ _ ↦ trivial
  · exact wp_sendError (by decide) _ fun _ _ _ ↦ trivial

/-- **A clean task keeps to its specification.** -/
theorem work_meets_spec {t : Task} (h : t.Clean) (w : World) :
    wp t.spec t.work (fun _ _ ↦ True) w := by
  cases t with
  | register fd keepAlive username password =>
    exact wp_runDbTask (registerWork_meets_spec fd keepAlive username h w)
  | login fd keepAlive username password =>
    exact wp_runDbTask (loginWork_meets_spec fd keepAlive password h w)
  | profile fd keepAlive token => exact wp_runDbTask (profileWork_meets_spec fd keepAlive h w)
  | logout fd keepAlive token => exact wp_runDbTask (logoutWork_meets_spec fd keepAlive token w)

/-! ## So do the stores -/

/-- The stores agree with the world: its rows, none of which a NUL would cut short, and Redis
entries that it vouches for. -/
structure Store.Fits (s : Store) (w : World) : Prop where
  users : s.users = w.users
  nul : ∀ u p, s.users u = some p → 0 ∉ p
  redis : ∀ key value, s.redis key = some value → w.Entry key value

namespace Store

variable {s : Store} {w : World}

/-- Redis forgets and learns one key at a time. -/
theorem Fits.update (h : s.Fits w) {key : Bytes} {v : Option Bytes}
    (hv : ∀ value, v = some value → w.Entry key value) :
    Store.Fits { s with redis := Function.update s.redis key v } w := by
  refine ⟨h.users, h.nul, fun key' value hvalue ↦ ?_⟩
  change Function.update s.redis key v key' = some value at hvalue
  by_cases hkey : key' = key
  · subst hkey
    exact hv value (by rwa [Function.update_self] at hvalue)
  · exact h.redis key' value (by rwa [Function.update_of_ne hkey] at hvalue)

theorem redisRun_fits (h : s.Fits w) {cmd : RedisCommand}
    (hcmd : ∀ key ttl value, cmd = .setex key ttl value → w.Entry key value) :
    (s.redisRun cmd).1.Fits w := by
  cases cmd with
  | get key => exact h
  | setex key ttl value =>
    refine h.update fun v hv ↦ ?_
    rw [← Option.some.inj hv]
    exact hcmd key ttl value rfl
  | del key => exact h.update fun v hv ↦ absurd hv (by simp)

/-- A row can be added to the users table, and that is all. -/
theorem Fits.insert (h : s.Fits w) {user pass : Bytes} (hnew : s.users user = none)
    (hpass : 0 ∉ pass) :
    w ≤ ⟨Function.update s.users user (some pass), w.issued⟩ ∧
      Store.Fits { s with users := Function.update s.users user (some pass) }
        ⟨Function.update s.users user (some pass), w.issued⟩ := by
  have hw : w ≤ ⟨Function.update s.users user (some pass), w.issued⟩ := by
    refine ⟨fun u p hp ↦ ?_, fun _ hi ↦ hi⟩
    have hu : u ≠ user := by
      rintro rfl
      rw [← h.users, hnew] at hp
      exact absurd hp (by simp)
    show Function.update s.users user (some pass) u = some p
    rw [Function.update_of_ne hu, h.users, hp]
  refine ⟨hw, rfl, fun u p hp ↦ ?_, fun key value hvalue ↦ (h.redis key value hvalue).mono hw⟩
  change Function.update s.users user (some pass) u = some p at hp
  by_cases hu : u = user
  · subst hu
    rw [Function.update_self] at hp
    exact Option.some.inj hp ▸ hpass
  · rw [Function.update_of_ne hu] at hp
    exact h.nul u p hp

theorem Fits.same (h : s.Fits w) : w ≤ ⟨s.users, w.issued⟩ ∧ s.Fits ⟨s.users, w.issued⟩ := by
  rw [h.users]
  exact ⟨le_rfl, h⟩

theorem mysqlQuery_fits (h : s.Fits w) {sql : Bytes}
    (hsql : ∀ u p, parseSql sql = some (.insert u p) → 0 ∉ p) :
    w ≤ ⟨(s.mysqlQuery sql).1.users, w.issued⟩ ∧
      (s.mysqlQuery sql).1.Fits ⟨(s.mysqlQuery sql).1.users, w.issued⟩ := by
  rcases s.mysqlQuery_cases sql with e | ⟨user, pass, hstmt, hnone, e⟩
  · rw [e]
    exact h.same
  · rw [e]
    exact h.insert hnone (hsql user pass hstmt)

end Store

theorem Task.issues_eq_nil (t : Task) {o : Call} (h : o ≠ .generateToken) (r : Option o.Res) :
    t.issues o r = [] := by
  unfold Task.issues
  split
  · exact absurd rfl h
  · rfl

namespace Store

variable {s s' : Store} {w : World} {t : Task} {out : Outcome}

theorem exec_redisCommand (h : s.Fits w) {conn : ℕ} {cmd : RedisCommand}
    {r : Option (Call.redisCommand conn cmd).Res} (hpre : t.pre w (.redisCommand conn cmd))
    (hexec : s.exec (.redisCommand conn cmd) out = some (s', r)) :
    s'.Fits w ∧ t.post w (.redisCommand conn cmd) r := by
  refine ⟨?_, ?_⟩
  · rcases exec_store hexec with rfl | ⟨conn', cmd', e, rfl⟩ | ⟨conn', sql, e, -⟩ | ⟨token, e, -⟩
    · exact h
    · obtain ⟨rfl, rfl⟩ : conn = conn' ∧ cmd = cmd' := by simpa using e
      refine redisRun_fits h fun key ttl value e' ↦ ?_
      subst e'
      exact hpre
    · exact absurd e (by simp)
    · exact absurd e (by simp)
  · -- only `GET` promises anything, when it finds a value
    cases cmd with
    | get key =>
      rcases r with _ | _ | reply
      · trivial
      · trivial
      · cases reply with
        | string value => exact h.redis key value (exec_get hexec)
        | _ => trivial
    | setex key ttl value => trivial
    | del key => trivial

theorem exec_mysqlQuery (h : s.Fits w) {conn : ℕ} {sql : Bytes}
    {r : Option (Call.mysqlQuery conn sql).Res} (hpre : t.pre w (.mysqlQuery conn sql))
    (hexec : s.exec (.mysqlQuery conn sql) out = some (s', r)) :
    w ≤ ⟨s'.users, w.issued⟩ ∧ t.post ⟨s'.users, w.issued⟩ (.mysqlQuery conn sql) r ∧
      s'.Fits ⟨s'.users, w.issued⟩ := by
  have hfits : w ≤ ⟨s'.users, w.issued⟩ ∧ s'.Fits ⟨s'.users, w.issued⟩ := by
    rcases exec_store hexec with rfl | ⟨conn', cmd, e, -⟩ | ⟨conn', sql', e, rfl⟩ | ⟨token, e, -⟩
    · exact h.same
    · exact absurd e (by simp)
    · obtain ⟨rfl, rfl⟩ : conn = conn' ∧ sql = sql' := by simpa using e
      exact mysqlQuery_fits h hpre
    · exact absurd e (by simp)
  refine ⟨hfits.1, ?_, hfits.2⟩
  -- only the `SELECT` of a password promises anything
  rcases r with _ | _ | _ | _ | ⟨row, rows⟩
  · trivial
  · trivial
  · trivial
  · trivial
  · intro u hu
    obtain ⟨rfl, rows', hdone, hrows⟩ := exec_done hexec
    obtain rfl : some (row :: rows) = rows' := hrows.resolve_right (by simp)
    rw [mysqlQuery_of_parse hu] at hdone ⊢
    change QueryResult.done (some (s.users u).toList) = .done (some (row :: rows)) at hdone
    cases hrow : s.users u with
    | none => simp [hrow] at hdone
    | some p =>
      obtain ⟨rfl, -⟩ : p = row ∧ rows = [] := by simpa [hrow] using hdone
      exact ⟨hrow, h.nul u p hrow⟩

theorem exec_generateToken (h : s.Fits w) {r : Option Call.generateToken.Res}
    (hexec : s.exec .generateToken out = some (s', r)) :
    w ≤ ⟨s'.users, w.issued ++ t.issues .generateToken r⟩ ∧
      t.post ⟨s'.users, w.issued ++ t.issues .generateToken r⟩ .generateToken r ∧
      s'.Fits ⟨s'.users, w.issued ++ t.issues .generateToken r⟩ := by
  have hle : ∀ is, w ≤ ⟨s.users, w.issued ++ is⟩ := fun is ↦
    ⟨fun u p hp ↦ by rwa [← h.users] at hp, List.subset_append_left _ _⟩
  have hfits : ∀ is, s.Fits ⟨s.users, w.issued ++ is⟩ := fun is ↦
    ⟨rfl, h.nul, fun key value hvalue ↦ (h.redis key value hvalue).mono (hle is)⟩
  have hpost : ∀ users, t.post ⟨users, w.issued ++ t.issues .generateToken r⟩ .generateToken r := by
    intro users
    rcases r with _ | token
    · trivial
    · exact ⟨(exec_token hexec).2.1, fun i hi ↦ List.mem_append_right _ hi⟩
  rcases exec_store hexec with rfl | ⟨conn, cmd, e, -⟩ | ⟨conn, sql, e, -⟩ | ⟨token, -, -, rfl⟩
  · exact ⟨hle _, hpost _, hfits _⟩
  · exact absurd e (by simp)
  · exact absurd e (by simp)
  · exact ⟨hle _, hpost _, rfl, h.nul, (hfits _).redis⟩

/-- The other calls leave the stores alone. -/
theorem exec_idle {o : Call} {r : Option o.Res} (hexec : s.exec o out = some (s', r))
    (hredis : ∀ conn cmd, o ≠ .redisCommand conn cmd) (hmysql : ∀ conn sql, o ≠ .mysqlQuery conn sql)
    (htoken : o ≠ .generateToken) : s' = s ∧ ∀ w, t.post w o r := by
  refine ⟨?_, fun w ↦ ?_⟩
  · rcases exec_store hexec with e | ⟨conn, cmd, e, -⟩ | ⟨conn, sql, e, -⟩ | ⟨token, e, -⟩
    · exact e
    · exact absurd e (hredis conn cmd)
    · exact absurd e (hmysql conn sql)
    · exact absurd e htoken
  · cases o with
    | redisCommand conn cmd => exact absurd rfl (hredis conn cmd)
    | mysqlQuery conn sql => exact absurd rfl (hmysql conn sql)
    | generateToken => exact absurd rfl htoken
    | _ => trivial

/-- **The stores keep to the specification of every call.** -/
theorem exec_spec (h : s.Fits w) {o : Call} {r : Option o.Res} (hpre : t.pre w o)
    (hexec : s.exec o out = some (s', r)) :
    w ≤ ⟨s'.users, w.issued ++ t.issues o r⟩ ∧ t.post ⟨s'.users, w.issued ++ t.issues o r⟩ o r ∧
      s'.Fits ⟨s'.users, w.issued ++ t.issues o r⟩ := by
  by_cases htoken : o = .generateToken
  · subst htoken
    exact exec_generateToken h hexec
  rw [t.issues_eq_nil htoken r, List.append_nil]
  by_cases hmysql : ∃ conn sql, o = .mysqlQuery conn sql
  · obtain ⟨conn, sql, rfl⟩ := hmysql
    exact exec_mysqlQuery h hpre hexec
  have hw : s'.Fits w ∧ t.post w o r := by
    by_cases hredis : ∃ conn cmd, o = .redisCommand conn cmd
    · obtain ⟨conn, cmd, rfl⟩ := hredis
      exact exec_redisCommand h hpre hexec
    · obtain ⟨rfl, hpost⟩ := exec_idle (t := t) hexec (by simpa using hredis) (by simpa using hmysql)
        htoken
      exact ⟨h, hpost w⟩
  rw [hw.1.users]
  exact ⟨le_rfl, hw.2, hw.1⟩

end Store

/-! ## Runs -/

namespace Auth

/-- What holds in every state of a run of clean tasks. -/
structure Inv (s : Auth) : Prop where
  fits : s.store.Fits s.world
  running : ∀ k ∈ s.running, wp k.task.spec k.rest (fun _ _ ↦ True) s.world
  sound : s.Sound

theorem inv_start : start.Inv where
  fits := ⟨rfl, fun _ _ h ↦ absurd h (by simp [start, Store.empty]),
    fun _ _ h ↦ absurd h (by simp [start, Store.empty])⟩
  running := by simp [start]
  sound := by simp [Sound, start]

/-- What a worker can do: one call, as the stores answer it. -/
theorem step_call_cases (s : Auth) (i : ℕ) (out : Outcome) :
    s.step (.call i out) = s ∨
      ∃ t o next store r, s.running[i]? = some ⟨t, .call o next⟩ ∧
        s.store.exec o out = some (store, r) ∧
        s.step (.call i out) =
          { store := store, running := s.running.set i ⟨t, next r⟩,
            issued := s.issued ++ t.issues o r, answers := s.answers ++ t.answers o } := by
  rw [step]
  cases hi : s.running[i]? with
  | none => exact .inl rfl
  | some k =>
    obtain ⟨t, rest⟩ := k
    cases rest with
    | ret a => exact .inl rfl
    | throw => exact .inl rfl
    | call o next =>
      dsimp only
      cases hexec : s.store.exec o out with
      | none => exact .inl rfl
      | some res =>
        exact .inr ⟨t, o, next, res.1, res.2, rfl, hexec, rfl⟩

theorem Inv.step {s : Auth} (h : s.Inv) {m : Move} (hm : m.Clean) : (s.step m).Inv := by
  cases m with
  | start t =>
    refine ⟨h.fits, fun k hk ↦ ?_, h.sound⟩
    rcases List.mem_append.mp hk with hk | hk
    · exact h.running k hk
    · rw [List.mem_singleton.mp hk]
      exact work_meets_spec hm _
  | expire key => exact ⟨h.fits.update (by simp), h.running, h.sound⟩
  | call i out =>
    rcases s.step_call_cases i out with e | ⟨t, o, next, store, r, hi, hexec, e⟩
    · rw [e]
      exact h
    · rw [e]
      obtain ⟨hpre, hnext⟩ := h.running _ (List.mem_of_getElem? hi)
      obtain ⟨hle, hpost, hfits⟩ := Store.exec_spec h.fits hpre hexec
      refine ⟨hfits, fun k hk ↦ ?_, fun a ha ↦ ?_⟩
      · rcases List.mem_or_eq_of_mem_set hk with hk | rfl
        · exact wp_mono k.task.spec_stable (fun _ _ _ _ _ ↦ trivial) (h.running k hk) hle
        · exact hnext _ r ⟨hle, hpost⟩
      · rcases List.mem_append.mp ha with ha | ha
        · exact fun fd keepAlive token username e ↦
            (h.sound a ha fd keepAlive token username e).mono hle
        · -- a new answer: it was allowed when it was sent
          cases o with
          | send statusCode body =>
            rw [List.mem_singleton.mp ha]
            exact fun fd keepAlive token username e ↦
              (hpre fd keepAlive token username e).mono hle
          | _ => exact absurd ha (by simp [Task.answers])

end Auth

/-- **Authentication is sound**, in every state of every run of clean tasks. -/
theorem auth_sound (ms : List Move) (h : ∀ m ∈ ms, m.Clean) : (Auth.start.run ms).Sound := by
  suffices h : (Auth.start.run ms).Inv from h.sound
  refine List.foldlRecOn ms Auth.step Auth.inv_start fun s hs m hm ↦ ?_
  exact hs.step (h m hm)

/-- A user registers, logs in and asks for the profile, and all goes well. -/
def Move.visit (username password token : Bytes) : List Move :=
  let calls (i : ℕ) (outs : List Outcome) : List Move := outs.map (.call i)
  [.start (.register 7 true username password)] ++
    calls 0 [.handle 0, .served, .served, .served, .served] ++
  [.start (.login 7 true username password)] ++
    calls 1 [.handle 1, .served, .served, .handle 0, .served, .handle 1, .served, .served, .served,
      .token token, .handle 1, .served, .served, .served] ++
  [.start (.profile 7 true token)] ++ calls 2 [.handle 1, .served, .served, .served]

/-- Such a visit gives the user the profile that was asked for. -/
theorem auth_sound_visit :
    (∀ m ∈ Move.visit (lit "bob") (lit "pw") (List.replicate 32 97), m.Clean) ∧
      (⟨.profile 7 true (List.replicate 32 97), 200, profileJson (lit "bob")⟩ : Answer) ∈
        (Auth.start.run (Move.visit (lit "bob") (lit "pw") (List.replicate 32 97))).answers ∧
      (Auth.start.run (Move.visit (lit "bob") (lit "pw") (List.replicate 32 97))).Sound := by
  have hclean : ∀ m ∈ Move.visit (lit "bob") (lit "pw") (List.replicate 32 97), m.Clean := by
    decide +kernel
  exact ⟨hclean, by decide +kernel, auth_sound _ hclean⟩

theorem Auth.Sound.issued {s : Auth} (h : s.Sound) {fd : ℕ} {keepAlive : Bool}
    {token username : Bytes}
    (ha : ⟨.profile fd keepAlive token, 200, profileJson username⟩ ∈ s.answers) :
    ∃ i ∈ s.issued, i.username = username := by
  obtain ⟨password, hissued, -⟩ := h _ ha fd keepAlive token username rfl
  exact ⟨_, hissued, rfl⟩

/-- The text of a login of a user whose name ends in a NUL. -/
def nulLogin : Bytes :=
  lit "POST /login HTTP/1.1\r\nContent-Length: 37\r\n\r\n\x7b\"username\":\"alice" ++
    0 :: lit "\",\"password\":\"pw\"\x7d"

/-- **A NUL makes one user another.**  The server accepts the name `alice\0`, and so does the users
table, but Redis gets it as `alice`.  The token is then good for the profile of a user who never
logged in. -/
theorem auth_unsound :
    (handleLogin (newConn 7 0).1 ⟨[], []⟩ nulLogin true).acts =
        [.submit (.login 7 true (lit "alice" ++ [0]) (lit "pw"))] ∧
      (⟨.profile 7 true (List.replicate 32 97), 200, profileJson (lit "alice")⟩ : Answer) ∈
        (Auth.start.run
          (Move.visit (lit "alice" ++ [0]) (lit "pw") (List.replicate 32 97))).answers ∧
      ¬(Auth.start.run
          (Move.visit (lit "alice" ++ [0]) (lit "pw") (List.replicate 32 97))).Sound := by
  have hanswer :
      (⟨.profile 7 true (List.replicate 32 97), 200, profileJson (lit "alice")⟩ : Answer) ∈
      (Auth.start.run
        (Move.visit (lit "alice" ++ [0]) (lit "pw") (List.replicate 32 97))).answers := by
    decide +kernel
  refine ⟨by decide +kernel, hanswer, fun h ↦ ?_⟩
  obtain ⟨i, hi, hname⟩ := h.issued hanswer
  have hnames : ∀ i ∈ (Auth.start.run
      (Move.visit (lit "alice" ++ [0]) (lit "pw") (List.replicate 32 97))).issued,
      i.username ≠ lit "alice" := by
    decide +kernel
  exact hnames i hi hname

end ReactorServer
