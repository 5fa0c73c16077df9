import ReactorServer.Db.Handles

/-!
# Who holds which connection

The world of a task is what it holds (`Held`): a MySQL handle, a Redis context, or the place of a
context that it has freed.  `leaseSpec` says what its calls do to that, and `work_lease` that a task
uses a connection only while it has it, and has nothing left at its end.  `poolSpec` says the same of
the steps of a call, and `Call.body_lease` that they do what the call does.

The guard of a MySQL handle gives it back whatever happens.  The functions of `RedisPool` give a
context back on each of their branches, but an exception while they have one is not a branch of
theirs: to the task the context is gone then, and it goes on.
-/

set_option autoImplicit false

namespace ReactorServer

open Program

/-! ## What a task holds -/

/-- What a worker holds. -/
structure Held where
  mysql : Option ℕ
  redis : Option ℕ
  /-- It has freed a context and not tried to open another. -/
  owes : Bool
  deriving DecidableEq, Repr

/-- Nothing. -/
def Held.nothing : Held := ⟨none, none, false⟩

/-- What a worker holds after a step. -/
def Held.after (w : Held) : (o : PoolCall) → Option o.Res → Held
  | .redisPop, r => { w with redis := r.join }
  | .redisPush _, _ => { w with redis := none }
  | .redisFree _, _ => { w with redis := none, owes := true }
  | .createConn, r => { w with redis := r.join, owes := false }
  | .redisCommand .., r => { w with redis := r.bind fun _ ↦ w.redis }
  | .mysqlPop, r => { w with mysql := r.join }
  | .mysqlPush _, _ => { w with mysql := none }
  | .mysqlQuery .., _ => w
  | .generateToken, _ => w
  | .send .., _ => w

/-- The step does not throw. -/
def PoolCall.isNoexcept : PoolCall → Bool
  | .redisFree _ | .mysqlPush _ | .send .. => true
  | _ => false

/-- A step uses what the worker holds, and asks for what it does not. -/
def poolSpec : Spec PoolCall PoolCall.Res Held where
  pre w
    | .redisPop => w.redis = none
    | .redisPush conn => w.redis = some conn
    | .redisFree conn => w.redis = some conn ∧ w.owes = false
    | .createConn => w.redis = none ∧ w.owes = true
    | .redisCommand conn _ => w.redis = some conn
    | .mysqlPop => w.mysql = none
    | .mysqlPush conn => w.mysql = some conn
    | .mysqlQuery conn _ => w.mysql = some conn
    | .generateToken => True
    | .send .. => True
  post w o r w' := w' = w.after o r ∧ (o.isNoexcept = true → r ≠ none)

/-- The same of a call. -/
def leaseSpec : Spec Call Call.Res Held where
  pre w
    | .redisGetConn => w.redis = none
    | .redisCommand conn _ => w.redis = some conn
    | .redisRelease conn => w.redis = some conn
    | .redisDiscard conn => w.redis = some conn ∧ w.owes = false
    | .mysqlGetConn => w.mysql = none
    | .mysqlQuery conn _ => w.mysql = some conn
    | .mysqlRelease conn => w.mysql = some conn
    | .generateToken => True
    | .send .. => True
  post w
    | .redisGetConn, r, w' => w' = { w with redis := r.join }
    | .redisCommand .., r, w' => w' = { w with redis := r.bind fun _ ↦ w.redis }
    | .redisRelease _, _, w' => w' = { w with redis := none }
    | .redisDiscard _, _, w' => w' = { w with redis := none }
    | .mysqlGetConn, r, w' => w' = { w with mysql := r.join }
    | .mysqlQuery .., _, w' => w' = w
    | .mysqlRelease _, r, w' => w' = { w with mysql := none } ∧ r ≠ none
    | .generateToken, _, w' => w' = w
    | .send .., r, w' => w' = w ∧ r ≠ none

theorem discardBrokenConn_lease {w : Held} {conn : ℕ} (hconn : w.redis = some conn)
    (howes : w.owes = false) :
    wp poolSpec (discardBrokenConn conn) (fun w' _ ↦ w' = { w with redis := none }) w := by
  refine wp_bind (wp_perform ⟨hconn, howes⟩ fun w₁ r₁ ⟨h₁, hr₁⟩ ↦ ?_)
  subst h₁
  cases r₁ with
  | none => exact absurd rfl (hr₁ rfl)
  | some u =>
    refine wp_bind (wp_perform ⟨rfl, rfl⟩ fun w₂ r₂ ⟨h₂, _⟩ ↦ ?_)
    subst h₂
    obtain ⟨mysql, redis, owes⟩ := w
    subst howes
    rcases r₂ with _ | _ | fresh
    · rfl
    · rfl
    · refine wp_perform rfl fun w₃ r₃ ⟨h₃, _⟩ ↦ ?_
      rw [h₃]
      rfl

/-- **The steps of a call do what the call does.** -/
theorem Call.body_lease (w : Held) (o : Call) (hpre : leaseSpec.pre w o) :
    wp poolSpec o.body (fun w' r ↦ leaseSpec.post w o r w') w := by
  cases o with
  | redisDiscard conn => exact discardBrokenConn_lease hpre.1 hpre.2
  | mysqlRelease conn => exact wp_perform hpre fun w' r h ↦ ⟨h.1, h.2 rfl⟩
  | send statusCode body => exact wp_perform trivial fun w' r h ↦ ⟨h.1, h.2 rfl⟩
  | _ => exact wp_perform hpre fun w' r h ↦ h.1

/-! ## The parts of a task -/

section Rules

variable {m : Option ℕ}

/-- The calls of a function of `RedisPool` on a context that it has. -/
theorem lease_command {conn : ℕ} {cmd : RedisCommand} {β : Type}
    {f : Option RedisReply → Job β} {Q : Held → Option β → Prop}
    (hthrow : Q ⟨m, none, false⟩ none)
    (hf : ∀ reply, wp leaseSpec (f reply) Q ⟨m, some conn, false⟩) :
    wp leaseSpec (perform (.redisCommand conn cmd) >>= f) Q ⟨m, some conn, false⟩ := by
  refine wp_bind (wp_perform rfl fun w' r h ↦ ?_)
  cases h
  cases r with
  | none => exact hthrow
  | some reply => exact hf reply

theorem lease_giveBack {conn : ℕ} {o : Call} (ho : o = .redisRelease conn ∨ o = .redisDiscard conn)
    {β : Type} {f : o.Res → Job β} {Q : Held → Option β → Prop}
    (hthrow : Q ⟨m, none, false⟩ none) (hf : ∀ r, wp leaseSpec (f r) Q ⟨m, none, false⟩) :
    wp leaseSpec (perform o >>= f) Q ⟨m, some conn, false⟩ := by
  have hpost : ∀ w' r, leaseSpec.post ⟨m, some conn, false⟩ o r w' → w' = ⟨m, none, false⟩ := by
    rcases ho with rfl | rfl
    · exact fun w' r h ↦ h
    · exact fun w' r h ↦ h
  have hpre : leaseSpec.pre ⟨m, some conn, false⟩ o := by
    rcases ho with rfl | rfl
    · exact rfl
    · exact ⟨rfl, rfl⟩
  refine wp_bind (wp_perform hpre fun w' r h ↦ ?_)
  rw [hpost w' r h]
  cases r with
  | none => exact hthrow
  | some r => exact hf r

/-- A function of `RedisPool` leases a context and ends with none. -/
theorem lease_getConn {β : Type} {f : Option ℕ → Job β} {Q : Held → Option β → Prop}
    (hthrow : Q ⟨m, none, false⟩ none) (hnone : wp leaseSpec (f none) Q ⟨m, none, false⟩)
    (hsome : ∀ conn, wp leaseSpec (f (some conn)) Q ⟨m, some conn, false⟩) :
    wp leaseSpec (perform .redisGetConn >>= f) Q ⟨m, none, false⟩ := by
  refine wp_bind (wp_perform rfl fun w' r h ↦ ?_)
  cases h
  rcases r with _ | _ | conn
  · exact hthrow
  · exact hnone
  · exact hsome conn

theorem redisGet_lease (key : Bytes) :
    wp leaseSpec (redisGet key) (fun w _ ↦ w = ⟨m, none, false⟩) ⟨m, none, false⟩ := by
  refine lease_getConn rfl rfl fun conn ↦ lease_command rfl fun reply ↦ ?_
  rcases reply with _ | (_ | _ | _ | _ | _)
  case none => exact lease_giveBack (.inr rfl) rfl fun _ ↦ rfl
  all_goals exact lease_giveBack (.inl rfl) rfl fun _ ↦ rfl

theorem redisSetex_lease (key : Bytes) (ttl : ℕ) (value : Bytes) :
    wp leaseSpec (redisSetex key ttl value) (fun w _ ↦ w = ⟨m, none, false⟩) ⟨m, none, false⟩ := by
  refine lease_getConn rfl rfl fun conn ↦ lease_command rfl fun reply ↦ ?_
  cases reply with
  | none => exact lease_giveBack (.inr rfl) rfl fun _ ↦ rfl
  | some reply => exact lease_giveBack (.inl rfl) rfl fun _ ↦ rfl

theorem redisDel_lease (key : Bytes) :
    wp leaseSpec (redisDel key) (fun w _ ↦ w = ⟨m, none, false⟩) ⟨m, none, false⟩ := by
  refine lease_getConn rfl rfl fun conn ↦ lease_command rfl fun reply ↦ ?_
  rcases reply with _ | (_ | _ | (_ | _) | _ | _)
  case none => exact lease_giveBack (.inr rfl) rfl fun _ ↦ rfl
  all_goals exact lease_giveBack (.inl rfl) rfl fun _ ↦ rfl

/-- A call that leaves everything where it is. -/
theorem lease_send {w : Held} {statusCode : ℕ} {body : Bytes} {Q : Held → Option PUnit → Prop}
    (hQ : Q w (some ⟨⟩)) : wp leaseSpec (perform (.send statusCode body)) Q w := by
  refine wp_perform trivial fun w' r ⟨h, hr⟩ ↦ ?_
  cases h
  cases r with
  | none => exact absurd rfl hr
  | some _ => exact hQ

theorem lease_query {conn : ℕ} {sql : Bytes} {β : Type} {f : QueryResult → Job β}
    {Q : Held → Option β → Prop} {w : Held} (hconn : w.mysql = some conn) (hthrow : Q w none)
    (hf : ∀ r, wp leaseSpec (f r) Q w) :
    wp leaseSpec (perform (.mysqlQuery conn sql) >>= f) Q w := by
  refine wp_bind (wp_perform hconn fun w' r h ↦ ?_)
  cases h
  cases r with
  | none => exact hthrow
  | some r => exact hf r

/-- **A block with a `MysqlGuard`** gives its handle back on every way out. -/
theorem lease_withGuard {α : Type} {body : Option ℕ → Job α}
    (hnone : wp leaseSpec (body none) (fun w _ ↦ w = .nothing) .nothing)
    (hsome : ∀ conn, wp leaseSpec (body (some conn)) (fun w _ ↦ w = ⟨some conn, none, false⟩)
      ⟨some conn, none, false⟩) :
    wp leaseSpec (withGuard body) (fun w _ ↦ w = .nothing) .nothing := by
  refine wp_bind (wp_perform rfl fun w' r h ↦ ?_)
  cases h
  rcases r with _ | _ | conn
  · rfl
  · exact wp_protect (wp_imp hnone fun w r h ↦ h)
  · refine wp_protect (wp_imp (hsome conn) fun w r h ↦ ?_)
    subst h
    refine wp_perform rfl fun w' r' h ↦ ?_
    rw [h.1]
    rfl

end Rules

/-! ## The tasks -/

/-- The task ends with nothing in its hands. -/
def LetsGo {α : Type} (p : Job α) : Prop := wp leaseSpec p (fun w _ ↦ w = .nothing) .nothing

theorem letsGo_bind {α β : Type} {p : Job α} {f : α → Job β} (hp : LetsGo p)
    (hf : ∀ a, LetsGo (f a)) : LetsGo (p >>= f) := by
  refine wp_bind (wp_imp hp fun w r h ↦ ?_)
  subst h
  cases r with
  | none => rfl
  | some a => exact hf a

theorem letsGo_send (statusCode : ℕ) (body : Bytes) : LetsGo (perform (.send statusCode body)) :=
  lease_send rfl

theorem registerWork_letsGo (username password : Bytes) : LetsGo (registerWork username password) := by
  refine lease_withGuard (letsGo_send ..) fun conn ↦ lease_query rfl rfl fun r ↦ ?_
  rcases r with _ | _ | (_ | _)
  case failed => exact lease_send rfl
  case done.some.cons => exact lease_send rfl
  case done.none | done.some.nil =>
    refine lease_query rfl rfl fun r ↦ ?_
    rcases r with _ | _
    · exact lease_send rfl
    · exact lease_send rfl

theorem mysqlLookup_letsGo (username : Bytes) : LetsGo (mysqlLookup username) := by
  refine lease_withGuard (wp_bind (lease_send rfl)) fun conn ↦ lease_query rfl rfl fun r ↦ ?_
  rcases r with _ | _ | (_ | ⟨row, rows⟩)
  · exact wp_bind (lease_send rfl)
  · rfl
  · rfl
  · refine wp_bind (wp_imp (redisSetex_lease ..) fun w r h ↦ ?_)
    subst h
    cases r <;> rfl

theorem lookupPassword_letsGo (username : Bytes) : LetsGo (lookupPassword username) := by
  refine letsGo_bind (redisGet_lease _) fun ⟨cached, st⟩ ↦ ?_
  show LetsGo (if st = .Ok ∧ cached ≠ [] then pure (.found cached) else mysqlLookup username)
  by_cases hit : st = .Ok ∧ cached ≠ []
  · rw [if_pos hit]
    rfl
  · rw [if_neg hit]
    exact mysqlLookup_letsGo username

theorem openSession_letsGo (username : Bytes) : LetsGo (openSession username) := by
  refine wp_bind (wp_perform trivial fun w r h ↦ ?_)
  cases h
  cases r with
  | none => rfl
  | some token =>
    refine letsGo_bind (redisSetex_lease ..) fun stored ↦ ?_
    cases stored with
    | false => exact letsGo_send ..
    | true => exact letsGo_send ..

theorem loginWork_letsGo (username password : Bytes) : LetsGo (loginWork username password) := by
  refine letsGo_bind (lookupPassword_letsGo username) fun lookup ↦ ?_
  cases lookup with
  | answered => rfl
  | notFound => exact letsGo_send ..
  | found dbPassword =>
    show LetsGo (if password ≠ dbPassword then _ else _)
    by_cases hpassword : password = dbPassword
    · rw [if_neg (not_not.mpr hpassword)]
      exact openSession_letsGo username
    · rw [if_pos hpassword]
      exact letsGo_send ..

theorem profileWork_letsGo (token : Bytes) : LetsGo (profileWork token) := by
  refine letsGo_bind (redisGet_lease _) fun ⟨username, st⟩ ↦ ?_
  show LetsGo (if st = .Error then _ else if st = .NotFound ∨ username = [] then _ else _)
  by_cases herror : st = .Error
  · rw [if_pos herror]
    exact letsGo_send ..
  rw [if_neg herror]
  by_cases hmissing : st = .NotFound ∨ username = []
  · rw [if_pos hmissing]
    exact letsGo_send ..
  · rw [if_neg hmissing]
    exact letsGo_send ..

theorem logoutWork_letsGo (token : Bytes) : LetsGo (logoutWork token) := by
  refine letsGo_bind (redisDel_lease _) fun st ↦ ?_
  cases st with
  | Ok => exact letsGo_send ..
  | NotFound => exact letsGo_send ..
  | Error => exact letsGo_send ..

theorem runDbTask_letsGo {work : Job PUnit} (h : LetsGo work) : LetsGo (runDbTask work) := by
  refine wp_handle (wp_imp h fun w r hw ↦ ?_)
  subst hw
  cases r with
  | none => exact letsGo_send ..
  | some _ => rfl

/-- **What a worker does ends with nothing in its hands.** -/
theorem Errand.work_letsGo (e : Errand) : LetsGo e.work := by
  cases e with
  | task t =>
    cases t with
    | register fd keepAlive username password =>
      exact runDbTask_letsGo (registerWork_letsGo username password)
    | login fd keepAlive username password =>
      exact runDbTask_letsGo (loginWork_letsGo username password)
    | profile fd keepAlive token => exact runDbTask_letsGo (profileWork_letsGo token)
    | logout fd keepAlive token => exact runDbTask_letsGo (logoutWork_letsGo token)
  | get key => exact letsGo_bind (redisGet_lease key) fun _ ↦ rfl
  | setex key ttl value => exact letsGo_bind (redisSetex_lease key ttl value) fun _ ↦ rfl
  | del key => exact letsGo_bind (redisDel_lease key) fun _ ↦ rfl

theorem Errand.steps_lease (e : Errand) :
    wp poolSpec e.steps (fun w _ ↦ w = .nothing) .nothing :=
  wp_expand Call.body_lease e.work_letsGo

end ReactorServer
