import ReactorServer.Db.Answer
import ReactorServer.Db.Books
import Mathlib.Algebra.BigOperators.Group.Finset.Basic
import Mathlib.Algebra.BigOperators.Group.Finset.Piecewise

/-!
# Nobody waits in vain

A login can need a connection of each pool at once: it fills the cache while it has its MySQL handle.
With more workers than connections this could be a deadlock, which only the timeout of `getConn`
would dissolve, by failing a request.  It never is one, because the pools are asked in an order: a
worker asks for a MySQL handle with empty hands, and does not ask for anything while it has a Redis
context or owes one (`Call.InOrder`).

So as long as both pools have a connection left, somebody who is at work is not waiting
(`Account.exists_not_waits`), and can go on without a timeout or an exception.  And a task has only so
many steps (`Errand.steps_atMost`).
-/

set_option autoImplicit false

namespace ReactorServer

open Program Machine

/-! ## The order in which a task asks -/

/-- A MySQL handle is asked for with empty hands, and nothing while a context is owed. -/
def Call.InOrder (w : Held) : Call → Prop
  | .redisGetConn => w.owes = false
  | .mysqlGetConn => w.redis = none ∧ w.owes = false
  | _ => True

/-- The same of a step. -/
def PoolCall.InOrder (w : Held) : PoolCall → Prop
  | .redisPop => w.owes = false
  | .mysqlPop => w.redis = none ∧ w.owes = false
  | _ => True

/-- The task asks in order, and ends with nothing in its hands. -/
def AsksInOrder {α : Type} (p : Job α) : Prop :=
  wp (leaseSpec.restrict Call.InOrder) p (fun w _ ↦ w = .nothing) .nothing

/-- A call leaves nothing owed behind. -/
theorem leaseSpec_owes {w w' : Held} {o : Call} {r : Option o.Res} (hw : w.owes = false)
    (h : leaseSpec.post w o r w') : w'.owes = false := by
  cases o with
  | mysqlRelease conn => exact h.1 ▸ hw
  | send statusCode body => exact h.1 ▸ hw
  | _ => exact (show w' = _ from h) ▸ hw

theorem wp_inOrder_of_calls {α : Type} {p : Job α} {Q : Held → Option α → Prop} {w : Held}
    (hp : Calls (· ≠ .mysqlGetConn) p) (hw : w.owes = false) (h : wp leaseSpec p Q w) :
    wp (leaseSpec.restrict Call.InOrder) p Q w := by
  refine wp_restrict (fun _ _ _ _ ↦ leaseSpec_owes) (calls_imp (fun o ho w hw ↦ ?_) hp) hw h
  cases o with
  | redisGetConn => exact hw
  | mysqlGetConn => exact absurd rfl ho
  | _ => trivial

theorem asksInOrder_bind {α β : Type} {p : Job α} {f : α → Job β} (hp : AsksInOrder p)
    (hf : ∀ a, AsksInOrder (f a)) : AsksInOrder (p >>= f) := by
  refine wp_bind (wp_imp hp fun w r h ↦ ?_)
  subst h
  rcases r with _ | a
  · exact rfl
  · exact hf a

theorem calls_redis {α : Type} {cmd : RedisCommand} {p : Job α} (hp : Calls (RedisCall cmd) p) :
    Calls (· ≠ .mysqlGetConn) p := by
  refine calls_imp (fun o ho ↦ ?_) hp
  rintro rfl
  exact ho

theorem calls_answer (statusCode : ℕ) (body : Bytes) :
    Calls (· ≠ .mysqlGetConn) (perform (.send statusCode body)) :=
  calls_perform nofun

/-- A block with a `MysqlGuard` in it begins with empty hands. -/
theorem asksInOrder_withGuard {α : Type} {body : Option ℕ → Job α} (h : LetsGo (withGuard body))
    (hbody : ∀ conn, Calls (· ≠ .mysqlGetConn) (body conn)) : AsksInOrder (withGuard body) := by
  refine ⟨⟨h.1, rfl, rfl⟩, fun w r hr ↦ ?_⟩
  have howes : w.owes = false := leaseSpec_owes (w := .nothing) (o := .mysqlGetConn) rfl hr
  refine wp_inOrder_of_calls ?_ howes (h.2 w r hr)
  rcases r with _ | conn
  · trivial
  · refine calls_protect (hbody conn) ?_
    rcases conn with _ | conn
    · trivial
    · exact calls_perform nofun

theorem registerWork_inOrder (username password : Bytes) :
    AsksInOrder (registerWork username password) := by
  refine asksInOrder_withGuard (registerWork_letsGo username password) fun conn ↦ ?_
  rcases conn with _ | conn
  · exact calls_answer ..
  refine calls_bind (calls_perform nofun) fun r ↦ ?_
  rcases r with _ | _ | (_ | _)
  case failed | done.some.cons => exact calls_answer ..
  all_goals
    refine calls_bind (calls_perform nofun) fun r ↦ ?_
    rcases r with _ | _
    · exact calls_answer ..
    · exact calls_answer ..

theorem mysqlLookup_inOrder (username : Bytes) : AsksInOrder (mysqlLookup username) := by
  refine asksInOrder_withGuard (mysqlLookup_letsGo username) fun conn ↦ ?_
  rcases conn with _ | conn
  · exact calls_bind (calls_answer ..) fun _ ↦ trivial
  refine calls_bind (calls_perform nofun) fun r ↦ ?_
  rcases r with _ | _ | (_ | ⟨row, rows⟩)
  · exact calls_bind (calls_answer ..) fun _ ↦ trivial
  · trivial
  · trivial
  · exact calls_bind (calls_redis (redisSetex_calls ..)) fun _ ↦ trivial

theorem lookupPassword_inOrder (username : Bytes) : AsksInOrder (lookupPassword username) := by
  have hget := wp_inOrder_of_calls (calls_redis (redisGet_calls _)) rfl
    (redisGet_lease (m := none) (lit "user:" ++ username))
  refine asksInOrder_bind hget fun ⟨cached, st⟩ ↦ ?_
  show AsksInOrder (if st = .Ok ∧ cached ≠ [] then pure (.found cached) else mysqlLookup username)
  by_cases hit : st = .Ok ∧ cached ≠ []
  · rw [if_pos hit]
    exact rfl
  · rw [if_neg hit]
    exact mysqlLookup_inOrder username

theorem openSession_inOrder (username : Bytes) : AsksInOrder (openSession username) := by
  refine wp_inOrder_of_calls ?_ rfl (openSession_letsGo username)
  refine calls_bind (calls_perform nofun) fun token ↦ ?_
  refine calls_bind (calls_redis (redisSetex_calls ..)) fun stored ↦ ?_
  rcases stored with _ | _
  · exact calls_answer ..
  · exact calls_answer ..

theorem loginWork_inOrder (username password : Bytes) :
    AsksInOrder (loginWork username password) := by
  have hanswer : ∀ message, AsksInOrder (sendError 401 message) := fun message ↦
    wp_inOrder_of_calls (calls_answer ..) rfl (letsGo_send ..)
  refine asksInOrder_bind (lookupPassword_inOrder username) fun lookup ↦ ?_
  rcases lookup with _ | _ | dbPassword
  · exact rfl
  · exact hanswer _
  · show AsksInOrder (if password ≠ dbPassword then _ else _)
    by_cases hpassword : password = dbPassword
    · rw [if_neg (not_not.mpr hpassword)]
      exact openSession_inOrder username
    · rw [if_pos hpassword]
      exact hanswer _

theorem profileWork_inOrder (token : Bytes) : AsksInOrder (profileWork token) := by
  refine wp_inOrder_of_calls ?_ rfl (profileWork_letsGo token)
  refine calls_bind (calls_redis (redisGet_calls _)) fun ⟨username, st⟩ ↦ ?_
  show Calls _ (if st = .Error then _ else if st = .NotFound ∨ username = [] then _ else _)
  by_cases herror : st = .Error
  · rw [if_pos herror]
    exact calls_answer ..
  rw [if_neg herror]
  by_cases hmissing : st = .NotFound ∨ username = []
  · rw [if_pos hmissing]
    exact calls_answer ..
  · rw [if_neg hmissing]
    exact calls_answer ..

theorem logoutWork_inOrder (token : Bytes) : AsksInOrder (logoutWork token) := by
  refine wp_inOrder_of_calls ?_ rfl (logoutWork_letsGo token)
  refine calls_bind (calls_redis (redisDel_calls _)) fun st ↦ ?_
  rcases st with _ | _ | _
  all_goals exact calls_answer ..

theorem runDbTask_inOrder {work : Job PUnit} (h : AsksInOrder work) :
    AsksInOrder (runDbTask work) := by
  refine wp_handle (wp_imp h fun w r hw ↦ ?_)
  subst hw
  rcases r with _ | _
  · exact wp_inOrder_of_calls (calls_answer ..) rfl (letsGo_send ..)
  · exact rfl

/-- **Whatever a worker does, it asks in order.** -/
theorem Errand.work_inOrder (e : Errand) : AsksInOrder e.work := by
  rcases e with t | key | ⟨key, ttl, value⟩ | key
  · rcases t with _ | _ | _ | _
    · exact runDbTask_inOrder (registerWork_inOrder _ _)
    · exact runDbTask_inOrder (loginWork_inOrder _ _)
    · exact runDbTask_inOrder (profileWork_inOrder _)
    · exact runDbTask_inOrder (logoutWork_inOrder _)
  · exact wp_inOrder_of_calls (calls_bind (calls_redis (redisGet_calls key)) fun _ ↦ trivial) rfl
      (Errand.work_letsGo (.get key))
  · exact wp_inOrder_of_calls
      (calls_bind (calls_redis (redisSetex_calls key ttl value)) fun _ ↦ trivial) rfl
      (Errand.work_letsGo (.setex key ttl value))
  · exact wp_inOrder_of_calls (calls_bind (calls_redis (redisDel_calls key)) fun _ ↦ trivial) rfl
      (Errand.work_letsGo (.del key))

/-- The steps of a call ask for what the call asks for. -/
theorem Call.body_inOrder (w : Held) (o : Call) (hpre : (leaseSpec.restrict Call.InOrder).pre w o) :
    wp (poolSpec.restrict PoolCall.InOrder) o.body (fun w' r ↦ leaseSpec.post w o r w') w := by
  have hbody := Call.body_lease w o hpre.1
  have hplain : Calls (fun o' ↦ ∀ w', True → PoolCall.InOrder w' o') o.body →
      wp (poolSpec.restrict PoolCall.InOrder) o.body (fun w' r ↦ leaseSpec.post w o r w') w :=
    fun hcalls ↦ wp_restrict (I := fun _ ↦ True) (fun _ _ _ _ _ _ ↦ trivial) hcalls trivial hbody
  cases o with
  | redisGetConn => exact ⟨⟨hbody.1, hpre.2⟩, fun w' r hr ↦ by rcases r with _ | _ <;> exact hr.1⟩
  | mysqlGetConn => exact ⟨⟨hbody.1, hpre.2⟩, fun w' r hr ↦ by rcases r with _ | _ <;> exact hr.1⟩
  | redisDiscard conn =>
    refine hplain (calls_bind (calls_perform fun _ _ ↦ trivial) fun _ ↦ ?_)
    refine calls_bind (calls_perform fun _ _ ↦ trivial) fun fresh ↦ ?_
    rcases fresh with _ | fresh
    · trivial
    · exact calls_perform fun _ _ ↦ trivial
  | _ => exact hplain (calls_perform fun _ _ ↦ trivial)

theorem Errand.steps_inOrder (e : Errand) :
    wp (poolSpec.restrict PoolCall.InOrder) e.steps (fun w _ ↦ w = .nothing) .nothing :=
  wp_expand Call.body_inOrder e.work_inOrder

/-! ## How long it takes -/

/-- The steps of a task are at most so many. -/
def maxSteps : ℕ := 15 * 3

theorem Errand.work_atMost (e : Errand) : AtMost 15 e.work := by
  rcases e with t | key | ⟨key, ttl, value⟩ | key
  · exact ReactorServer.work_atMost t
  · exact atMost_bind (m := 15) (n := 0) (atMost_mono (by omega) (redisGet_atMost key)) fun _ ↦ trivial
  · exact atMost_bind (m := 15) (n := 0) (atMost_mono (by omega) (redisSetex_atMost key ttl value))
      fun _ ↦ trivial
  · exact atMost_bind (m := 15) (n := 0) (atMost_mono (by omega) (redisDel_atMost key)) fun _ ↦ trivial

theorem Call.body_atMost (o : Call) : AtMost 3 o.body := by
  have hone : ∀ o' : PoolCall, AtMost 3 (act o') := fun o' ↦
    atMost_mono (by omega) (atMost_perform o')
  cases o with
  | redisDiscard conn =>
    refine atMost_bind (n := 2) (atMost_perform _) fun _ ↦ ?_
    refine atMost_bind (n := 1) (atMost_perform _) fun fresh ↦ ?_
    rcases fresh with _ | fresh
    · trivial
    · exact atMost_perform _
  | _ => exact hone _

theorem Errand.steps_atMost (e : Errand) : AtMost maxSteps e.steps :=
  atMost_expand Call.body_atMost e.work_atMost

/-! ## Who waits for whom -/

/-- The two pools. -/
inductive Resource where
  | mysql
  | redis
  deriving DecidableEq, Repr

/-- How many pools a worker can still ask while it has a connection of this one. -/
def Resource.rank : Resource → ℕ
  | .mysql => 1
  | .redis => 0

/-- The step of a worker that asks for a connection. -/
def Resource.pop : Resource → PoolCall
  | .mysql => .mysqlPop
  | .redis => .redisPop

namespace Pools

variable {s s' : Pools} {i : ℕ} {out : PoolOutcome} {w : ℕ → Held}

/-- The queue of a pool. -/
def idle (s : Pools) : Resource → List ℕ
  | .mysql => s.mysql.idle
  | .redis => s.redis.idle

/-- The worker is in `getConn`, and the queue is empty. -/
def Waits (s : Pools) (i : ℕ) (k : Resource) : Prop := s.nextCall i = some k.pop ∧ s.idle k = []

/-- A step of a worker that is at something, and nothing goes wrong in it: it does not time out,
throws nothing, and Redis can be connected to. -/
def Goes (s : Pools) : PoolMove → Prop
  | .start .. => False
  | .call i out =>
    (s.fire (.call i out)).isSome = true ∧ out ≠ .timeout ∧ out ≠ .throws ∧ out ≠ .connected false

instance (s : Pools) : ∀ m : PoolMove, Decidable (s.Goes m)
  | .start .. => inferInstanceAs (Decidable False)
  | .call .. => inferInstanceAs (Decidable (_ ∧ _))

/-- The books are exact, everybody asks in order, and has at most so many steps left. -/
structure Account (s₀ s : Pools) (w : ℕ → Held) (left : ℕ → ℕ) : Prop where
  exactly : Exactly s₀ s w
  order : ∀ i p, s.running[i]? = some p →
    wp (poolSpec.restrict PoolCall.InOrder) p (fun w _ ↦ w = .nothing) (w i)
  bound : ∀ i p, s.running[i]? = some p → AtMost (left i) p

/-- What the workers are doing after one of them has gone on. -/
theorem running_set {ps : List (PoolJob PUnit)} {q : PoolJob PUnit} {P : ℕ → PoolJob PUnit → Prop}
    (hq : P i q) (hoff : ∀ j p, j ≠ i → ps[j]? = some p → P j p) :
    ∀ j p, (ps.set i q)[j]? = some p → P j p := by
  intro j p hp
  rw [List.getElem?_set] at hp
  by_cases hj : i = j
  · subst hj
    rw [if_pos rfl] at hp
    obtain ⟨-, e⟩ := Option.ite_none_right_eq_some.mp hp
    obtain rfl := Option.some.inj e
    exact hq
  · rw [if_neg hj] at hp
    exact hoff j p (Ne.symm hj) hp

/-- **A step and the account.** -/
theorem Account.call {s₀ : Pools} (hp₀ : s₀.mysql.handles.Nodup) {left : ℕ → ℕ}
    (h : Account s₀ s w left) (htidy : s.Tidy (.call i out)) (hm : s.fire (.call i out) = some s') :
    i < s.running.length ∧ 0 < left i ∧
      ∃ w', Account s₀ s' w' (Function.update left i (left i - 1)) := by
  obtain ⟨i', e, p, hmove, -⟩ | ⟨i', out', o, next, s₁, r, hmove, hi, hexec, rfl⟩ := fire_cases hm
  · cases hmove
  obtain ⟨rfl, rfl⟩ := PoolMove.call.inj hmove
  have hlt := (List.getElem?_eq_some_iff.mp hi).1
  obtain ⟨hsound, hexact⟩ := h.exactly
  obtain ⟨hpre, hpost⟩ := hsound.keeps i _ hi
  have hchange := exec_change hexec hpre
  have hafter : poolSpec.post (w i) o r ((w i).after o r) := ⟨rfl, exec_noexcept hexec⟩
  have hbound := h.bound i _ hi
  obtain ⟨k, hk⟩ : ∃ k, left i = k + 1 := by
    rcases hleft : left i with _ | k
    · rw [hleft] at hbound
      exact absurd hbound id
    · exact ⟨k, rfl⟩
  rw [hk] at hbound
  refine ⟨hlt, by omega, Function.update w i ((w i).after o r), ⟨⟨?_, ?_⟩, ?_, ?_⟩⟩
  · refine ⟨by rw [List.length_set]; exact hsound.length, ?_, fun j hj ↦ ?_,
      hchange.mysqlBooks hp₀ hsound.mysql, (hchange.redisBooks hsound.redis).running _⟩
    · refine running_set ?_ fun j p hj hp ↦ ?_
      · rw [Function.update_self]
        exact hpost _ r hafter
      · rw [Function.update_of_ne hj]
        exact hsound.keeps j p hp
    · rw [List.length_set] at hj
      rw [Function.update_of_ne (by omega)]
      exact hsound.outside j hj
  · exact hchange.redisExact hsound.redis htidy hexact
  · refine running_set ?_ fun j p hj hp ↦ ?_
    · rw [Function.update_self]
      exact (h.order i _ hi).2 _ r hafter
    · rw [Function.update_of_ne hj]
      exact h.order j p hp
  · refine running_set ?_ fun j p hj hp ↦ ?_
    · rw [Function.update_self, hk]
      exact hbound r
    · rw [Function.update_of_ne hj]
      exact h.bound j p hp

/-- A worker that begins something has nothing, and so asks in order. -/
theorem Account.start {s₀ : Pools} (hp₀ : s₀.mysql.handles.Nodup) {e : Errand}
    (h : Account s₀ s w fun _ ↦ maxSteps) (hm : s.fire (.start i e) = some s') :
    Account s₀ s' w fun _ ↦ maxSteps := by
  obtain ⟨w', hsound, ⟨rfl, hredis, -⟩ | ⟨_, _, _, _, hmove, -⟩⟩ := h.exactly.1.fire hp₀ hm
  swap
  · cases hmove
  obtain ⟨i', e', p, hmove, hi, hdone, rfl⟩ | ⟨_, _, _, _, _, _, hmove, -⟩ := fire_cases hm
  swap
  · cases hmove
  obtain ⟨rfl, rfl⟩ := PoolMove.start.inj hmove
  refine ⟨⟨hsound, h.exactly.2⟩, ?_, ?_⟩
  · refine running_set ?_ fun j p _ hp ↦ h.order j p hp
    rw [h.exactly.1.nothing_of_isDone hi hdone]
    exact e.steps_inOrder
  · exact running_set e.steps_atMost fun j p _ hp ↦ h.bound j p hp

theorem Account.step {s₀ : Pools} (hp₀ : s₀.mysql.handles.Nodup) {m : PoolMove}
    (h : ∃ w, Account s₀ s w fun _ ↦ maxSteps) (htidy : s.Tidy m) :
    ∃ w, Account s₀ (s.step m) w fun _ ↦ maxSteps := by
  obtain ⟨w, hw⟩ := h
  rw [Pools.step]
  rcases hm : s.fire m with _ | s'
  · exact ⟨w, hw⟩
  rcases m with ⟨i, e⟩ | ⟨i, out⟩
  · exact ⟨w, hw.start hp₀ hm⟩
  · obtain ⟨-, -, w', hw'⟩ := hw.call hp₀ htidy hm
    refine ⟨w', hw'.exactly, hw'.order, fun j p hp ↦ atMost_mono ?_ (hw'.bound j p hp)⟩
    by_cases hj : j = i
    · subst hj
      rw [Function.update_self]
      exact Nat.sub_le _ _
    · rw [Function.update_of_ne hj]

theorem init_account (n : ℕ) (mysqlOk redisOk : ℕ → Bool) :
    Account (init n mysqlOk redisOk) (init n mysqlOk redisOk) (fun _ ↦ .nothing)
      fun _ ↦ maxSteps := by
  have hret : ∀ {i : ℕ} {p : PoolJob PUnit}, (init n mysqlOk redisOk).running[i]? = some p →
      p = .ret ⟨⟩ := by
    intro i p hp
    rw [init] at hp
    exact List.eq_of_mem_replicate (List.mem_of_getElem? hp)
  refine ⟨init_exactly n mysqlOk redisOk, fun i p hp ↦ ?_, fun i p hp ↦ ?_⟩
  · rw [hret hp]
    exact rfl
  · rw [hret hp]
    trivial

/-! ## Somebody can go on -/

/-- The worker is at something. -/
def AtWork (s : Pools) (i : ℕ) : Prop := ∃ o, s.nextCall i = some o

theorem Sound.atWork {s₀ : Pools} (h : Sound s₀ s w) (hi : w i ≠ .nothing) : s.AtWork i := by
  rcases hp : s.running[i]? with _ | p
  · exact absurd (h.outside i (List.getElem?_eq_none_iff.mp hp)) hi
  rcases p with a | _ | ⟨o, next⟩
  · exact absurd (h.nothing_of_isDone hp rfl) hi
  · exact absurd (h.nothing_of_isDone hp rfl) hi
  · exact ⟨o, nextCall_eq_some_iff.mpr ⟨next, hp⟩⟩

/-- **Whoever has a Redis context, or owes one, is not waiting.** -/
theorem Account.not_waits {s₀ : Pools} {left : ℕ → ℕ} (h : Account s₀ s w left)
    (hi : (w i).redis ≠ none ∨ (w i).owes = true) (k : Resource) : ¬s.Waits i k := by
  intro hwait
  rcases k with _ | _
  · obtain ⟨next, hp⟩ := nextCall_eq_some_iff.mp hwait.1
    obtain ⟨hredis, howes⟩ := (h.order i _ hp).1.2
    rcases hi with hi | hi
    · exact hi hredis
    · exact absurd (howes.symm.trans hi) Bool.false_ne_true
  · obtain ⟨next, hp⟩ := nextCall_eq_some_iff.mp hwait.1
    obtain ⟨hredis, howes⟩ := (h.order i _ hp).1
    rcases hi with hi | hi
    · exact hi hredis
    · exact absurd (Eq.trans (Eq.symm howes) hi) Bool.false_ne_true

/-- **Whoever waits, waits for somebody** who is at work, and can only be waiting for a later pool. -/
theorem Account.holder {s₀ : Pools} {left : ℕ → ℕ} (h : Account s₀ s w left)
    (hmysql : s₀.mysql.handles ≠ []) (hredis : 0 < s.capacity) {k : Resource} (hi : s.Waits i k) :
    ∃ j, s.AtWork j ∧ ∀ k', s.Waits j k' → k'.rank < k.rank := by
  obtain ⟨hsound, hexact⟩ := h.exactly
  have hfree : ∀ {j}, (w j).redis ≠ none ∨ (w j).owes = true →
      ∃ j, s.AtWork j ∧ ∀ k', s.Waits j k' → k'.rank < k.rank := by
    intro j hj
    refine ⟨j, hsound.atWork ?_, fun k' hk' ↦ absurd hk' (h.not_waits hj k')⟩
    intro hnothing
    rw [hnothing] at hj
    exact hj.elim (fun hne ↦ hne rfl) Bool.false_ne_true
  rcases k with _ | _
  · have hne : s.mysql.handles ≠ [] := fun hnil ↦
      hmysql (List.nil_perm.mp (hnil ▸ hsound.mysql.perm))
    have hidle : s.mysql.idle = [] := hi.2
    rw [HandlePool.handles, hidle, List.nil_append, Ne, List.map_eq_nil_iff] at hne
    obtain ⟨⟨j, conn⟩, hmem⟩ := List.exists_mem_of_ne_nil _ hne
    have hheld : (w j).mysql = some conn := hsound.mysql.exact j conn hmem
    refine ⟨j, hsound.atWork fun hnothing ↦ ?_, fun k' hk' ↦ ?_⟩
    · rw [hnothing] at hheld
      cases hheld
    rcases k' with _ | _
    · obtain ⟨next, hp⟩ := nextCall_eq_some_iff.mp hk'.1
      cases (hsound.keeps j _ hp).1.symm.trans hheld
    · exact Nat.zero_lt_one
  · have hidle : s.redis.idle = [] := hi.2
    rw [capacity, HandlePool.length_handles, hidle, List.length_nil, Nat.zero_add] at hredis
    by_cases hleased : s.redis.leased = []
    · rw [hleased, List.length_nil, Nat.zero_add] at hredis
      obtain ⟨j, hj⟩ := List.exists_mem_of_length_pos hredis
      exact hfree (.inr ((hsound.redis.mem_owing j).mp hj))
    · obtain ⟨⟨j, conn⟩, hmem⟩ := List.exists_mem_of_ne_nil _ hleased
      have hheld : (w j).redis = some conn := hexact j conn hmem
      exact hfree (.inl (hheld ▸ Option.some_ne_none conn))

/-- A worker that asks for a connection gets one if there is one. -/
theorem isSome_fire_pop {k : Resource} (ho : s.nextCall i = some k.pop) (hidle : s.idle k ≠ []) :
    (s.fire (.call i .served)).isSome = true := by
  obtain ⟨next, hp⟩ := nextCall_eq_some_iff.mp ho
  have htake : ∀ {p : HandlePool ℕ ℕ}, p.idle ≠ [] → (p.take i).isSome = true := by
    intro p hidle
    rw [Option.isSome_iff_ne_none, Ne, HandlePool.take_eq_none_iff]
    exact hidle
  rw [fire, hp]
  rcases k with _ | _
  · simpa [exec, Resource.pop] using htake hidle
  · simpa [exec, Resource.pop] using htake hidle

/-- A worker that is not waiting can make its step. -/
theorem exists_goes_of_not_waits {o : PoolCall} (ho : s.nextCall i = some o)
    (hi : ∀ k, ¬s.Waits i k) : ∃ out, s.Goes (.call i out) := by
  obtain ⟨next, hp⟩ := nextCall_eq_some_iff.mp ho
  have hgo : ∀ out, (s.exec i o out).isSome = true → out ≠ .timeout → out ≠ .throws →
      out ≠ .connected false → ∃ out, s.Goes (.call i out) := by
    intro out hsome htimeout hthrows hconnected
    refine ⟨out, ?_, htimeout, hthrows, hconnected⟩
    rw [fire, hp]
    simpa using hsome
  cases o with
  | redisPop =>
    have hidle : s.idle .redis ≠ [] := fun hnil ↦ hi .redis ⟨ho, hnil⟩
    exact ⟨.served, isSome_fire_pop (k := .redis) ho hidle, by simp, by simp, by simp⟩
  | mysqlPop =>
    have hidle : s.idle .mysql ≠ [] := fun hnil ↦ hi .mysql ⟨ho, hnil⟩
    exact ⟨.served, isSome_fire_pop (k := .mysql) ho hidle, by simp, by simp, by simp⟩
  | createConn => exact hgo (.connected true) rfl (by simp) (by simp) (by simp)
  | redisCommand conn cmd => exact hgo (.reply none) (by cases cmd <;> rfl) (by simp) (by simp) (by simp)
  | mysqlQuery conn sql => exact hgo (.result .failed) rfl (by simp) (by simp) (by simp)
  | generateToken => exact hgo (.token []) rfl (by simp) (by simp) (by simp)
  | redisPush conn => exact hgo .served rfl (by simp) (by simp) (by simp)
  | redisFree conn => exact hgo .served rfl (by simp) (by simp) (by simp)
  | mysqlPush conn => exact hgo .served rfl (by simp) (by simp) (by simp)
  | send statusCode body => exact hgo .served rfl (by simp) (by simp) (by simp)

/-- **There is no deadlock**: if anybody is at work, somebody is not waiting. -/
theorem Account.exists_not_waits {s₀ : Pools} {left : ℕ → ℕ} (h : Account s₀ s w left)
    (hmysql : s₀.mysql.handles ≠ []) (hredis : 0 < s.capacity) (hbusy : ¬s.Quiet) :
    ∃ i, s.AtWork i ∧ ∀ k, ¬s.Waits i k := by
  obtain ⟨i, hi⟩ : ∃ i, s.AtWork i := by
    simp only [Quiet, not_forall] at hbusy
    obtain ⟨p, hp, hdone⟩ := hbusy
    obtain ⟨i, hi⟩ := List.mem_iff_getElem?.mp hp
    rcases p with a | _ | ⟨o, next⟩
    · exact absurd rfl hdone
    · exact absurd rfl hdone
    · exact ⟨i, o, nextCall_eq_some_iff.mpr ⟨next, hi⟩⟩
  exact HandlePool.exists_not_waiting (measure Resource.rank).wf
    (fun i k _ hik ↦ h.holder hmysql hredis hik) hi

/-! ## Where it begins, and how much is left -/

theorem init_mysql_handles {n : ℕ} {mysqlOk redisOk : ℕ → Bool}
    (h : ∃ k < kDbMaxConn, mysqlOk k = true) : (init n mysqlOk redisOk).mysql.handles ≠ [] := by
  obtain ⟨k, hk, hok⟩ := h
  have hmem : k ∈ (List.range kDbMaxConn).filter mysqlOk :=
    List.mem_filter.mpr ⟨List.mem_range.mpr hk, hok⟩
  rw [HandlePool.handles]
  exact List.append_ne_nil_of_left_ne_nil (List.ne_nil_of_mem hmem) _

theorem sum_update_pred {n : ℕ} {left : ℕ → ℕ} (hi : i < n) (hpos : 0 < left i) :
    ∑ j ∈ Finset.range n, Function.update left i (left i - 1) j + 1 = ∑ j ∈ Finset.range n, left j := by
  have hi := Finset.mem_range.mpr hi
  rw [Finset.sum_update_of_mem hi, Finset.sum_eq_add_sum_sdiff_singleton_of_mem hi left]
  omega

end Pools

end ReactorServer
