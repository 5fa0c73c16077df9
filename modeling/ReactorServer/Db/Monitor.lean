import ReactorServer.Db.Waiting
import ReactorServer.Threads.Pool

/-!
# The pools as monitors

`Pools` lets a worker take a connection off a queue in a single step, or time out.  In the code
`getConn` is a wait on a condition variable.  The worker takes the lock and looks; if the queue is
empty it falls asleep, until it is notified, or for no reason, or because its time is up; then it
takes the lock and looks again.  `releaseConn` and `discardBrokenConn` push their connection and call
`notify_one` under the lock, but the worker that is woken does not get the connection: others may come
first, and then it finds the queue empty and falls asleep once more.

`Monitors` is the two pools like this, with `Pools` inside it: each of its moves is a move of `Pools`
or none at all.  That a notification could go astray is the one thing that `Pools` does not know
about.  It does not happen: while anybody is asleep at a pool, there are as many awake there as there
are connections in the queue (`no_lost_wakeup`).  So the workers come to an end here too, without a
timeout and without a spurious wake-up (`monitors_finish`).
-/

set_option autoImplicit false

namespace ReactorServer

open Program Machine

/-! ## The monitors -/

/-- Where a worker is in `wait_for`. -/
inductive Rest where
  /-- Nowhere. -/
  | out
  | asleep (k : Resource)
  /-- It has been woken, and is about to take the lock. -/
  | awake (k : Resource) (timedOut : Bool)
  deriving DecidableEq, Repr

/-- The pool it is at. -/
def Rest.pool : Rest → Option Resource
  | .out => none
  | .asleep k => some k
  | .awake k _ => some k

def Rest.isAwake (k : Resource) : Rest → Bool
  | .awake k' _ => k' = k
  | _ => false

def Rest.isUp : Rest → Bool
  | .asleep _ => false
  | _ => true

/-- The pool that a step asks for a connection. -/
def PoolCall.asks : PoolCall → Option Resource
  | .mysqlPop => some .mysql
  | .redisPop => some .redis
  | _ => none

/-- The pool that a step gives a connection to. -/
def PoolCall.gives : PoolCall → Option Resource
  | .mysqlPush _ => some .mysql
  | .redisPush _ => some .redis
  | _ => none

/-- The pools, and where every worker is. -/
structure Monitors where
  pools : Pools
  rests : List Rest

/-- The moves. -/
inductive MonitorMove where
  /-- Worker `i` is given something to do. -/
  | start (i : ℕ) (e : Errand)
  /-- It makes a step other than to ask for a connection; if it gives one back, it notifies. -/
  | call (i : ℕ) (out : PoolOutcome) (notified : Option ℕ)
  /-- It enters `getConn`, takes the lock and looks. -/
  | lock (i : ℕ)
  /-- It wakes up in `wait_for`, without having been notified. -/
  | wake (i : ℕ) (timedOut : Bool)
  /-- It takes the lock again, and looks. -/
  | look (i : ℕ)
  /-- `getConn` throws: it cannot take the lock to begin with, or fails to report the timeout. -/
  | fail (i : ℕ)
  deriving DecidableEq, Repr

namespace Monitors

/-- The constructors of the pools. -/
def init (workers : ℕ) (mysqlOk redisOk : ℕ → Bool) : Monitors :=
  ⟨.init workers mysqlOk redisOk, List.replicate workers .out⟩

/-- `notify_one`, if there is something to notify of: it wakes one of those that are asleep. -/
def notify (s : Monitors) : Option Resource → Option ℕ → Option (List Rest)
  | none, none => some s.rests
  | none, some _ => none
  | some k, none => if .asleep k ∈ s.rests then none else some s.rests
  | some k, some j => if s.rests[j]? = some (.asleep k) then some (s.rests.set j (.awake k false)) else none

/-- Worker `i` looks into the queue: it takes a connection, or stays in `wait_for`, or gives up. -/
def look (s : Monitors) (i : ℕ) (k : Resource) (timedOut : Bool) : Option Monitors :=
  if s.pools.idle k ≠ [] then
    (s.pools.fire (.call i .served)).map fun p ↦ ⟨p, s.rests.set i .out⟩
  else if timedOut then
    (s.pools.fire (.call i .timeout)).map fun p ↦ ⟨p, s.rests.set i .out⟩
  else some ⟨s.pools, s.rests.set i (.asleep k)⟩

/-- A move, if it is possible. -/
def fire (s : Monitors) : MonitorMove → Option Monitors
  | .start i e => (s.pools.fire (.start i e)).map fun p ↦ ⟨p, s.rests⟩
  | .call i out notified =>
    match s.pools.nextCall i with
    | none => none
    | some o =>
      if o.asks ≠ none then none
      else
        (s.pools.fire (.call i out)).bind fun p ↦
          (s.notify (if out = .served then o.gives else none) notified).map fun rests ↦ ⟨p, rests⟩
  | .lock i =>
    match (s.pools.nextCall i).bind PoolCall.asks, s.rests[i]? with
    | some k, some .out => s.look i k false
    | _, _ => none
  | .wake i timedOut =>
    match s.rests[i]? with
    | some (.asleep k) => some ⟨s.pools, s.rests.set i (.awake k timedOut)⟩
    | _ => none
  | .look i =>
    match s.rests[i]? with
    | some (.awake k timedOut) => s.look i k timedOut
    | _ => none
  | .fail i =>
    match (s.pools.nextCall i).bind PoolCall.asks, s.rests[i]? with
    | some _, some .out => (s.pools.fire (.call i .throws)).map fun p ↦ ⟨p, s.rests.set i .out⟩
    | some k, some (.awake _ true) =>
      if s.pools.idle k = [] then
        (s.pools.fire (.call i .throws)).map fun p ↦ ⟨p, s.rests.set i .out⟩
      else none
    | _, _ => none

/-- A move; one that is not possible leaves everything alone. -/
def step (s : Monitors) (m : MonitorMove) : Monitors := (s.fire m).getD s

/-- A run. -/
def run (s : Monitors) (ms : List MonitorMove) : Monitors := ms.foldl step s

end Monitors

/-! ## What a move does -/

theorem PoolCall.asks_eq_some_iff {o : PoolCall} {k : Resource} : o.asks = some k ↔ o = k.pop := by
  cases o <;> cases k <;> simp [PoolCall.asks, Resource.pop]

namespace Pools

variable {s s' : Pools} {i : ℕ} {out : PoolOutcome}

/-- A step of a worker is not one of another. -/
theorem nextCall_fire_call (h : s.fire (.call i out) = some s') :
    s'.running.length = s.running.length ∧ ∀ j, j ≠ i → s'.nextCall j = s.nextCall j := by
  obtain ⟨i', e, p, hmove, -⟩ | ⟨i', out', o, next, s₁, r, hmove, hi, hexec, rfl⟩ := fire_cases h
  · cases hmove
  obtain ⟨rfl, rfl⟩ := PoolMove.call.inj hmove
  refine ⟨List.length_set, fun j hj ↦ ?_⟩
  rw [nextCall, nextCall, List.getElem?_set_ne (Ne.symm hj)]

theorem nextCall_fire_start {e : Errand} (h : s.fire (.start i e) = some s') :
    s'.running.length = s.running.length ∧ s.nextCall i = none ∧
      (∀ j, j ≠ i → s'.nextCall j = s.nextCall j) ∧ ∀ k, s'.idle k = s.idle k := by
  obtain ⟨i', e', p, hmove, hi, hdone, rfl⟩ | ⟨i', out', o, next, s₁, r, hmove, -⟩ := fire_cases h
  swap
  · cases hmove
  obtain ⟨rfl, rfl⟩ := PoolMove.start.inj hmove
  refine ⟨List.length_set, ?_, fun j hj ↦ ?_, fun k ↦ by cases k <;> rfl⟩
  · rw [nextCall, hi]
    rcases p with a | _ | ⟨o, next⟩
    · rfl
    · rfl
    · cases hdone
  · rw [nextCall, nextCall, List.getElem?_set_ne (Ne.symm hj)]

/-- **What a step does to the queues**: it takes a connection, or adds one, or leaves them alone. -/
theorem length_idle_fire {o : PoolCall} (ho : s.nextCall i = some o)
    (h : s.fire (.call i out) = some s') (k : Resource) :
    (s'.idle k).length + (if out = .served ∧ o.asks = some k then 1 else 0) =
      (s.idle k).length + (if out = .served ∧ o.gives = some k then 1 else 0) := by
  obtain ⟨next, hp⟩ := nextCall_eq_some_iff.mp ho
  obtain ⟨i', e, p, hmove, -⟩ | ⟨i', out', o', next', s₁, r, hmove, hi, hexec, rfl⟩ := fire_cases h
  · cases hmove
  obtain ⟨rfl, rfl⟩ := PoolMove.call.inj hmove
  obtain ⟨rfl, -⟩ : o = o' ∧ _ := by simpa using hp.symm.trans hi
  show (s₁.idle k).length + _ = _
  cases o with
  | redisPop =>
    cases out with
    | served =>
      obtain ⟨⟨conn, p⟩, htake, e⟩ := Option.map_eq_some_iff.mp hexec
      obtain ⟨rest, hidle, rfl⟩ := HandlePool.take_eq_some_iff.mp htake
      cases e
      cases k <;> simp [idle, hidle, PoolCall.asks, PoolCall.gives]
    | timeout =>
      rw [exec] at hexec
      obtain ⟨-, e⟩ := Option.ite_none_right_eq_some.mp hexec
      cases e
      simp
    | throws =>
      cases hexec
      simp
    | _ => cases hexec
  | mysqlPop =>
    cases out with
    | served =>
      obtain ⟨⟨conn, p⟩, htake, e⟩ := Option.map_eq_some_iff.mp hexec
      obtain ⟨rest, hidle, rfl⟩ := HandlePool.take_eq_some_iff.mp htake
      cases e
      cases k <;> simp [idle, hidle, PoolCall.asks, PoolCall.gives]
    | timeout =>
      rw [exec] at hexec
      obtain ⟨-, e⟩ := Option.ite_none_right_eq_some.mp hexec
      cases e
      simp
    | throws =>
      cases hexec
      simp
    | _ => cases hexec
  | redisCommand conn cmd =>
    cases out with
    | reply r =>
      cases hexec
      simp
    | throws =>
      cases cmd with
      | get key =>
        cases hexec
        simp
      | _ => cases hexec
    | _ => cases cmd <;> cases hexec
  | createConn =>
    cases out with
    | connected ok =>
      cases ok with
      | true =>
        cases hexec
        cases k <;> simp [idle, HandlePool.lend]
      | false =>
        cases hexec
        cases k <;> simp [idle]
    | throws =>
      cases hexec
      cases k <;> simp [idle]
    | _ => cases hexec
  | _ =>
    cases out <;> cases hexec <;> cases k <;>
      simp [idle, HandlePool.put, HandlePool.drop, PoolCall.asks, PoolCall.gives]

end Pools

/-- A list with one entry replaced, and how many of its entries have a property. -/
theorem countP_set_add {γ : Type} {l : List γ} {i : ℕ} {a b : γ} (p : γ → Bool) (hi : l[i]? = some a) :
    (l.set i b).countP p + (p a).toNat = l.countP p + (p b).toNat := by
  obtain ⟨rest, hold, hnew⟩ := exists_perm_set hi
  have hcons : ∀ c : γ, (c :: rest).countP p = rest.countP p + (p c).toNat := by
    intro c
    rw [List.countP_cons]
    cases p c <;> rfl
  rw [hold.countP_eq, (hnew b).countP_eq, hcons, hcons]
  omega

namespace Monitors

variable {s s' : Monitors}

/-- **What a move can be.** -/
inductive Shift (s : Monitors) : MonitorMove → Monitors → Prop
  | start {i : ℕ} {e : Errand} {p : Pools} (hp : s.pools.fire (.start i e) = some p) :
      Shift s (.start i e) ⟨p, s.rests⟩
  /-- A step that has nothing to do with the queues. -/
  | call {i : ℕ} {out : PoolOutcome} {o : PoolCall} {p : Pools} (ho : s.pools.nextCall i = some o)
      (hasks : o.asks = none) (hgives : out = .served → o.gives = none)
      (hp : s.pools.fire (.call i out) = some p) : Shift s (.call i out none) ⟨p, s.rests⟩
  /-- A connection is given back, and somebody is woken. -/
  | notify {i j : ℕ} {o : PoolCall} {k : Resource} {p : Pools} (ho : s.pools.nextCall i = some o)
      (hasks : o.asks = none) (hgives : o.gives = some k) (hp : s.pools.fire (.call i .served) = some p)
      (hj : s.rests[j]? = some (.asleep k)) :
      Shift s (.call i .served (some j)) ⟨p, s.rests.set j (.awake k false)⟩
  /-- A connection is given back, and nobody is asleep. -/
  | miss {i : ℕ} {o : PoolCall} {k : Resource} {p : Pools} (ho : s.pools.nextCall i = some o)
      (hasks : o.asks = none) (hgives : o.gives = some k) (hp : s.pools.fire (.call i .served) = some p)
      (hnone : .asleep k ∉ s.rests) : Shift s (.call i .served none) ⟨p, s.rests⟩
  /-- A worker looks, and takes a connection. -/
  | take {m : MonitorMove} {i : ℕ} {k : Resource} {r : Rest} {p : Pools}
      (ho : s.pools.nextCall i = some k.pop)
      (hr : s.rests[i]? = some r) (hup : r = .out ∧ m = .lock i ∨ (∃ t, r = .awake k t) ∧ m = .look i)
      (hp : s.pools.fire (.call i .served) = some p) : Shift s m ⟨p, s.rests.set i .out⟩
  /-- It looks, and falls asleep. -/
  | sleep {m : MonitorMove} {i : ℕ} {k : Resource} {r : Rest} (ho : s.pools.nextCall i = some k.pop)
      (hr : s.rests[i]? = some r)
      (hup : r = .out ∧ m = .lock i ∨ r = .awake k false ∧ m = .look i)
      (hidle : s.pools.idle k = []) : Shift s m ⟨s.pools, s.rests.set i (.asleep k)⟩
  | wake {i : ℕ} {k : Resource} {t : Bool} (hr : s.rests[i]? = some (.asleep k)) :
      Shift s (.wake i t) ⟨s.pools, s.rests.set i (.awake k t)⟩
  /-- It gives up, or `getConn` throws. -/
  | giveUp {m : MonitorMove} {i : ℕ} {k : Resource} {r : Rest} {out : PoolOutcome} {p : Pools}
      (ho : s.pools.nextCall i = some k.pop) (hr : s.rests[i]? = some r)
      (hup : r = .out ∨ r = .awake k true ∧ s.pools.idle k = [])
      (hout : out = .timeout ∧ m = .look i ∨ out = .throws ∧ m = .fail i)
      (hp : s.pools.fire (.call i out) = some p) : Shift s m ⟨p, s.rests.set i .out⟩

variable {m : MonitorMove}

/-- **What holds in every state.** -/
structure Inv (s : Monitors) : Prop where
  length : s.rests.length = s.pools.running.length
  /-- A worker that is in `wait_for` is asking for a connection. -/
  asking : ∀ i r k, s.rests[i]? = some r → r.pool = some k → s.pools.nextCall i = some k.pop
  /-- While anybody is asleep, somebody is awake for every connection in the queue. -/
  noLost : ∀ k, .asleep k ∈ s.rests → (s.pools.idle k).length ≤ s.rests.countP (Rest.isAwake k)

theorem shift_look {i : ℕ} {k : Resource} {r : Rest} {t : Bool} (h : s.look i k t = some s')
    (ho : s.pools.nextCall i = some k.pop) (hr : s.rests[i]? = some r)
    (hup : r = .out ∧ t = false ∧ m = .lock i ∨ r = .awake k t ∧ m = .look i) : Shift s m s' := by
  rw [look] at h
  by_cases hidle : s.pools.idle k = []
  · rw [if_neg (not_not.mpr hidle)] at h
    cases t with
    | true =>
      obtain ⟨rfl, hm⟩ : r = .awake k true ∧ m = .look i := hup.resolve_left (by simp)
      obtain ⟨p, hp, rfl⟩ := Option.map_eq_some_iff.mp h
      exact .giveUp ho hr (.inr ⟨rfl, hidle⟩) (.inl ⟨rfl, hm⟩) hp
    | false =>
      obtain rfl := Option.some.inj h
      exact .sleep ho hr (hup.imp_left fun h ↦ ⟨h.1, h.2.2⟩) hidle
  · rw [if_pos hidle] at h
    obtain ⟨p, hp, rfl⟩ := Option.map_eq_some_iff.mp h
    exact .take ho hr (hup.imp (fun h ↦ ⟨h.1, h.2.2⟩) fun h ↦ ⟨⟨t, h.1⟩, h.2⟩) hp

theorem Inv.shift (h : s.Inv) (hm : s.fire m = some s') : Shift s m s' := by
  have hpop : ∀ {i : ℕ} {k : Resource}, (s.pools.nextCall i).bind PoolCall.asks = some k →
      s.pools.nextCall i = some k.pop := by
    intro i k hk
    obtain ⟨o, ho, hasks⟩ := Option.bind_eq_some_iff.mp hk
    rw [ho, PoolCall.asks_eq_some_iff.mp hasks]
  cases m with
  | start i e =>
    obtain ⟨p, hp, rfl⟩ := Option.map_eq_some_iff.mp hm
    exact .start hp
  | call i out notified =>
    rw [fire] at hm
    rcases ho : s.pools.nextCall i with _ | o
    · rw [ho] at hm
      cases hm
    rw [ho] at hm
    dsimp only at hm
    by_cases hasks : o.asks = none
    swap
    · rw [if_pos hasks] at hm
      cases hm
    rw [if_neg (not_not.mpr hasks)] at hm
    obtain ⟨p, hp, hm⟩ := Option.bind_eq_some_iff.mp hm
    obtain ⟨rests, hrests, rfl⟩ := Option.map_eq_some_iff.mp hm
    rcases hgives : (if out = .served then o.gives else none) with _ | k
    · rw [hgives] at hrests
      rcases notified with _ | j
      · obtain rfl := Option.some.inj hrests
        refine .call ho hasks (fun hout ↦ ?_) hp
        rw [if_pos hout] at hgives
        exact hgives
      · cases hrests
    · rw [hgives] at hrests
      obtain ⟨rfl, hgives⟩ := Option.ite_none_right_eq_some.mp hgives
      rcases notified with _ | j
      · obtain ⟨hnone, e⟩ := Option.ite_none_left_eq_some.mp hrests
        obtain rfl := Option.some.inj e
        exact .miss ho hasks hgives hp hnone
      · obtain ⟨hj, e⟩ := Option.ite_none_right_eq_some.mp hrests
        obtain rfl := Option.some.inj e
        exact .notify ho hasks hgives hp hj
  | lock i =>
    rw [fire] at hm
    split at hm
    · next k hk hr => exact shift_look hm (hpop hk) hr (.inl ⟨rfl, rfl, rfl⟩)
    · cases hm
  | wake i t =>
    rw [fire] at hm
    split at hm
    · next k hr =>
      obtain rfl := Option.some.inj hm
      exact .wake hr
    · cases hm
  | look i =>
    rw [fire] at hm
    split at hm
    · next k t hr => exact shift_look hm (h.asking i _ k hr rfl) hr (.inr ⟨rfl, rfl⟩)
    · cases hm
  | fail i =>
    rw [fire] at hm
    split at hm
    · next k hk hr =>
      obtain ⟨p, hp, rfl⟩ := Option.map_eq_some_iff.mp hm
      exact .giveUp (hpop hk) hr (.inl rfl) (.inr ⟨rfl, rfl⟩) hp
    · next k k' hk hr =>
      obtain ⟨hidle, hm⟩ := Option.ite_none_right_eq_some.mp hm
      obtain ⟨p, hp, rfl⟩ := Option.map_eq_some_iff.mp hm
      obtain rfl : k' = k := by
        have hask := (hpop hk).symm.trans (h.asking i _ k' hr rfl)
        cases k <;> cases k' <;> simp_all [Resource.pop]
      exact .giveUp (hpop hk) hr (.inr ⟨rfl, hidle⟩) (.inr ⟨rfl, rfl⟩) hp
    · cases hm

/-! ## No wake-up is lost -/

theorem inv_init (n : ℕ) (mysqlOk redisOk : ℕ → Bool) : (init n mysqlOk redisOk).Inv where
  length := List.length_replicate.trans List.length_replicate.symm
  asking i r k hr hk := by
    obtain rfl : r = .out := List.eq_of_mem_replicate (List.mem_of_getElem? hr)
    cases hk
  noLost k hk := by cases List.eq_of_mem_replicate hk

/-- A worker that has made a step is not in `wait_for`, and the others are where they were. -/
theorem Inv.asking_call {i : ℕ} {out : PoolOutcome} {p : Pools} {rests : List Rest} (h : s.Inv)
    (hp : s.pools.fire (.call i out) = some p) (hi : ∀ r, rests[i]? = some r → r.pool = none)
    (hoff : ∀ j r k, j ≠ i → rests[j]? = some r → r.pool = some k →
      ∃ r', s.rests[j]? = some r' ∧ r'.pool = some k) :
    ∀ j r k, rests[j]? = some r → r.pool = some k → p.nextCall j = some k.pop := by
  intro j r k hr hk
  by_cases hj : j = i
  · subst hj
    rw [hi r hr] at hk
    cases hk
  · obtain ⟨r', hr', hk'⟩ := hoff j r k hj hr hk
    rw [(Pools.nextCall_fire_call hp).2 j hj]
    exact h.asking j r' k hr' hk'

/-- A worker that makes a step other than to ask for a connection is not in `wait_for`. -/
theorem Inv.pool_eq_none {i : ℕ} {o : PoolCall} (h : s.Inv) (ho : s.pools.nextCall i = some o)
    (hasks : o.asks = none) {r : Rest} (hr : s.rests[i]? = some r) : r.pool = none := by
  rcases hk : r.pool with _ | k
  · rfl
  · obtain rfl : o = k.pop := Option.some.inj (ho.symm.trans (h.asking i r k hr hk))
    rw [PoolCall.asks_eq_some_iff.mpr rfl] at hasks
    cases hasks

theorem mem_of_mem_set {rests : List Rest} {i : ℕ} {r : Rest} {k : Resource}
    (h : .asleep k ∈ rests.set i r) (hr : r ≠ .asleep k) : .asleep k ∈ rests :=
  (List.mem_or_eq_of_mem_set h).resolve_right (Ne.symm hr)

/-- The one who wakes up, or leaves, is the one it is about. -/
theorem asking_set {rests : List Rest} {i : ℕ} {b : Rest} (j : ℕ) (r : Rest) (k : Resource)
    (hj : j ≠ i) (hr : (rests.set i b)[j]? = some r) (hk : r.pool = some k) :
    ∃ r', rests[j]? = some r' ∧ r'.pool = some k := by
  rw [List.getElem?_set_ne (Ne.symm hj)] at hr
  exact ⟨r, hr, hk⟩

theorem pool_set_out {rests : List Rest} {i : ℕ} (r : Rest) (hr : (rests.set i .out)[i]? = some r) :
    r.pool = none := by
  rw [List.getElem?_set] at hr
  rw [if_pos rfl] at hr
  obtain ⟨-, e⟩ := Option.ite_none_right_eq_some.mp hr
  rw [← Option.some.inj e]
  rfl

/-- **The wake-up invariant.** -/
theorem Inv.noLost_shift (h : s.Inv) (hm : Shift s m s') (k : Resource) (hk : .asleep k ∈ s'.rests) :
    (s'.pools.idle k).length ≤ s'.rests.countP (Rest.isAwake k) := by
  cases hm with
  | start hp =>
    rw [(Pools.nextCall_fire_start hp).2.2.2 k]
    exact h.noLost k hk
  | @call i out o p ho hasks hgives hp =>
    have hidle := Pools.length_idle_fire ho hp k
    have hnone : ¬(out = .served ∧ o.gives = some k) := fun ⟨hout, hgive⟩ ↦ by
      rw [hgives hout] at hgive
      cases hgive
    rw [if_neg hnone, hasks, if_neg (by simp)] at hidle
    exact hidle.trans_le (h.noLost k hk)
  | @notify i j o k' p ho hasks hgives hp hj =>
    -- one connection more, and one worker awake more
    have hidle := Pools.length_idle_fire ho hp k
    have hcount := countP_set_add (b := .awake k' false) (Rest.isAwake k) hj
    have hold := h.noLost k (mem_of_mem_set hk (by simp))
    rw [hasks, hgives, if_neg (by simp)] at hidle
    by_cases hkk : k' = k
    · subst hkk
      simp only [Rest.isAwake, decide_true, Bool.toNat_true, Bool.toNat_false, and_self, if_true] at *
      omega
    · rw [if_neg (by simpa using hkk)] at hidle
      simp only [Rest.isAwake, hkk, decide_false, Bool.toNat_false] at hcount
      dsimp only at hidle ⊢
      omega
  | @miss i o k' p ho hasks hgives hp hnone =>
    have hidle := Pools.length_idle_fire ho hp k
    have hkk : k' ≠ k := by
      rintro rfl
      exact hnone hk
    rw [hasks, hgives, if_neg (by simp), if_neg (by simpa using hkk)] at hidle
    exact hidle.trans_le (h.noLost k hk)
  | @take m i k' r p ho hr hup hp =>
    -- one connection less, and at most one worker awake less
    have hidle := Pools.length_idle_fire ho hp k
    have hcount := countP_set_add (b := .out) (Rest.isAwake k) hr
    have hold := h.noLost k (mem_of_mem_set hk (by simp))
    have hgives : ¬(PoolOutcome.served = .served ∧ k'.pop.gives = some k) := by
      cases k' <;> simp [Resource.pop, PoolCall.gives]
    rw [if_neg hgives, PoolCall.asks_eq_some_iff.mpr rfl] at hidle
    have hr' : (r.isAwake k).toNat ≤ if PoolOutcome.served = .served ∧ some k' = some k then 1 else 0 := by
      rcases hup with ⟨rfl, -⟩ | ⟨⟨t, rfl⟩, -⟩
      · exact Nat.zero_le _
      · by_cases hkk : k' = k <;> simp [Rest.isAwake, hkk]
    have hout : (Rest.isAwake k .out).toNat = 0 := rfl
    dsimp only at hidle ⊢
    omega
  | @sleep m i k' r ho hr hup hidle =>
    by_cases hkk : k' = k
    · subst hkk
      rw [hidle]
      exact Nat.zero_le _
    · have hcount := countP_set_add (b := .asleep k') (Rest.isAwake k) hr
      have hold := h.noLost k (mem_of_mem_set hk (by simpa using hkk))
      have hr' : (r.isAwake k).toNat = 0 := by
        rcases hup with ⟨rfl, -⟩ | ⟨rfl, -⟩
        · rfl
        · simp [Rest.isAwake, hkk]
      have hasleep : (Rest.isAwake k (.asleep k')).toNat = 0 := rfl
      dsimp only
      omega
  | @wake i k' t hr =>
    have hcount := countP_set_add (b := .awake k' t) (Rest.isAwake k) hr
    have hold := h.noLost k (mem_of_mem_set hk (by simp))
    have hr' : (Rest.isAwake k (.asleep k')).toNat = 0 := rfl
    dsimp only
    omega
  | @giveUp m i k' r out p ho hr hup hout hp =>
    have hidle := Pools.length_idle_fire ho hp k
    have hcount := countP_set_add (b := .out) (Rest.isAwake k) hr
    have hold := h.noLost k (mem_of_mem_set hk (by simp))
    have hserved : out ≠ .served := by
      rcases hout with ⟨rfl, -⟩ | ⟨rfl, -⟩ <;> simp
    rw [if_neg fun e ↦ hserved e.1, if_neg fun e ↦ hserved e.1] at hidle
    have hr' : (r.isAwake k).toNat = 0 ∨ (s.pools.idle k).length = 0 := by
      rcases hup with rfl | ⟨rfl, hnil⟩
      · exact .inl rfl
      · by_cases hkk : k' = k
        · subst hkk
          rw [hnil]
          exact .inr rfl
        · exact .inl (by simp [Rest.isAwake, hkk])
    have hnone : (Rest.isAwake k .out).toNat = 0 := rfl
    dsimp only at hidle ⊢
    omega

theorem Inv.asking_shift (h : s.Inv) (hm : Shift s m s') :
    ∀ i r k, s'.rests[i]? = some r → r.pool = some k → s'.pools.nextCall i = some k.pop := by
  cases hm with
  | @start i e p hp =>
    obtain ⟨-, hnone, hoff, -⟩ := Pools.nextCall_fire_start hp
    intro j r k hr hk
    have hold := h.asking j r k hr hk
    have hj : j ≠ i := by
      rintro rfl
      rw [hnone] at hold
      cases hold
    exact (hoff j hj).trans hold
  | call ho hasks hgives hp =>
    exact h.asking_call hp (fun r ↦ h.pool_eq_none ho hasks) fun j r k _ hr hk ↦ ⟨r, hr, hk⟩
  | @notify i j o k p ho hasks hgives hp hj =>
    have hi : j ≠ i := by
      rintro rfl
      cases h.pool_eq_none ho hasks hj
    refine h.asking_call hp (fun r hr ↦ ?_) fun j' r k' _ hr hk ↦ ?_
    · rw [List.getElem?_set_ne hi] at hr
      exact h.pool_eq_none ho hasks hr
    · by_cases hj' : j' = j
      · subst hj'
        rw [List.getElem?_set, if_pos rfl] at hr
        obtain ⟨-, e⟩ := Option.ite_none_right_eq_some.mp hr
        obtain rfl := Option.some.inj e
        exact ⟨_, hj, hk⟩
      · exact asking_set j' r k' hj' hr hk
  | miss ho hasks hgives hp hnone =>
    exact h.asking_call hp (fun r ↦ h.pool_eq_none ho hasks) fun j r k _ hr hk ↦ ⟨r, hr, hk⟩
  | take ho hr hup hp => exact h.asking_call hp pool_set_out asking_set
  | giveUp ho hr hup hout hp => exact h.asking_call hp pool_set_out asking_set
  | @sleep m i k r ho hr hup hidle =>
    intro j r' k' hr' hk
    by_cases hj : j = i
    · subst hj
      rw [List.getElem?_set, if_pos rfl] at hr'
      obtain ⟨-, e⟩ := Option.ite_none_right_eq_some.mp hr'
      obtain rfl := Option.some.inj e
      obtain rfl := Option.some.inj hk
      exact ho
    · obtain ⟨r₁, hr₁, hk₁⟩ := asking_set j r' k' hj hr' hk
      exact h.asking j r₁ k' hr₁ hk₁
  | @wake i k t hr =>
    intro j r' k' hr' hk
    by_cases hj : j = i
    · subst hj
      rw [List.getElem?_set, if_pos rfl] at hr'
      obtain ⟨-, e⟩ := Option.ite_none_right_eq_some.mp hr'
      obtain rfl := Option.some.inj e
      exact h.asking j _ k' hr hk
    · obtain ⟨r₁, hr₁, hk₁⟩ := asking_set j r' k' hj hr' hk
      exact h.asking j r₁ k' hr₁ hk₁

theorem Inv.length_shift (h : s.Inv) (hm : Shift s m s') :
    s'.rests.length = s'.pools.running.length := by
  cases hm with
  | start hp => exact h.length.trans (Pools.nextCall_fire_start hp).1.symm
  | call ho hasks hgives hp => exact h.length.trans (Pools.nextCall_fire_call hp).1.symm
  | miss ho hasks hgives hp => exact h.length.trans (Pools.nextCall_fire_call hp).1.symm
  | notify ho hasks hgives hp =>
    exact List.length_set.trans (h.length.trans (Pools.nextCall_fire_call hp).1.symm)
  | take ho hr hup hp =>
    exact List.length_set.trans (h.length.trans (Pools.nextCall_fire_call hp).1.symm)
  | giveUp ho hr hup hout hp =>
    exact List.length_set.trans (h.length.trans (Pools.nextCall_fire_call hp).1.symm)
  | sleep ho hr => exact List.length_set.trans h.length
  | wake hr => exact List.length_set.trans h.length

theorem Inv.next (h : s.Inv) (hm : Shift s m s') : s'.Inv :=
  ⟨h.length_shift hm, h.asking_shift hm, h.noLost_shift hm⟩

theorem Inv.step (h : s.Inv) (m : MonitorMove) : (s.step m).Inv := by
  rw [Monitors.step]
  rcases hm : s.fire m with _ | s'
  · exact h
  · exact h.next (h.shift hm)

/-- **While anybody is asleep at a pool, there is somebody awake for every connection in its queue**,
whatever the workers do, and however often they wake up for no reason, time out or throw. -/
theorem no_lost_wakeup (n : ℕ) (mysqlOk redisOk : ℕ → Bool) (ms : List MonitorMove) (k : Resource)
    (hk : .asleep k ∈ ((init n mysqlOk redisOk).run ms).rests) :
    (((init n mysqlOk redisOk).run ms).pools.idle k).length ≤
      ((init n mysqlOk redisOk).run ms).rests.countP (Rest.isAwake k) := by
  have hinv : ((init n mysqlOk redisOk).run ms).Inv :=
    List.foldlRecOn ms Monitors.step (inv_init n mysqlOk redisOk) fun _ h m _ ↦ h.step m
  exact hinv.noLost k hk

/-- With one Redis connection: two workers are asleep, and when the third gives it back one of them is
woken. -/
def handOver : List MonitorMove :=
  [.start 0 (.get (lit "a")), .lock 0, .start 1 (.get (lit "b")), .lock 1, .start 2 (.get (lit "c")),
    .lock 2, .call 0 (.reply (some .nil)) none, .call 0 .served (some 2)]

theorem no_lost_wakeup_handOver :
    .asleep .redis ∈ ((init 3 (fun _ ↦ true) (· == 0)).run handOver).rests ∧
      (((init 3 (fun _ ↦ true) (· == 0)).run handOver).pools.idle .redis).length ≤
        ((init 3 (fun _ ↦ true) (· == 0)).run handOver).rests.countP (Rest.isAwake .redis) :=
  ⟨by decide +kernel, no_lost_wakeup 3 (fun _ ↦ true) (· == 0) handOver .redis (by decide +kernel)⟩

/-! ## Everybody comes to an end -/

/-- The exception, if there is one, is not thrown while its worker has a Redis context. -/
def Tidy (s : Monitors) : MonitorMove → Prop
  | .call i .throws _ => s.pools.Tidy (.call i .throws)
  | _ => True

instance (s : Monitors) (m : MonitorMove) : Decidable (s.Tidy m) := by
  unfold Tidy
  split <;> infer_instance

end Monitors

/-- Nothing goes wrong in the move: no timeout, no exception, and no wake-up but by a notification. -/
def MonitorMove.isSmooth : MonitorMove → Bool
  | .call _ out _ => out ≠ .throws && out ≠ .connected false
  | .lock _ | .look _ => true
  | _ => false

namespace Monitors

variable {s s' : Monitors} {m : MonitorMove}

/-- A worker that is at something goes on with it. -/
def Goes (s : Monitors) (m : MonitorMove) : Prop := (s.fire m).isSome = true ∧ m.isSmooth = true

instance (s : Monitors) (m : MonitorMove) : Decidable (s.Goes m) :=
  inferInstanceAs (Decidable (_ ∧ _))

/-- A worker that is in `getConn` has no Redis context. -/
theorem tidy_of_asking {s₀ p : Pools} {w : ℕ → Held} {left : ℕ → ℕ} {i : ℕ} {k : Resource}
    (h : Pools.Account s₀ p w left) (ho : p.nextCall i = some k.pop) : p.Tidy (.call i .throws) := by
  rintro ⟨j, conn⟩ hmem rfl
  obtain ⟨next, hp⟩ := Pools.nextCall_eq_some_iff.mp ho
  have hheld : (w j).redis = some conn := h.exactly.2 j conn hmem
  have hnone : (w j).redis = none := by
    rcases k with _ | _
    · exact (h.order j _ hp).1.2.1
    · exact (h.order j _ hp).1.1
  cases hnone.symm.trans hheld

theorem tidy_shift {s₀ : Pools} {w : ℕ → Held} {left : ℕ → ℕ} (h : Pools.Account s₀ s.pools w left)
    (htidy : s.Tidy m) (hm : Shift s m s') :
    s'.pools = s.pools ∨ ∃ k, s.pools.Tidy k ∧ s'.pools = s.pools.step k := by
  have hmove : ∀ {k : PoolMove} {p : Pools}, s.pools.fire k = some p → s.pools.Tidy k →
      p = s.pools ∨ ∃ k, s.pools.Tidy k ∧ p = s.pools.step k := by
    intro k p hp hk
    refine .inr ⟨k, hk, ?_⟩
    rw [Pools.step, hp, Option.getD_some]
  cases hm with
  | start hp => exact hmove hp trivial
  | @call i out o p ho hasks hgives hp =>
    refine hmove hp ?_
    cases out with
    | throws => exact htidy
    | _ => trivial
  | notify ho hasks hgives hp => exact hmove hp trivial
  | miss ho hasks hgives hp => exact hmove hp trivial
  | take ho hr hup hp => exact hmove hp trivial
  | giveUp ho hr hup hout hp =>
    rcases hout with ⟨rfl, -⟩ | ⟨rfl, -⟩
    · exact hmove hp trivial
    · exact hmove hp (tidy_of_asking h ho)
  | sleep => exact .inl rfl
  | wake => exact .inl rfl

/-- The account of a run of the monitors, as long as it is tidy. -/
theorem account_step {s₀ : Pools} (hp₀ : s₀.mysql.handles.Nodup) (hinv : s.Inv)
    (h : ∃ w, Pools.Account s₀ s.pools w fun _ ↦ maxSteps) (htidy : s.Tidy m) :
    ∃ w, Pools.Account s₀ (s.step m).pools w fun _ ↦ maxSteps := by
  rw [Monitors.step]
  rcases hm : s.fire m with _ | s'
  · exact h
  obtain ⟨w, hw⟩ := h
  rcases tidy_shift hw htidy (hinv.shift hm) with hsame | ⟨k, hk, hstep⟩
  · exact ⟨w, hsame ▸ hw⟩
  · rw [Option.getD_some, hstep]
    exact Pools.Account.step hp₀ ⟨w, hw⟩ hk

/-- A step in which nothing goes wrong uses one up, and loses no connection. -/
theorem account_call {s₀ p p' : Pools} (hp₀ : s₀.mysql.handles.Nodup) {w : ℕ → Held} {left : ℕ → ℕ}
    {i : ℕ} {out : PoolOutcome} (h : Pools.Account s₀ p w left) (hp : p.fire (.call i out) = some p')
    (hthrows : out ≠ .throws) (hconnected : out ≠ .connected false) :
    ∃ w' left', Pools.Account s₀ p' w' left' ∧ p'.capacity = p.capacity ∧
      p'.running.length = p.running.length ∧
      ∑ j ∈ Finset.range p.running.length, left' j + 1 = ∑ j ∈ Finset.range p.running.length, left j := by
  have htidy : p.Tidy (.call i out) := by
    unfold Pools.Tidy
    split
    next heq => exact absurd (PoolMove.call.inj heq).2 hthrows
    · trivial
  obtain ⟨hlt, hpos, w', hw'⟩ := h.call hp₀ htidy hp
  have hregular : p.Regular (.call i out) := by
    refine ⟨by rw [hp]; rfl, fun j hj ↦ ?_⟩
    exact hthrows (PoolMove.call.inj hj).2
  have hmeets : Meets Pools.step Pools.Regular p [.call i out] := ⟨hregular, trivial⟩
  have hcap := (h.exactly.capacity_run hp₀ hmeets).2
  have hrun : p.run [.call i out] = p' := by
    rw [Pools.run, List.foldl_cons, Pools.step, hp]
    rfl
  have hcount : [PoolMove.call i out].countP PoolMove.attemptFailed = 0 := by
    rw [List.countP_singleton]
    rcases out with _ | _ | _ | _ | _ | ok | _
    case connected =>
      rcases ok with _ | _
      · exact absurd rfl hconnected
      · rfl
    all_goals rfl
  rw [hrun, hcount] at hcap
  exact ⟨w', _, hw', hcap, (Pools.nextCall_fire_call hp).1, Pools.sum_update_pred hlt hpos⟩

/-- How many workers are not asleep. -/
def up (s : Monitors) : ℕ := s.rests.countP Rest.isUp

/-- **Every move uses something up**: a step of a task, or one more worker is asleep. -/
theorem account_goes {s₀ : Pools} (hp₀ : s₀.mysql.handles.Nodup) {w : ℕ → Held} {left : ℕ → ℕ}
    (h : Pools.Account s₀ s.pools w left) (hsmooth : m.isSmooth = true) (hm : Shift s m s') :
    ∃ w' left', Pools.Account s₀ s'.pools w' left' ∧ s'.pools.capacity = s.pools.capacity ∧
      s'.pools.running.length = s.pools.running.length ∧
      2 * ∑ j ∈ Finset.range s.pools.running.length, left' j + s'.up + 1 ≤
        2 * ∑ j ∈ Finset.range s.pools.running.length, left j + s.up := by
  have hcall : ∀ {i : ℕ} {out : PoolOutcome} {p : Pools} {rests : List Rest},
      s.pools.fire (.call i out) = some p → out ≠ .throws → out ≠ .connected false →
      rests.countP Rest.isUp ≤ s.up + 1 →
      ∃ w' left', Pools.Account s₀ p w' left' ∧ p.capacity = s.pools.capacity ∧
        p.running.length = s.pools.running.length ∧
        2 * ∑ j ∈ Finset.range s.pools.running.length, left' j + rests.countP Rest.isUp + 1 ≤
          2 * ∑ j ∈ Finset.range s.pools.running.length, left j + s.up := by
    intro i out p rests hp hthrows hconnected hup
    obtain ⟨w', left', hw', hcap, hlen, hsum⟩ := account_call hp₀ h hp hthrows hconnected
    exact ⟨w', left', hw', hcap, hlen, by omega⟩
  cases hm with
  | start hp => cases hsmooth
  | wake hr => cases hsmooth
  | call ho hasks hgives hp =>
    rw [MonitorMove.isSmooth, Bool.and_eq_true, decide_eq_true_iff, decide_eq_true_iff] at hsmooth
    exact hcall hp hsmooth.1 hsmooth.2 (Nat.le_succ _)
  | miss ho hasks hgives hp => exact hcall hp (by simp) (by simp) (Nat.le_succ _)
  | @notify i j o k p ho hasks hgives hp hj =>
    have hcount := countP_set_add (b := .awake k false) Rest.isUp hj
    exact hcall hp (by simp) (by simp) hcount.le
  | take ho hr hup hp =>
    have hcount := countP_set_add (b := .out) Rest.isUp hr
    refine hcall hp (by simp) (by simp) ?_
    rw [show Rest.isUp .out = true from rfl, Bool.toNat_true] at hcount
    exact (Nat.le_add_right _ _).trans hcount.le
  | giveUp ho hr hup hout hp =>
    rcases hout with ⟨rfl, -⟩ | ⟨-, rfl⟩
    swap
    · cases hsmooth
    have hcount := countP_set_add (b := .out) Rest.isUp hr
    refine hcall hp (by simp) (by simp) ?_
    rw [show Rest.isUp .out = true from rfl, Bool.toNat_true] at hcount
    exact (Nat.le_add_right _ _).trans hcount.le
  | @sleep m i k r ho hr hup hidle =>
    have hcount := countP_set_add (b := .asleep k) Rest.isUp hr
    have hr' : r.isUp = true := by
      rcases hup with ⟨rfl, -⟩ | ⟨rfl, -⟩
      · rfl
      · rfl
    rw [hr', show Rest.isUp (.asleep k) = false from rfl, Bool.toNat_true, Bool.toNat_false,
      Nat.add_zero] at hcount
    refine ⟨w, left, h, rfl, rfl, ?_⟩
    show _ + (s.rests.set i (.asleep k)).countP Rest.isUp + 1 ≤ _ + s.rests.countP Rest.isUp
    omega

theorem account_run {s₀ : Pools} (hp₀ : s₀.mysql.handles.Nodup) {w : ℕ → Held} {left : ℕ → ℕ}
    {ms : List MonitorMove} (hinv : s.Inv) (h : Pools.Account s₀ s.pools w left)
    (hms : Meets Monitors.step Goes s ms) :
    (s.run ms).Inv ∧ (∃ w' left', Pools.Account s₀ (s.run ms).pools w' left') ∧
      (s.run ms).pools.capacity = s.pools.capacity ∧
      ms.length ≤ 2 * ∑ j ∈ Finset.range s.pools.running.length, left j + s.up := by
  induction ms generalizing s w left with
  | nil => exact ⟨hinv, ⟨w, left, h⟩, rfl, Nat.zero_le _⟩
  | cons m ms ih =>
    obtain ⟨⟨hsome, hsmooth⟩, hms⟩ := hms
    obtain ⟨s', hm⟩ := Option.isSome_iff_exists.mp hsome
    have hstep : s.step m = s' := by rw [Monitors.step, hm, Option.getD_some]
    have hshift := hinv.shift hm
    obtain ⟨w', left', hw', hcap, hlen, hless⟩ := account_goes hp₀ h hsmooth hshift
    rw [hstep] at hms
    obtain ⟨hinv', hend, hcap', hle⟩ := ih (hinv.next hshift) hw' hms
    have hrun : s.run (m :: ms) = s'.run ms := by
      rw [Monitors.run, List.foldl_cons, hstep, Monitors.run]
    rw [hrun]
    refine ⟨hinv', hend, hcap'.trans hcap, ?_⟩
    rw [hlen] at hle
    rw [List.length_cons]
    omega

/-- Whoever is awake where there is a connection can take it. -/
theorem goes_look {i : ℕ} {k : Resource} {t : Bool} (h : s.Inv)
    (hr : s.rests[i]? = some (.awake k t)) (hidle : s.pools.idle k ≠ []) : s.Goes (.look i) := by
  refine ⟨?_, rfl⟩
  have hfire := Pools.isSome_fire_pop (h.asking i _ k hr rfl) hidle
  rw [fire, hr]
  simpa [look, hidle] using hfire

/-- There is always somebody to notify, or nobody to. -/
theorem exists_notify (s : Monitors) (k : Option Resource) :
    ∃ notified, (s.notify k notified).isSome = true := by
  rcases k with _ | k
  · exact ⟨none, rfl⟩
  by_cases hk : .asleep k ∈ s.rests
  · obtain ⟨j, hj⟩ := List.mem_iff_getElem?.mp hk
    exact ⟨some j, by rw [notify, if_pos hj]; rfl⟩
  · exact ⟨none, by rw [notify, if_neg hk]; rfl⟩

/-- **Somebody can go on**, without a timeout and without a spurious wake-up. -/
theorem Inv.exists_goes {s₀ : Pools} {w : ℕ → Held} {left : ℕ → ℕ} (hinv : s.Inv)
    (h : Pools.Account s₀ s.pools w left) (hmysql : s₀.mysql.handles ≠ [])
    (hredis : 0 < s.pools.capacity) (hbusy : ¬s.pools.Quiet) : ∃ m, s.Goes m := by
  obtain ⟨i, ⟨o, ho⟩, hwaits⟩ := h.exists_not_waits hmysql hredis hbusy
  have hidle : ∀ {k : Resource}, s.pools.nextCall i = some k.pop → s.pools.idle k ≠ [] :=
    fun hk hnil ↦ hwaits _ ⟨hk, hnil⟩
  obtain ⟨r, hr⟩ : ∃ r, s.rests[i]? = some r := by
    obtain ⟨next, hp⟩ := Pools.nextCall_eq_some_iff.mp ho
    have hlt := (List.getElem?_eq_some_iff.mp hp).1
    rw [← hinv.length] at hlt
    exact ⟨_, List.getElem?_eq_getElem hlt⟩
  rcases r with _ | k | ⟨k, t⟩
  · rcases hasks : o.asks with _ | k
    · -- it is at something else
      obtain ⟨out, hsome, -, hthrows, hconnected⟩ := Pools.exists_goes_of_not_waits ho hwaits
      obtain ⟨p, hp⟩ := Option.isSome_iff_exists.mp hsome
      obtain ⟨notified, hnotify⟩ := s.exists_notify (if out = .served then o.gives else none)
      refine ⟨.call i out notified, ?_, by simp [MonitorMove.isSmooth, hthrows, hconnected]⟩
      simpa [fire, ho, hasks, hp] using hnotify
    · -- it enters `getConn`
      obtain rfl := PoolCall.asks_eq_some_iff.mp hasks
      refine ⟨.lock i, ?_, rfl⟩
      have hfire := Pools.isSome_fire_pop ho (hidle ho)
      simpa [fire, ho, hr, PoolCall.asks_eq_some_iff.mpr rfl, look, hidle ho] using hfire
  · -- it is asleep next to a connection, so somebody else is on the way
    have hne := hidle (hinv.asking i _ k hr rfl)
    have hpos := (List.length_pos_iff.mpr hne).trans_le (hinv.noLost k (List.mem_of_getElem? hr))
    obtain ⟨r, hmem, hawake⟩ := List.countP_pos_iff.mp hpos
    obtain ⟨j, hj⟩ := List.mem_iff_getElem?.mp hmem
    rcases r with _ | k' | ⟨k', t⟩
    · cases hawake
    · cases hawake
    · obtain rfl : k' = k := by simpa [Rest.isAwake] using hawake
      exact ⟨.look j, goes_look hinv hj hne⟩
  · exact ⟨.look i, goes_look hinv hr (hidle (hinv.asking i _ k hr rfl))⟩

end Monitors

end ReactorServer
