import ReactorServer.Db.Monitor

/-!
# The pools and their mutexes

`Monitors` lets a worker look into a queue, and take what it finds, in a single step, and keeps the
books of `Pools` while it does.  In the code there are no books.  There is a `std::queue` and a
mutex, and what a worker does while it has the mutex are several steps: it asks whether the queue is
empty, reads the front, pops it, unlocks; or it pushes, notifies, unlocks.  In between, the other
workers go on with whatever does not take this mutex.

`Locked` is the pools like this, with queues of their own.  `locked_refines_monitors` says that
nothing comes of the steps in between: whatever the workers do, the queues, but for what has been
pushed and not been notified of, and all that the workers have still to do are as after a run of
`Monitors`.  It rests on the mutexes, of which a worker has one at most, so that what it has found in
the queue is still so when it acts on it (`Inv`).  In particular `getConn` gives up only on a queue
that is empty at that moment.
-/

set_option autoImplicit false

namespace ReactorServer

open Program Machine

/-! ## The workers and the mutexes -/

/-- Where a worker is that has a mutex. -/
inductive Place where
  /-- It is about to ask whether the queue is empty. -/
  | test (timedOut : Bool)
  /-- It is about to read the front of the queue. -/
  | front
  /-- It has read it, and is about to pop. -/
  | pop (conn : ℕ)
  /-- `wait_for` has returned `false`. -/
  | giveUp
  /-- It is about to push. -/
  | push (conn : ℕ)
  /-- It has pushed, and is about to notify. -/
  | notify (conn : ℕ)
  /-- It is through, and about to unlock. -/
  | unlock
  deriving DecidableEq, Repr

/-- The pool whose mutex a step takes, and what the worker does with it. -/
def PoolCall.entry : PoolCall → Option (Resource × Place)
  | .mysqlPop => some (.mysql, .test false)
  | .redisPop => some (.redis, .test false)
  | .mysqlPush conn => some (.mysql, .push conn)
  | .redisPush conn => some (.redis, .push conn)
  | _ => none

/-- The step that gives a connection to the pool. -/
def Resource.push : Resource → ℕ → PoolCall
  | .mysql => .mysqlPush
  | .redis => .redisPush

/-- The queues and their mutexes, and the workers. -/
structure Locked where
  /-- `pool_` -/
  queue : Resource → List ℕ
  /-- `mtx_`: the worker that has it, and where it is. -/
  lock : Resource → Option (ℕ × Place)
  rests : List Rest
  running : List (PoolJob PUnit)
  /-- The number of the next context. -/
  fresh : ℕ

/-- The moves. -/
inductive LockedMove where
  /-- Worker `i` is given something to do. -/
  | start (i : ℕ) (e : Errand)
  /-- It makes a step that takes no mutex. -/
  | call (i : ℕ) (out : PoolOutcome)
  /-- It takes the mutex that it needs, to begin with or on its way out of `wait_for`. -/
  | acquire (i : ℕ)
  /-- It cannot take it, to begin with, and `lock` throws. -/
  | lockFails (i : ℕ)
  /-- The worker that has this mutex makes its next step, and notifies this one, if it does. -/
  | work (k : Resource) (notified : Option ℕ)
  /-- Its step throws: the log line, or the push. -/
  | throws (k : Resource)
  /-- A worker wakes up in `wait_for`, without having been notified. -/
  | wake (i : ℕ) (timedOut : Bool)
  deriving DecidableEq, Repr

namespace Locked

/-- `getConn` returns this. -/
def gets (conn : Option ℕ) : PoolJob PUnit → PoolJob PUnit
  | .call .mysqlPop next => next (some conn)
  | .call .redisPop next => next (some conn)
  | p => p

/-- `releaseConn` returns. -/
def gives : PoolJob PUnit → PoolJob PUnit
  | .call (.mysqlPush _) next => next (some ⟨⟩)
  | .call (.redisPush _) next => next (some ⟨⟩)
  | p => p

/-- The step throws. -/
def throws : PoolJob PUnit → PoolJob PUnit
  | .call _ next => next none
  | p => p

/-- The constructors of the pools. -/
def init (workers : ℕ) (mysqlOk redisOk : ℕ → Bool) : Locked where
  queue
    | .mysql => (List.range kDbMaxConn).filter mysqlOk
    | .redis => (List.range kRedisMaxConn).filter redisOk
  lock _ := none
  rests := List.replicate workers .out
  running := List.replicate workers (.ret ⟨⟩)
  fresh := kRedisMaxConn

/-- The next step of the worker. -/
def nextCall (s : Locked) (i : ℕ) : Option PoolCall :=
  match s.running[i]? with
  | some (.call o _) => some o
  | _ => none

/-- The worker has a mutex. -/
def Inside (s : Locked) (i : ℕ) : Prop :=
  (s.lock .mysql).map Prod.fst = some i ∨ (s.lock .redis).map Prod.fst = some i

instance (s : Locked) (i : ℕ) : Decidable (s.Inside i) := inferInstanceAs (Decidable (_ ∨ _))

/-- The mutex has another owner, or its owner is somewhere else. -/
def setLock (s : Locked) (k : Resource) (owner : Option (ℕ × Place)) : Locked :=
  { s with lock := Function.update s.lock k owner }

/-- The step of the worker returns, or throws. -/
def resume (s : Locked) (i : ℕ) (f : PoolJob PUnit → PoolJob PUnit) : Locked :=
  { s with running := s.running.modify i f }

/-- The worker is not in `wait_for` any more. -/
def leaveWait (s : Locked) (i : ℕ) : Locked := { s with rests := s.rests.set i .out }

/-- **A step that takes no mutex, and its outcome**: the number of the next context afterwards, and
what the worker gets. -/
def exec (fresh : ℕ) : (o : PoolCall) → PoolOutcome → Option (ℕ × Option o.Res)
  | .redisFree _, .served => some (fresh, some ⟨⟩)
  | .createConn, .connected true => some (fresh + 1, some (some fresh))
  | .createConn, .connected false => some (fresh, some none)
  | .createConn, .throws => some (fresh, none)
  | .redisCommand .., .reply r => some (fresh, some r)
  | .redisCommand _ (.get _), .throws => some (fresh, none)
  | .mysqlQuery .., .result r => some (fresh, some r)
  | .mysqlQuery .., .throws => some (fresh, none)
  | .generateToken, .token t => some (fresh, some t)
  | .generateToken, .throws => some (fresh, none)
  | .send .., .served => some (fresh, some ⟨⟩)
  | _, _ => none

/-- The mutex that the worker wants. -/
def wants (s : Locked) (i : ℕ) : Option (Resource × Place) :=
  match s.rests[i]? with
  | some .out => (s.nextCall i).bind PoolCall.entry
  | some (.awake k timedOut) => some (k, .test timedOut)
  | _ => none

/-- `notify_one`: it wakes one of those that are asleep. -/
def notify (s : Locked) (k : Resource) : Option ℕ → Option (List Rest)
  | none => if .asleep k ∈ s.rests then none else some s.rests
  | some j => if s.rests[j]? = some (.asleep k) then some (s.rests.set j (.awake k false)) else none

/-- The next step of worker `i`, which has the mutex of this pool. -/
def work (s : Locked) (k : Resource) (i : ℕ) : Place → Option ℕ → Option Locked
  | .test timedOut, none =>
    if s.queue k ≠ [] then some (s.setLock k (some (i, .front)))
    else if timedOut then some (s.setLock k (some (i, .giveUp)))
    else some { s.setLock k none with rests := s.rests.set i (.asleep k) }
  | .front, none => (s.queue k).head?.map fun conn ↦ s.setLock k (some (i, .pop conn))
  | .pop conn, none =>
    some { ((s.resume i (gets (some conn))).leaveWait i).setLock k (some (i, .unlock)) with
      queue := Function.update s.queue k (s.queue k).tail }
  | .giveUp, none => some (((s.resume i (gets none)).leaveWait i).setLock k (some (i, .unlock)))
  | .push conn, none =>
    some { s.setLock k (some (i, .notify conn)) with
      queue := Function.update s.queue k (s.queue k ++ [conn]) }
  | .notify _, notified =>
    (s.notify k notified).map fun rests ↦
      { (s.resume i gives).setLock k (some (i, .unlock)) with rests := rests }
  | .unlock, none => some (s.setLock k none)
  | _, some _ => none

/-- A move, if it is possible.  What gives a MySQL handle back is a destructor, and nothing is thrown
out of that. -/
def fire (s : Locked) : LockedMove → Option Locked
  | .start i e =>
    if s.Inside i then none
    else
      match s.running[i]? with
      | none => none
      | some p => if p.isDone then some { s with running := s.running.set i e.steps } else none
  | .call i out =>
    if s.Inside i then none
    else
      match s.running[i]? with
      | some (.call o next) =>
        (exec s.fresh o out).map fun (fresh, r) ↦
          { s with fresh := fresh, running := s.running.set i (next r) }
      | _ => none
  | .acquire i =>
    if s.Inside i then none
    else
      match s.wants i with
      | none => none
      | some (k, p) => if s.lock k = none then some (s.setLock k (some (i, p))) else none
  | .lockFails i =>
    if s.Inside i then none
    else
      match s.rests[i]?, s.nextCall i with
      | some .out, some .mysqlPop | some .out, some .redisPop | some .out, some (.redisPush _) =>
        some (s.resume i throws)
      | _, _ => none
  | .work k notified =>
    match s.lock k with
    | none => none
    | some (i, p) => s.work k i p notified
  | .throws k =>
    match s.lock k with
    | some (i, .giveUp) =>
      some (((s.resume i throws).leaveWait i).setLock k (some (i, .unlock)))
    | some (i, .push _) =>
      if k = .redis then some ((s.resume i throws).setLock k (some (i, .unlock))) else none
    | _ => none
  | .wake i timedOut =>
    match s.rests[i]? with
    | some (.asleep k) => some { s with rests := s.rests.set i (.awake k timedOut) }
    | _ => none

/-- A move; one that is not possible leaves everything alone. -/
def step (s : Locked) (m : LockedMove) : Locked := (s.fire m).getD s

/-- A run. -/
def run (s : Locked) (ms : List LockedMove) : Locked := ms.foldl step s

/-! ## What a worker that has a mutex knows -/

/-- The worker is about to look into the queue, or has looked: to begin with, or awake in
`wait_for`. -/
def Looks (s : Locked) (k : Resource) (i : ℕ) (timedOut : Bool) : Prop :=
  s.rests[i]? = some .out ∧ timedOut = false ∨ s.rests[i]? = some (.awake k timedOut)

/-- What it has found in the queue is still so. -/
def At (s : Locked) (k : Resource) (i : ℕ) : Place → Prop
  | .test timedOut => s.nextCall i = some k.pop ∧ s.Looks k i timedOut
  | .front => s.nextCall i = some k.pop ∧ (∃ t, s.Looks k i t) ∧ s.queue k ≠ []
  | .pop conn => s.nextCall i = some k.pop ∧ (∃ t, s.Looks k i t) ∧ (s.queue k).head? = some conn
  | .giveUp => s.nextCall i = some k.pop ∧ s.Looks k i true ∧ s.queue k = []
  | .push conn => s.nextCall i = some (k.push conn)
  | .notify conn => s.nextCall i = some (k.push conn)
  | .unlock => True

/-- What holds in every state. -/
structure Inv (s : Locked) : Prop where
  /-- Nobody has two mutexes. -/
  sole : ∀ k k' i p p', s.lock k = some (i, p) → s.lock k' = some (i, p') → k = k'
  found : ∀ k i p, s.lock k = some (i, p) → s.At k i p

/-- What has been pushed without anybody's having been notified yet. -/
def pending (s : Locked) (k : Resource) : List ℕ :=
  match s.lock k with
  | some (_, .notify conn) => [conn]
  | _ => []

/-- The workers are where those of the monitors are, and have the same to do; and the queues are the
same, but for what is pending. -/
structure Shows (s : Locked) (m : Monitors) : Prop where
  running : m.pools.running = s.running
  rests : m.rests = s.rests
  fresh : m.pools.fresh = s.fresh
  queue : ∀ k, s.queue k = m.pools.idle k ++ s.pending k

variable {s s' : Locked} {m m' : Monitors} {k : Resource} {i : ℕ} {p : Place}

theorem Looks.congr {t : Bool} (h : s.Looks k i t)
    (hrests : ∀ r, r.isUp = true → s.rests[i]? = some r → s'.rests[i]? = some r) : s'.Looks k i t :=
  h.imp (fun h ↦ ⟨hrests _ rfl h.1, h.2⟩) (hrests _ rfl)

/-- It is still so if the others leave the queue and the worker alone. -/
theorem At.congr (h : s.At k i p) (hrun : s'.nextCall i = s.nextCall i)
    (hrests : ∀ r, r.isUp = true → s.rests[i]? = some r → s'.rests[i]? = some r)
    (hqueue : s'.queue k = s.queue k) : s'.At k i p := by
  cases p with
  | test t => exact ⟨hrun.trans h.1, h.2.congr hrests⟩
  | front => exact ⟨hrun.trans h.1, h.2.1.imp fun _ ht ↦ ht.congr hrests, hqueue ▸ h.2.2⟩
  | pop conn => exact ⟨hrun.trans h.1, h.2.1.imp fun _ ht ↦ ht.congr hrests, hqueue ▸ h.2.2⟩
  | giveUp => exact ⟨hrun.trans h.1, h.2.1.congr hrests, hqueue ▸ h.2.2⟩
  | push conn => exact hrun.trans h
  | notify conn => exact hrun.trans h
  | unlock => trivial

theorem inside_iff : s.Inside i ↔ ∃ k p, s.lock k = some (i, p) := by
  have hget : ∀ k, (s.lock k).map Prod.fst = some i ↔ ∃ p, s.lock k = some (i, p) := by
    intro k
    rw [Option.map_eq_some_iff]
    constructor
    · rintro ⟨⟨j, p⟩, h, rfl⟩
      exact ⟨p, h⟩
    · rintro ⟨p, h⟩
      exact ⟨(i, p), h, rfl⟩
  rw [Inside, hget, hget]
  constructor
  · rintro (⟨p, h⟩ | ⟨p, h⟩)
    · exact ⟨.mysql, p, h⟩
    · exact ⟨.redis, p, h⟩
  · rintro ⟨_ | _, p, h⟩
    · exact .inl ⟨p, h⟩
    · exact .inr ⟨p, h⟩

/-- What somebody who has a mutex, or is about to take it, leaves alone: the other mutex and its
queue, and the workers that are not asleep. -/
structure Acts (s : Locked) (k : Resource) (i : ℕ) (owner : Option (ℕ × Place)) (s' : Locked) :
    Prop where
  lock : s'.lock = Function.update s.lock k owner
  running : ∀ j, j ≠ i → s'.running[j]? = s.running[j]?
  rests : ∀ j r, j ≠ i → r.isUp = true → s.rests[j]? = some r → s'.rests[j]? = some r
  queue : ∀ k', k' ≠ k → s'.queue k' = s.queue k'

theorem acts_setLock (s : Locked) (k : Resource) (i : ℕ) (owner : Option (ℕ × Place)) :
    Acts s k i owner (s.setLock k owner) :=
  ⟨rfl, fun _ _ ↦ rfl, fun _ _ _ _ h ↦ h, fun _ _ ↦ rfl⟩

theorem nextCall_eq (h : s'.running[i]? = s.running[i]?) : s'.nextCall i = s.nextCall i := by
  rw [nextCall, nextCall, h]

/-- **Nobody else is concerned.** -/
theorem Inv.acts (h : s.Inv) {owner : Option (ℕ × Place)} (ha : Acts s k i owner s')
    (hsole : ∀ k' q, k' ≠ k → s.lock k' ≠ some (i, q))
    (hat : ∀ j q, owner = some (j, q) → j = i ∧ s'.At k i q) : s'.Inv := by
  have hself : ∀ {j q}, s'.lock k = some (j, q) → j = i ∧ s'.At k i q := by
    intro j q hj
    rw [ha.lock, Function.update_self] at hj
    exact hat j q hj
  have hother : ∀ {k' j q}, k' ≠ k → s'.lock k' = some (j, q) →
      s.lock k' = some (j, q) ∧ j ≠ i := by
    intro k' j q hk hj
    rw [ha.lock, Function.update_of_ne hk] at hj
    refine ⟨hj, ?_⟩
    rintro rfl
    exact hsole k' q hk hj
  refine ⟨fun k₁ k₂ j p q h₁ h₂ ↦ ?_, fun k' j q hj ↦ ?_⟩
  · by_cases hk₁ : k₁ = k
    · by_cases hk₂ : k₂ = k
      · rw [hk₁, hk₂]
      · rw [hk₁] at h₁
        exact absurd (hself h₁).1 (hother hk₂ h₂).2
    · by_cases hk₂ : k₂ = k
      · rw [hk₂] at h₂
        exact absurd (hself h₂).1 (hother hk₁ h₁).2
      · exact h.sole k₁ k₂ j p q (hother hk₁ h₁).1 (hother hk₂ h₂).1
  · by_cases hk : k' = k
    · subst hk
      obtain ⟨rfl, hq⟩ := hself hj
      exact hq
    · obtain ⟨hj, hne⟩ := hother hk hj
      exact (h.found k' j q hj).congr (nextCall_eq (ha.running j hne)) (fun r ↦ ha.rests j r hne)
        (ha.queue k' hk)

theorem Inv.sole_of_lock (h : s.Inv) (hlock : s.lock k = some (i, p)) (k' : Resource) (q : Place)
    (hk : k' ≠ k) : s.lock k' ≠ some (i, q) :=
  fun hq ↦ hk (h.sole k' k i q p hq hlock)

/-- A worker that has no mutex does something, and does it for itself. -/
theorem nextCall_of_inside (hin : ¬s.Inside i) (hrun : ∀ j, j ≠ i → s'.running[j]? = s.running[j]?)
    (j : ℕ) (hj : s.Inside j) : s'.nextCall j = s.nextCall j := by
  refine nextCall_eq (hrun j ?_)
  rintro rfl
  exact hin hj

/-- Those that have a mutex are not concerned if neither their steps nor the queues change, and nobody
that is up is sent to sleep. -/
theorem Inv.outside (h : s.Inv) (hlock : s'.lock = s.lock) (hqueue : s'.queue = s.queue)
    (hrun : ∀ j, s.Inside j → s'.nextCall j = s.nextCall j)
    (hrests : ∀ j r, s.Inside j → r.isUp = true → s.rests[j]? = some r → s'.rests[j]? = some r) :
    s'.Inv := by
  refine ⟨fun k k' j p q h₁ h₂ ↦ ?_, fun k j q hj ↦ ?_⟩
  · rw [hlock] at h₁ h₂
    exact h.sole k k' j p q h₁ h₂
  · rw [hlock] at hj
    have hin : s.Inside j := inside_iff.mpr ⟨k, q, hj⟩
    exact (h.found k j q hj).congr (hrun j hin) (fun r ↦ hrests j r hin) (congrFun hqueue k)

theorem inv_init (n : ℕ) (mysqlOk redisOk : ℕ → Bool) : (init n mysqlOk redisOk).Inv where
  sole _ _ _ _ _ h := by cases h
  found _ _ _ h := by cases h

theorem shows_init (n : ℕ) (mysqlOk redisOk : ℕ → Bool) :
    (init n mysqlOk redisOk).Shows (.init n mysqlOk redisOk) where
  running := rfl
  rests := rfl
  fresh := rfl
  queue k := by
    cases k with
    | mysql => exact (List.append_nil _).symm
    | redis => exact (List.append_nil _).symm

/-! ## Moves of the pools -/

theorem modify_of_getElem? {γ : Type} {l : List γ} {a : γ} (h : l[i]? = some a) (f : γ → γ) :
    l.modify i f = l.set i (f a) := by
  rw [List.modify_eq_set_getElem?, h]
  rfl

/-- A step that has this outcome, and what it leaves behind. -/
structure Becomes (p : Pools) (i : ℕ) (out : PoolOutcome) (f : PoolJob PUnit → PoolJob PUnit)
    (idle : Resource → List ℕ) (p' : Pools) : Prop where
  fire : p.fire (.call i out) = some p'
  running : p'.running = p.running.modify i f
  fresh : p'.fresh = p.fresh
  idle : p'.idle = idle

theorem becomes_of_exec {q q' : Pools} {o : PoolCall} {next : Option o.Res → PoolJob PUnit}
    {r : Option o.Res} {out : PoolOutcome} {f : PoolJob PUnit → PoolJob PUnit}
    {idle : Resource → List ℕ} (hi : q.running[i]? = some (.call o next))
    (hexec : q.exec i o out = some (q', r)) (hf : f (.call o next) = next r)
    (hfresh : q'.fresh = q.fresh) (hidle : ∀ k, q'.idle k = idle k) :
    ∃ q'', Becomes q i out f idle q'' := by
  refine ⟨{ q' with running := q.running.set i (next r) }, ?_, ?_, hfresh, funext fun k ↦ ?_⟩
  · rw [Pools.fire, hi]
    dsimp only
    rw [hexec]
    rfl
  · rw [modify_of_getElem? hi, hf]
  · rw [← hidle k]
    cases k with
    | mysql => rfl
    | redis => rfl

/-- A worker takes the connection at the front. -/
theorem becomes_pop {q : Pools} {conn : ℕ} {rest : List ℕ} (hi : q.nextCall i = some k.pop)
    (hidle : q.idle k = conn :: rest) :
    ∃ q', Becomes q i .served (gets (some conn)) (Function.update q.idle k rest) q' := by
  obtain ⟨next, hp⟩ := Pools.nextCall_eq_some_iff.mp hi
  cases k with
  | mysql =>
    have htake : q.mysql.take i = some (conn, ⟨rest, (i, conn) :: q.mysql.leased⟩) :=
      HandlePool.take_eq_some_iff.mpr ⟨rest, hidle, rfl⟩
    have hexec : q.exec i .mysqlPop .served =
        some ({ q with mysql := ⟨rest, (i, conn) :: q.mysql.leased⟩ }, some (some conn)) := by
      rw [Pools.exec, htake]
      rfl
    refine becomes_of_exec hp hexec rfl rfl fun k ↦ ?_
    cases k with
    | mysql => rfl
    | redis => rfl
  | redis =>
    have htake : q.redis.take i = some (conn, ⟨rest, (i, conn) :: q.redis.leased⟩) :=
      HandlePool.take_eq_some_iff.mpr ⟨rest, hidle, rfl⟩
    have hexec : q.exec i .redisPop .served =
        some ({ q with redis := ⟨rest, (i, conn) :: q.redis.leased⟩ }, some (some conn)) := by
      rw [Pools.exec, htake]
      rfl
    refine becomes_of_exec hp hexec rfl rfl fun k ↦ ?_
    cases k with
    | mysql => rfl
    | redis => rfl

/-- It gives up. -/
theorem becomes_timeout {q : Pools} (hi : q.nextCall i = some k.pop) (hidle : q.idle k = []) :
    ∃ q', Becomes q i .timeout (gets none) q.idle q' := by
  obtain ⟨next, hp⟩ := Pools.nextCall_eq_some_iff.mp hi
  cases k with
  | mysql => exact becomes_of_exec hp (if_pos hidle) rfl rfl fun _ ↦ rfl
  | redis => exact becomes_of_exec hp (if_pos hidle) rfl rfl fun _ ↦ rfl

/-- It gives a connection back. -/
theorem becomes_push {q : Pools} {conn : ℕ} (hi : q.nextCall i = some (k.push conn)) :
    ∃ q', Becomes q i .served gives (Function.update q.idle k (q.idle k ++ [conn])) q' := by
  obtain ⟨next, hp⟩ := Pools.nextCall_eq_some_iff.mp hi
  cases k with
  | mysql =>
    refine becomes_of_exec hp rfl rfl rfl fun k ↦ ?_
    cases k with
    | mysql => rfl
    | redis => rfl
  | redis =>
    refine becomes_of_exec hp rfl rfl rfl fun k ↦ ?_
    cases k with
    | mysql => rfl
    | redis => rfl

/-- `getConn` throws, or what gives a Redis context back. -/
theorem becomes_throws {q : Pools} {o : PoolCall} (hi : q.nextCall i = some o)
    (ho : o = k.pop ∨ ∃ conn, o = .redisPush conn) :
    ∃ q', Becomes q i .throws throws q.idle q' := by
  obtain ⟨next, hp⟩ := Pools.nextCall_eq_some_iff.mp hi
  rcases ho with rfl | ⟨conn, rfl⟩
  · cases k with
    | mysql => exact becomes_of_exec hp rfl rfl rfl fun _ ↦ rfl
    | redis => exact becomes_of_exec hp rfl rfl rfl fun _ ↦ rfl
  · exact becomes_of_exec hp rfl rfl rfl fun _ ↦ rfl

/-- A step that takes no mutex is one of the pools, and leaves the queues alone. -/
theorem becomes_exec {q : Pools} {o : PoolCall} {next : Option o.Res → PoolJob PUnit}
    {out : PoolOutcome} {fresh : ℕ} {r : Option o.Res} (hi : q.running[i]? = some (.call o next))
    (hexec : exec q.fresh o out = some (fresh, r)) :
    o.asks = none ∧ o.gives = none ∧ ∃ q', q.fire (.call i out) = some q' ∧
      q'.running = q.running.set i (next r) ∧ q'.fresh = fresh ∧ q'.idle = q.idle := by
  have hdone : ∀ {q' : Pools}, q.exec i o out = some (q', r) → q'.fresh = fresh →
      q'.mysql.idle = q.mysql.idle → q'.redis.idle = q.redis.idle →
      ∃ q', q.fire (.call i out) = some q' ∧ q'.running = q.running.set i (next r) ∧ q'.fresh = fresh ∧
        q'.idle = q.idle := by
    intro q' hpools hfresh hmysql hredis
    refine ⟨{ q' with running := q.running.set i (next r) }, ?_, rfl, hfresh, funext fun k ↦ ?_⟩
    · rw [Pools.fire, hi]
      dsimp only
      rw [hpools]
      rfl
    · cases k with
      | mysql => exact hmysql
      | redis => exact hredis
  cases o with
  | redisPop | redisPush | mysqlPop | mysqlPush => cases out <;> cases hexec
  | redisFree conn =>
    cases out with
    | served =>
      cases hexec
      exact ⟨rfl, rfl, hdone rfl rfl rfl rfl⟩
    | _ => cases hexec
  | createConn =>
    cases out with
    | connected ok =>
      cases ok with
      | true =>
        cases hexec
        exact ⟨rfl, rfl, hdone rfl rfl rfl rfl⟩
      | false =>
        cases hexec
        exact ⟨rfl, rfl, hdone rfl rfl rfl rfl⟩
    | throws =>
      cases hexec
      exact ⟨rfl, rfl, hdone rfl rfl rfl rfl⟩
    | _ => cases hexec
  | redisCommand conn cmd =>
    cases out with
    | reply =>
      cases hexec
      exact ⟨rfl, rfl, hdone rfl rfl rfl rfl⟩
    | throws =>
      cases cmd with
      | get key =>
        cases hexec
        exact ⟨rfl, rfl, hdone rfl rfl rfl rfl⟩
      | _ => cases hexec
    | _ => cases cmd <;> cases hexec
  | mysqlQuery conn sql =>
    cases out with
    | result | throws =>
      cases hexec
      exact ⟨rfl, rfl, hdone rfl rfl rfl rfl⟩
    | _ => cases hexec
  | generateToken =>
    cases out with
    | token | throws =>
      cases hexec
      exact ⟨rfl, rfl, hdone rfl rfl rfl rfl⟩
    | _ => cases hexec
  | send statusCode body =>
    cases out with
    | served =>
      cases hexec
      exact ⟨rfl, rfl, hdone rfl rfl rfl rfl⟩
    | _ => cases hexec

/-! ## The simulation -/

/-- The two machines side by side. -/
structure Sim (s : Locked) (m : Monitors) : Prop where
  inv : s.Inv
  shows : s.Shows m
  keeps : m.Inv

/-- A move of the monitors that is possible. -/
def Possible (m : Monitors) (mv : MonitorMove) : Prop := (m.fire mv).isSome = true

/-- The monitors can follow. -/
def Matched (s' : Locked) (m : Monitors) : Prop :=
  ∃ mvs, Meets Monitors.step Possible m mvs ∧ Sim s' (mvs.foldl Monitors.step m)

theorem matched_none (hinv : s'.Inv) (hshows : s'.Shows m) (hm : m.Inv) : Matched s' m :=
  ⟨[], trivial, hinv, hshows, hm⟩

theorem matched_one {mv : MonitorMove} (hfire : m.fire mv = some m') (hinv : s'.Inv)
    (hshows : s'.Shows m') (hm : m.Inv) : Matched s' m := by
  have hstep : m.step mv = m' := by rw [Monitors.step, hfire, Option.getD_some]
  refine ⟨[mv], ⟨by rw [Possible, hfire]; rfl, trivial⟩, ?_⟩
  rw [List.foldl_cons, List.foldl_nil, hstep]
  exact ⟨hinv, hshows, hstep ▸ hm.step mv⟩

/-- A worker looks into the queue, to begin with or awake. -/
theorem fire_look {t : Bool} (h : s.Shows m) (hcall : m.pools.nextCall i = some k.pop)
    (hlooks : s.Looks k i t) : ∃ mv, m.fire mv = m.look i k t := by
  have hasks : (m.pools.nextCall i).bind PoolCall.asks = some k := by
    rw [hcall, Option.bind_some, PoolCall.asks_eq_some_iff.mpr rfl]
  rcases hlooks with ⟨hr, rfl⟩ | hr
  · exact ⟨.lock i, by rw [Monitors.fire, hasks, h.rests, hr]⟩
  · exact ⟨.look i, by rw [Monitors.fire, h.rests, hr]⟩

/-- A step of the pools with which nobody is notified. -/
theorem fire_quiet {o : PoolCall} {out : PoolOutcome} {q : Pools}
    (hcall : m.pools.nextCall i = some o) (hasks : o.asks = none)
    (hgives : out = .served → o.gives = none) (hq : m.pools.fire (.call i out) = some q) :
    m.fire (.call i out none) = some ⟨q, m.rests⟩ := by
  have hnone : (if out = .served then o.gives else none) = none := by
    split
    next hout => exact hgives hout
    · rfl
  rw [Monitors.fire, hcall]
  dsimp only
  rw [hasks, if_neg (not_not.mpr rfl), hq, Option.bind_some, hnone]
  rfl

theorem Shows.nextCall (h : s.Shows m) (i : ℕ) : m.pools.nextCall i = s.nextCall i := by
  rw [Pools.nextCall, h.running]
  rfl

theorem pending_congr (h : s'.lock k = s.lock k) : s'.pending k = s.pending k := by
  rw [pending, pending, h]

/-- The queue, when its owner is not in between a push and a notification. -/
theorem Shows.idle (h : s.Shows m) (hpending : s.pending k = []) : m.pools.idle k = s.queue k := by
  rw [h.queue k, hpending, List.append_nil]

/-- What becomes of what is shown, when somebody who has a mutex, or takes it, does something. -/
theorem Shows.acts (h : s.Shows m) {owner : Option (ℕ × Place)} (ha : Acts s k i owner s')
    (hrunning : m'.pools.running = s'.running) (hrests : m'.rests = s'.rests)
    (hfresh : m'.pools.fresh = s'.fresh) (hidle : ∀ k', k' ≠ k → m'.pools.idle k' = m.pools.idle k')
    (hqueue : s'.queue k = m'.pools.idle k ++ s'.pending k) : s'.Shows m' := by
  refine ⟨hrunning, hrests, hfresh, fun k' ↦ ?_⟩
  by_cases hk : k' = k
  · rw [hk]
    exact hqueue
  · have hlock : s'.lock k' = s.lock k' := by rw [ha.lock, Function.update_of_ne hk]
    rw [ha.queue k' hk, hidle k' hk, pending_congr hlock]
    exact h.queue k'

/-- The same when a worker that has no mutex does something. -/
theorem Shows.outside (h : s.Shows m) (hlock : s'.lock = s.lock) (hqueue : s'.queue = s.queue)
    (hrunning : m'.pools.running = s'.running) (hrests : m'.rests = s'.rests)
    (hfresh : m'.pools.fresh = s'.fresh) (hidle : ∀ k, m'.pools.idle k = m.pools.idle k) :
    s'.Shows m' := by
  refine ⟨hrunning, hrests, hfresh, fun k ↦ ?_⟩
  rw [hqueue, hidle, pending_congr (congrFun hlock k)]
  exact h.queue k

theorem pending_eq_nil (hlock : s.lock k = some (i, p)) (hp : ∀ conn, p ≠ .notify conn) :
    s.pending k = [] := by
  rw [pending, hlock]
  cases p with
  | notify conn => exact absurd rfl (hp conn)
  | _ => rfl

theorem pending_of_free (hlock : s.lock k = none) : s.pending k = [] := by
  rw [pending, hlock]

theorem Acts.lock_self {owner : Option (ℕ × Place)} (h : Acts s k i owner s') :
    s'.lock k = owner := by
  rw [h.lock, Function.update_self]

/-! ### Steps under a mutex -/

/-- The owner goes on to another place, and does nothing else. -/
theorem Sim.goesOn (h : Sim s m) (hlock : s.lock k = some (i, p)) {owner : Option (ℕ × Place)}
    (hat : ∀ j q, owner = some (j, q) → j = i ∧ s.At k i q)
    (hpending : (s.setLock k owner).pending k = s.pending k) : Matched (s.setLock k owner) m := by
  have ha := acts_setLock s k i owner
  refine matched_none (h.inv.acts ha (h.inv.sole_of_lock hlock) fun j q hq ↦ ?_)
    (h.shows.acts ha h.shows.running h.shows.rests h.shows.fresh (fun _ _ ↦ rfl) ?_) h.keeps
  · exact ⟨(hat j q hq).1, (hat j q hq).2.congr rfl (fun _ _ h ↦ h) rfl⟩
  · rw [hpending]
    exact h.shows.queue k

/-- It returns from `getConn`, or an exception does. -/
theorem Sim.leaves (h : Sim s m) (hlock : s.lock k = some (i, p)) {mv : MonitorMove}
    {out : PoolOutcome} {f : PoolJob PUnit → PoolJob PUnit} {idle : Resource → List ℕ} {q : Pools}
    (hq : Becomes m.pools i out f idle q) (hfire : m.fire mv = some ⟨q, m.rests.set i .out⟩)
    {queue : Resource → List ℕ} (hqueue : ∀ k', k' ≠ k → queue k' = s.queue k')
    (hidle : ∀ k', k' ≠ k → idle k' = m.pools.idle k') (hk : queue k = idle k) :
    Matched { ((s.resume i f).leaveWait i).setLock k (some (i, .unlock)) with queue := queue } m := by
  have ha : Acts s k i (some (i, .unlock))
      { ((s.resume i f).leaveWait i).setLock k (some (i, .unlock)) with queue := queue } := by
    refine ⟨rfl, fun j hj ↦ ?_, fun j r hj _ hr ↦ ?_, hqueue⟩
    · exact List.getElem?_modify_ne _ _ (Ne.symm hj)
    · exact (List.getElem?_set_ne (Ne.symm hj)).trans hr
  refine matched_one hfire (h.inv.acts ha (h.inv.sole_of_lock hlock) fun j r hr ↦ ?_)
    (h.shows.acts ha ?_ ?_ ?_ ?_ ?_) h.keeps
  · cases hr
    exact ⟨rfl, trivial⟩
  · rw [hq.running, h.shows.running]
    rfl
  · rw [h.shows.rests]
    rfl
  · exact hq.fresh.trans h.shows.fresh
  · intro k' hk'
    rw [hq.idle, hidle k' hk']
  · rw [hq.idle, pending_eq_nil ha.lock_self (by simp), List.append_nil]
    exact hk

/-- It falls asleep. -/
theorem Sim.sleeps (h : Sim s m) (hlock : s.lock k = some (i, .test false))
    (hidle : s.queue k = []) :
    Matched { s.setLock k none with rests := s.rests.set i (.asleep k) } m := by
  obtain ⟨hcall, hlooks⟩ := h.inv.found k i _ hlock
  have hpending : s.pending k = [] := pending_eq_nil hlock (by simp)
  obtain ⟨mv, hmv⟩ := fire_look h.shows ((h.shows.nextCall i).trans hcall) hlooks
  have hfire : m.fire mv = some ⟨m.pools, m.rests.set i (.asleep k)⟩ := by
    rw [hmv, Monitors.look, if_neg (not_not.mpr ((h.shows.idle hpending).trans hidle))]
    rfl
  have ha : Acts s k i none { s.setLock k none with rests := s.rests.set i (.asleep k) } := by
    refine ⟨rfl, fun _ _ ↦ rfl, fun j r hj _ hr ↦ ?_, fun _ _ ↦ rfl⟩
    exact (List.getElem?_set_ne (Ne.symm hj)).trans hr
  refine matched_one hfire (h.inv.acts ha (h.inv.sole_of_lock hlock) fun j r hr ↦ ?_)
    (h.shows.acts ha h.shows.running ?_ h.shows.fresh (fun _ _ ↦ rfl) ?_) h.keeps
  · cases hr
  · rw [h.shows.rests]
  · rw [pending_of_free ha.lock_self, List.append_nil]
    exact (h.shows.idle hpending).symm

/-- It has a connection, or gives up. -/
theorem Sim.pops (h : Sim s m) {conn : ℕ} (hlock : s.lock k = some (i, .pop conn)) :
    Matched { ((s.resume i (gets (some conn))).leaveWait i).setLock k (some (i, .unlock)) with
      queue := Function.update s.queue k (s.queue k).tail } m := by
  obtain ⟨hcall, ⟨t, hlooks⟩, hhead⟩ := h.inv.found k i _ hlock
  have hidle := h.shows.idle (pending_eq_nil hlock (by simp))
  have hcall' := (h.shows.nextCall i).trans hcall
  obtain ⟨mv, hmv⟩ := fire_look h.shows hcall' hlooks
  obtain ⟨rest, hrest⟩ := List.head?_eq_some_iff.mp hhead
  obtain ⟨q, hq⟩ := becomes_pop hcall' (hidle.trans hrest)
  have hne : m.pools.idle k ≠ [] := by
    rw [hidle, hrest]
    exact List.cons_ne_nil _ _
  have hfire : m.fire mv = some ⟨q, m.rests.set i .out⟩ := by
    rw [hmv, Monitors.look, if_pos hne, hq.fire]
    rfl
  refine h.leaves hlock hq hfire (fun k' hk' ↦ Function.update_of_ne hk' ..)
    (fun k' hk' ↦ Function.update_of_ne hk' ..) ?_
  rw [Function.update_self, Function.update_self, hrest, List.tail_cons]

theorem Sim.givesUp (h : Sim s m) (hlock : s.lock k = some (i, .giveUp)) :
    Matched (((s.resume i (gets none)).leaveWait i).setLock k (some (i, .unlock))) m := by
  obtain ⟨hcall, hlooks, hnil⟩ := h.inv.found k i _ hlock
  have hidle := (h.shows.idle (pending_eq_nil hlock (by simp))).trans hnil
  have hcall' := (h.shows.nextCall i).trans hcall
  obtain ⟨mv, hmv⟩ := fire_look h.shows hcall' hlooks
  obtain ⟨q, hq⟩ := becomes_timeout hcall' hidle
  have hfire : m.fire mv = some ⟨q, m.rests.set i .out⟩ := by
    rw [hmv, Monitors.look, if_neg (not_not.mpr hidle), if_pos rfl, hq.fire]
    rfl
  exact h.leaves hlock hq hfire (fun _ _ ↦ rfl) (fun _ _ ↦ rfl) (hnil.trans hidle.symm)

/-- The log line throws. -/
theorem Sim.givesUp_throws (h : Sim s m) (hlock : s.lock k = some (i, .giveUp)) :
    Matched (((s.resume i throws).leaveWait i).setLock k (some (i, .unlock))) m := by
  obtain ⟨hcall, hlooks, hnil⟩ := h.inv.found k i _ hlock
  have hidle := (h.shows.idle (pending_eq_nil hlock (by simp))).trans hnil
  have hcall' := (h.shows.nextCall i).trans hcall
  have hawake : m.rests[i]? = some (.awake k true) := by
    rw [h.shows.rests]
    exact hlooks.resolve_left fun hout ↦ Bool.noConfusion hout.2
  obtain ⟨q, hq⟩ := becomes_throws hcall' (.inl rfl)
  have hfire : m.fire (.fail i) = some ⟨q, m.rests.set i .out⟩ := by
    rw [Monitors.fire, hcall', Option.bind_some, PoolCall.asks_eq_some_iff.mpr rfl, hawake]
    dsimp only
    rw [if_pos hidle, hq.fire]
    rfl
  exact h.leaves hlock hq hfire (fun _ _ ↦ rfl) (fun _ _ ↦ rfl) (hnil.trans hidle.symm)

/-- A connection is pushed, and nobody has been notified yet. -/
theorem Sim.pushes (h : Sim s m) {conn : ℕ} (hlock : s.lock k = some (i, .push conn)) :
    Matched { s.setLock k (some (i, .notify conn)) with
      queue := Function.update s.queue k (s.queue k ++ [conn]) } m := by
  have hcall := h.inv.found k i _ hlock
  have ha : Acts s k i (some (i, .notify conn)) { s.setLock k (some (i, .notify conn)) with
      queue := Function.update s.queue k (s.queue k ++ [conn]) } :=
    ⟨rfl, fun _ _ ↦ rfl, fun _ _ _ _ h ↦ h, fun k' hk' ↦ Function.update_of_ne hk' ..⟩
  refine matched_none (h.inv.acts ha (h.inv.sole_of_lock hlock) fun j q hq ↦ ?_)
    (h.shows.acts ha h.shows.running h.shows.rests h.shows.fresh (fun _ _ ↦ rfl) ?_) h.keeps
  · cases hq
    exact ⟨rfl, hcall⟩
  · rw [pending, ha.lock_self]
    show Function.update s.queue k (s.queue k ++ [conn]) k = _
    rw [Function.update_self, h.shows.idle (pending_eq_nil hlock (by simp))]

/-- Somebody is notified of it, if anybody is asleep. -/
theorem Sim.notifies (h : Sim s m) {conn : ℕ} {notified : Option ℕ} {rests : List Rest}
    (hlock : s.lock k = some (i, .notify conn)) (hrests : s.notify k notified = some rests) :
    Matched { (s.resume i gives).setLock k (some (i, .unlock)) with rests := rests } m := by
  have hcall : s.nextCall i = some (k.push conn) := h.inv.found k i _ hlock
  have hcall' := (h.shows.nextCall i).trans hcall
  obtain ⟨q, hq⟩ := becomes_push hcall'
  have hfire : m.fire (.call i .served notified) = some ⟨q, rests⟩ := by
    have hasks : (k.push conn).asks = none := by cases k <;> rfl
    have hgives : (k.push conn).gives = some k := by cases k <;> rfl
    have hnotify : m.notify (some k) notified = some rests := by
      rw [← hrests]
      cases notified with
      | none => rw [Monitors.notify, notify, h.shows.rests]
      | some j => rw [Monitors.notify, notify, h.shows.rests]
    rw [Monitors.fire, hcall']
    dsimp only
    rw [hasks, if_neg (not_not.mpr rfl), hq.fire, if_pos rfl, hgives, Option.bind_some, hnotify]
    rfl
  have hup : ∀ (j : ℕ) (r : Rest), r.isUp = true → s.rests[j]? = some r → rests[j]? = some r := by
    intro j r hr hj
    cases notified with
    | none =>
      obtain ⟨-, e⟩ := Option.ite_none_left_eq_some.mp hrests
      rw [← Option.some.inj e]
      exact hj
    | some j' =>
      obtain ⟨hj', e⟩ := Option.ite_none_right_eq_some.mp hrests
      have hne : j' ≠ j := by
        rintro rfl
        obtain rfl : .asleep k = r := Option.some.inj (hj'.symm.trans hj)
        cases hr
      rw [← Option.some.inj e, List.getElem?_set_ne hne]
      exact hj
  have ha : Acts s k i (some (i, .unlock))
      { (s.resume i gives).setLock k (some (i, .unlock)) with rests := rests } := by
    refine ⟨rfl, fun j hj ↦ ?_, fun j r _ ↦ hup j r, fun _ _ ↦ rfl⟩
    exact List.getElem?_modify_ne _ _ (Ne.symm hj)
  refine matched_one hfire (h.inv.acts ha (h.inv.sole_of_lock hlock) fun j r hr ↦ ?_)
    (h.shows.acts ha ?_ rfl (hq.fresh.trans h.shows.fresh) (fun k' hk' ↦ ?_) ?_) h.keeps
  · cases hr
    exact ⟨rfl, trivial⟩
  · rw [hq.running, h.shows.running]
    rfl
  · rw [hq.idle, Function.update_of_ne hk']
  · rw [hq.idle, Function.update_self, pending_eq_nil ha.lock_self (by simp), List.append_nil]
    have hqueue := h.shows.queue k
    rw [pending, hlock] at hqueue
    exact hqueue

/-- The push throws. -/
theorem Sim.pushes_throws (h : Sim s m) {conn : ℕ} (hlock : s.lock .redis = some (i, .push conn)) :
    Matched ((s.resume i throws).setLock .redis (some (i, .unlock))) m := by
  have hcall : s.nextCall i = some (.redisPush conn) := h.inv.found .redis i _ hlock
  have hcall' := (h.shows.nextCall i).trans hcall
  obtain ⟨q, hq⟩ := becomes_throws (k := .redis) hcall' (.inr ⟨conn, rfl⟩)
  have hfire : m.fire (.call i .throws none) = some ⟨q, m.rests⟩ :=
    fire_quiet hcall' rfl (fun hout ↦ by cases hout) hq.fire
  have ha : Acts s .redis i (some (i, .unlock))
      ((s.resume i throws).setLock .redis (some (i, .unlock))) := by
    refine ⟨rfl, fun j hj ↦ ?_, fun _ _ _ _ h ↦ h, fun _ _ ↦ rfl⟩
    exact List.getElem?_modify_ne _ _ (Ne.symm hj)
  refine matched_one hfire (h.inv.acts ha (h.inv.sole_of_lock hlock) fun j r hr ↦ ?_)
    (h.shows.acts ha ?_ h.shows.rests (hq.fresh.trans h.shows.fresh) (fun k' _ ↦ ?_) ?_) h.keeps
  · cases hr
    exact ⟨rfl, trivial⟩
  · rw [hq.running, h.shows.running]
    rfl
  · rw [hq.idle]
  · rw [hq.idle, pending_eq_nil ha.lock_self (by simp), List.append_nil]
    exact (h.shows.idle (pending_eq_nil hlock (by simp))).symm

/-- **A step of somebody who has a mutex.** -/
theorem Sim.work (h : Sim s m) (hlock : s.lock k = some (i, p)) {notified : Option ℕ}
    (hwork : s.work k i p notified = some s') : Matched s' m := by
  have hat := h.inv.found k i p hlock
  cases p with
  | test timedOut =>
    obtain ⟨hcall, hlooks⟩ := hat
    have hpending := pending_eq_nil hlock (by simp)
    cases notified with
    | some j => cases hwork
    | none =>
      rw [Locked.work] at hwork
      by_cases hqueue : s.queue k = []
      · rw [if_neg (not_not.mpr hqueue)] at hwork
        cases timedOut with
        | true =>
          obtain rfl := Option.some.inj hwork
          refine h.goesOn hlock (fun j q hq ↦ ?_) ?_
          · cases hq
            exact ⟨rfl, hcall, hlooks, hqueue⟩
          · rw [pending_eq_nil (Function.update_self ..) (by simp), hpending]
        | false =>
          obtain rfl := Option.some.inj hwork
          exact h.sleeps hlock hqueue
      · rw [if_pos hqueue] at hwork
        obtain rfl := Option.some.inj hwork
        refine h.goesOn hlock (fun j q hq ↦ ?_) ?_
        · cases hq
          exact ⟨rfl, hcall, ⟨timedOut, hlooks⟩, hqueue⟩
        · rw [pending_eq_nil (Function.update_self ..) (by simp), hpending]
  | front =>
    cases notified with
    | some j => cases hwork
    | none =>
      obtain ⟨conn, hhead, rfl⟩ := Option.map_eq_some_iff.mp hwork
      refine h.goesOn hlock (fun j q hq ↦ ?_) ?_
      · cases hq
        exact ⟨rfl, hat.1, hat.2.1, hhead⟩
      · rw [pending_eq_nil (Function.update_self ..) (by simp), pending_eq_nil hlock (by simp)]
  | pop conn =>
    cases notified with
    | some j => cases hwork
    | none =>
      obtain rfl := Option.some.inj hwork
      exact h.pops hlock
  | giveUp =>
    cases notified with
    | some j => cases hwork
    | none =>
      obtain rfl := Option.some.inj hwork
      exact h.givesUp hlock
  | push conn =>
    cases notified with
    | some j => cases hwork
    | none =>
      obtain rfl := Option.some.inj hwork
      exact h.pushes hlock
  | notify conn =>
    obtain ⟨rests, hrests, rfl⟩ := Option.map_eq_some_iff.mp hwork
    exact h.notifies hlock hrests
  | unlock =>
    cases notified with
    | some j => cases hwork
    | none =>
      obtain rfl := Option.some.inj hwork
      refine h.goesOn hlock (fun j q hq ↦ by cases hq) ?_
      rw [pending_eq_nil hlock (by simp), pending_of_free (Function.update_self ..)]

/-! ### The other moves -/

theorem Sim.start (h : Sim s m) {e : Errand} (hin : ¬s.Inside i) {p : PoolJob PUnit}
    (hp : s.running[i]? = some p) (hdone : p.isDone = true) :
    Matched { s with running := s.running.set i e.steps } m := by
  have hfire : m.fire (.start i e) =
      some ⟨{ m.pools with running := m.pools.running.set i e.steps }, m.rests⟩ := by
    rw [Monitors.fire, Pools.fire, h.shows.running, hp]
    dsimp only
    rw [if_pos hdone]
    rfl
  refine matched_one hfire
    (h.inv.outside rfl rfl (nextCall_of_inside hin fun j hj ↦ ?_) fun _ _ _ _ h ↦ h)
    (h.shows.outside rfl rfl ?_ h.shows.rests h.shows.fresh fun k ↦ ?_) h.keeps
  · exact List.getElem?_set_ne (Ne.symm hj)
  · rw [h.shows.running]
  · cases k with
    | mysql => rfl
    | redis => rfl

theorem Sim.call (h : Sim s m) (hin : ¬s.Inside i) {o : PoolCall}
    {next : Option o.Res → PoolJob PUnit} {out : PoolOutcome} {fresh : ℕ} {r : Option o.Res}
    (hi : s.running[i]? = some (.call o next)) (hexec : exec s.fresh o out = some (fresh, r)) :
    Matched { s with fresh := fresh, running := s.running.set i (next r) } m := by
  have hi' : m.pools.running[i]? = some (.call o next) := by rw [h.shows.running, hi]
  rw [← h.shows.fresh] at hexec
  obtain ⟨hasks, hgives, q, hq, hrunning, hfresh, hidle⟩ := becomes_exec hi' hexec
  have hcall : m.pools.nextCall i = some o := Pools.nextCall_eq_some_iff.mpr ⟨next, hi'⟩
  refine matched_one (fire_quiet hcall hasks (fun _ ↦ hgives) hq)
    (h.inv.outside rfl rfl (nextCall_of_inside hin fun j hj ↦ ?_) fun _ _ _ _ h ↦ h)
    (h.shows.outside rfl rfl ?_ h.shows.rests hfresh fun k ↦ congrFun hidle k) h.keeps
  · exact List.getElem?_set_ne (Ne.symm hj)
  · rw [hrunning, h.shows.running]

/-- The worker is where a worker begins that has just got this mutex. -/
theorem Sim.at_of_wants (h : Sim s m) (hwants : s.wants i = some (k, p)) :
    s.At k i p ∧ ∀ conn, p ≠ .notify conn := by
  rw [wants] at hwants
  rcases hr : s.rests[i]? with _ | _ | k' | ⟨k', timedOut⟩
  · rw [hr] at hwants
    cases hwants
  · -- it enters `getConn` or `releaseConn`
    rw [hr] at hwants
    obtain ⟨o, ho, hentry⟩ := Option.bind_eq_some_iff.mp hwants
    cases o with
    | mysqlPop | redisPop =>
      cases hentry
      exact ⟨⟨ho, .inl ⟨hr, rfl⟩⟩, by simp⟩
    | mysqlPush conn | redisPush conn =>
      cases hentry
      exact ⟨ho, by simp⟩
    | _ => cases hentry
  · rw [hr] at hwants
    cases hwants
  · -- it is in `wait_for`
    rw [hr] at hwants
    cases hwants
    have hasking := h.keeps.asking i _ k (by rw [h.shows.rests, hr]) rfl
    exact ⟨⟨(h.shows.nextCall i).symm.trans hasking, .inr hr⟩, by simp⟩

/-- It takes a mutex: the monitors do not move. -/
theorem Sim.acquire (h : Sim s m) (hin : ¬s.Inside i) (hwants : s.wants i = some (k, p))
    (hlock : s.lock k = none) : Matched (s.setLock k (some (i, p))) m := by
  obtain ⟨hat, hnotify⟩ := h.at_of_wants hwants
  have ha := acts_setLock s k i (some (i, p))
  have hsole : ∀ k' q, k' ≠ k → s.lock k' ≠ some (i, q) :=
    fun k' q _ hq ↦ hin (inside_iff.mpr ⟨k', q, hq⟩)
  refine matched_none (h.inv.acts ha hsole fun j q hq ↦ ?_)
    (h.shows.acts ha h.shows.running h.shows.rests h.shows.fresh (fun _ _ ↦ rfl) ?_) h.keeps
  · cases hq
    exact ⟨rfl, hat.congr rfl (fun _ _ h ↦ h) rfl⟩
  · rw [pending_eq_nil ha.lock_self hnotify, ← pending_of_free hlock]
    exact h.shows.queue k

/-- `getConn` throws, or what gives a Redis context back, because the mutex cannot be taken. -/
theorem Sim.lockFails (h : Sim s m) (hin : ¬s.Inside i) {o : PoolCall}
    (hr : s.rests[i]? = some .out) (ho : s.nextCall i = some o)
    (hcall : o = k.pop ∨ ∃ conn, o = .redisPush conn) : Matched (s.resume i throws) m := by
  have ho' := (h.shows.nextCall i).trans ho
  obtain ⟨q, hq⟩ := becomes_throws ho' hcall
  obtain ⟨mv, hfire⟩ : ∃ mv, m.fire mv = some ⟨q, m.rests⟩ := by
    rcases hcall with rfl | ⟨conn, rfl⟩
    · have hrests : m.rests.set i .out = m.rests := by
        rw [h.shows.rests]
        obtain ⟨hlt, he⟩ := List.getElem?_eq_some_iff.mp hr
        exact he ▸ List.set_getElem_self hlt
      refine ⟨.fail i, ?_⟩
      rw [Monitors.fire, ho', Option.bind_some, PoolCall.asks_eq_some_iff.mpr rfl, h.shows.rests, hr]
      dsimp only
      rw [hq.fire, ← h.shows.rests, hrests]
      rfl
    · exact ⟨.call i .throws none, fire_quiet ho' rfl (fun hout ↦ by cases hout) hq.fire⟩
  refine matched_one hfire
    (h.inv.outside rfl rfl (nextCall_of_inside hin fun j hj ↦ ?_) fun _ _ _ _ h ↦ h)
    (h.shows.outside rfl rfl ?_ h.shows.rests (hq.fresh.trans h.shows.fresh) fun k ↦ ?_) h.keeps
  · exact List.getElem?_modify_ne _ _ (Ne.symm hj)
  · rw [hq.running, h.shows.running]
    rfl
  · rw [hq.idle]

theorem Sim.wake (h : Sim s m) {timedOut : Bool} (hr : s.rests[i]? = some (.asleep k)) :
    Matched { s with rests := s.rests.set i (.awake k timedOut) } m := by
  have hfire : m.fire (.wake i timedOut) =
      some ⟨m.pools, m.rests.set i (.awake k timedOut)⟩ := by
    rw [Monitors.fire, h.shows.rests, hr]
  refine matched_one hfire (h.inv.outside rfl rfl (fun _ _ ↦ rfl) fun j r _ hup hj ↦ ?_)
    (h.shows.outside rfl rfl h.shows.running ?_ h.shows.fresh fun _ ↦ rfl) h.keeps
  · have hne : i ≠ j := by
      rintro rfl
      obtain rfl : .asleep k = r := Option.some.inj (hr.symm.trans hj)
      cases hup
    exact (List.getElem?_set_ne hne).trans hj
  · rw [h.shows.rests]

/-- **The monitors follow every move.** -/
theorem Sim.fire (h : Sim s m) {mv : LockedMove} (hmv : s.fire mv = some s') : Matched s' m := by
  cases mv with
  | start i e =>
    obtain ⟨hin, hmv⟩ := Option.ite_none_left_eq_some.mp hmv
    split at hmv
    · cases hmv
    next p hp =>
      obtain ⟨hdone, e⟩ := Option.ite_none_right_eq_some.mp hmv
      obtain rfl := Option.some.inj e
      exact h.start hin hp hdone
  | call i out =>
    obtain ⟨hin, hmv⟩ := Option.ite_none_left_eq_some.mp hmv
    split at hmv
    next o next hi =>
      obtain ⟨⟨fresh, r⟩, hexec, rfl⟩ := Option.map_eq_some_iff.mp hmv
      exact h.call hin hi hexec
    · cases hmv
  | acquire i =>
    obtain ⟨hin, hmv⟩ := Option.ite_none_left_eq_some.mp hmv
    split at hmv
    · cases hmv
    next k p hwants =>
      obtain ⟨hlock, e⟩ := Option.ite_none_right_eq_some.mp hmv
      obtain rfl := Option.some.inj e
      exact h.acquire hin hwants hlock
  | lockFails i =>
    obtain ⟨hin, hmv⟩ := Option.ite_none_left_eq_some.mp hmv
    split at hmv
    next hr ho =>
      obtain rfl := Option.some.inj hmv
      exact h.lockFails (k := .mysql) hin hr ho (.inl rfl)
    next hr ho =>
      obtain rfl := Option.some.inj hmv
      exact h.lockFails (k := .redis) hin hr ho (.inl rfl)
    next conn hr ho =>
      obtain rfl := Option.some.inj hmv
      exact h.lockFails (k := .redis) hin hr ho (.inr ⟨conn, rfl⟩)
    · cases hmv
  | work k notified =>
    rw [Locked.fire] at hmv
    split at hmv
    · cases hmv
    next i p hlock => exact h.work hlock hmv
  | throws k =>
    rw [Locked.fire] at hmv
    split at hmv
    next i hlock =>
      obtain rfl := Option.some.inj hmv
      exact h.givesUp_throws hlock
    next i conn hlock =>
      obtain ⟨rfl, e⟩ := Option.ite_none_right_eq_some.mp hmv
      obtain rfl := Option.some.inj e
      exact h.pushes_throws hlock
    · cases hmv
  | wake i timedOut =>
    rw [Locked.fire] at hmv
    split at hmv
    next k hr =>
      obtain rfl := Option.some.inj hmv
      exact h.wake hr
    · cases hmv

theorem Sim.step (h : Sim s m) (mv : LockedMove) : Matched (s.step mv) m := by
  rw [Locked.step]
  rcases hmv : s.fire mv with _ | s'
  · exact matched_none h.inv h.shows h.keeps
  · exact h.fire hmv

/-! ## The pools refine the monitors -/

theorem exists_sim (n : ℕ) (mysqlOk redisOk : ℕ → Bool) (ms : List LockedMove) :
    ∃ mvs, Meets Monitors.step Possible (.init n mysqlOk redisOk) mvs ∧
      Sim ((init n mysqlOk redisOk).run ms) (Monitors.run (.init n mysqlOk redisOk) mvs) := by
  have hmeets : Meets Locked.step (fun _ _ ↦ True) (init n mysqlOk redisOk) ms :=
    meets_of_forall (fun _ _ _ ↦ trivial) _
  exact hmeets.simulates (fun s m mv h _ ↦ h.step mv)
    ⟨inv_init n mysqlOk redisOk, shows_init n mysqlOk redisOk, Monitors.inv_init n mysqlOk redisOk⟩

/-- **The pools refine the monitors**: whatever the workers do with the mutexes and the queues, what
they have to do, where they are in `wait_for`, and the queues, but for a push of which nobody has been
notified yet, are as after moves of the monitors that are all possible.  And whoever gives up finds
the queue empty at that moment, and whoever pops takes off what it has read. -/
theorem locked_refines_monitors (n : ℕ) (mysqlOk redisOk : ℕ → Bool) (ms : List LockedMove) :
    (∃ mvs, Meets Monitors.step Possible (.init n mysqlOk redisOk) mvs ∧
        ((init n mysqlOk redisOk).run ms).Shows (Monitors.run (.init n mysqlOk redisOk) mvs)) ∧
      ∀ k i, (((init n mysqlOk redisOk).run ms).lock k = some (i, .giveUp) →
          ((init n mysqlOk redisOk).run ms).queue k = []) ∧
        ∀ conn, ((init n mysqlOk redisOk).run ms).lock k = some (i, .pop conn) →
          (((init n mysqlOk redisOk).run ms).queue k).head? = some conn := by
  obtain ⟨mvs, hmvs, hsim⟩ := exists_sim n mysqlOk redisOk ms
  refine ⟨⟨mvs, hmvs, hsim.shows⟩, fun k i ↦ ⟨fun hlock ↦ ?_, fun conn hlock ↦ ?_⟩⟩
  · exact (hsim.inv.found k i _ hlock).2.2
  · exact (hsim.inv.found k i _ hlock).2.2

/-- So no notification goes astray here either: while anybody is asleep at a pool, somebody is awake
there for every connection in the queue but the one that is being pushed. -/
theorem length_queue_le (n : ℕ) (mysqlOk redisOk : ℕ → Bool) (ms : List LockedMove) (k : Resource)
    (hasleep : .asleep k ∈ ((init n mysqlOk redisOk).run ms).rests) :
    (((init n mysqlOk redisOk).run ms).queue k).length ≤
      ((init n mysqlOk redisOk).run ms).rests.countP (Rest.isAwake k) +
        (((init n mysqlOk redisOk).run ms).pending k).length := by
  obtain ⟨mvs, -, hsim⟩ := exists_sim n mysqlOk redisOk ms
  rw [← hsim.shows.rests] at hasleep ⊢
  rw [hsim.shows.queue k, List.length_append]
  exact Nat.add_le_add_right (hsim.keeps.noLost k hasleep) _

/-- One Redis connection: worker 1 is asleep when it is given back, and is notified, but worker 2 is
first at the mutex, and then worker 1 falls asleep again. -/
example : ((init 3 (fun _ ↦ true) (· == 0)).run
    [.start 0 (.get (lit "a")), .acquire 0, .work .redis none, .start 1 (.get (lit "b")), .acquire 1,
      .work .redis none, .work .redis none, .work .redis none, .acquire 1, .work .redis none,
      .call 0 (.reply (some .nil)), .acquire 0, .work .redis none, .work .redis (some 1),
      .start 2 (.get (lit "c")), .work .redis none, .acquire 2, .work .redis none, .work .redis none,
      .work .redis none, .work .redis none, .acquire 1, .work .redis none]).rests =
    [.out, .asleep .redis, .out] := by
  decide +kernel

end Locked

end ReactorServer
