import ReactorServer.Lib.Machine
import Mathlib.Data.List.Perm.Basic

/-!
# The thread pool

`ThreadPool` is a queue of tasks under a lock, a condition variable, and some worker threads.  A
critical section is one step here: nobody blocks while holding `tasks_mtx_`, and `wait` gives the
lock back in the same instant in which the thread goes to sleep.  Everything that happens outside
of the lock is a step of its own, in particular the `notify_one` at the end of `add` and the
`notify_all` of the destructor, so that anything may come between a task and its notification.

A task is whatever it is (`α`).  `add` wraps it in a `packaged_task`, so a task that throws puts its
exception where another one puts its value, and the worker that ran it goes on.
-/

set_option autoImplicit false

namespace ReactorServer

open Machine

universe u v w

variable {α : Type u} {ε : Type v} {β : Type w}

/-- A list with one entry replaced, up to order. -/
theorem exists_perm_set {γ : Type u} {l : List γ} {i : ℕ} {a : γ} (h : l[i]? = some a) :
    ∃ rest, l.Perm (a :: rest) ∧ ∀ b, (l.set i b).Perm (b :: rest) := by
  obtain ⟨hi, ha⟩ := List.getElem?_eq_some_iff.mp h
  refine ⟨l.eraseIdx i, ?_, fun b ↦ List.set_perm_cons_eraseIdx hi b⟩
  have key := List.set_perm_cons_eraseIdx hi a
  rwa [← ha, List.set_getElem_self, ha] at key

/-! ## The queue -/

/-- The members of a `ThreadPool` that are under its lock. -/
structure ThreadPool (α : Type u) where
  tasks : List α
  stop : Bool
  deriving DecidableEq, Repr

/-- Where a worker thread is. -/
inductive PoolThread (α : Type u) where
  /-- About to take the lock: at the top of its loop, or woken up in `wait`. -/
  | awake
  /-- In `cv_.wait`. -/
  | asleep
  /-- Running a task. -/
  | running (task : α)
  /-- Its function has returned. -/
  | exited
  deriving DecidableEq, Repr

namespace PoolThread

/-- The task a worker is running. -/
def task? : PoolThread α → Option α
  | .running task => some task
  | _ => none

def isAwake : PoolThread α → Bool
  | .awake => true
  | _ => false

def isAsleep : PoolThread α → Bool
  | .asleep => true
  | _ => false

/-- The worker after a `notify_all`. -/
def notified : PoolThread α → PoolThread α
  | .asleep => .awake
  | w => w

end PoolThread

namespace ThreadPool

/-- The critical section of `ThreadPool::add`. -/
def add (p : ThreadPool α) (task : α) : Except String (ThreadPool α) :=
  if p.stop then .error "enqueue on stopped ThreadPool"
  else .ok { p with tasks := p.tasks ++ [task] }

theorem add_of_stop {p : ThreadPool α} (task : α) (h : p.stop = true) :
    p.add task = .error "enqueue on stopped ThreadPool" := if_pos h

theorem add_of_not_stop {p : ThreadPool α} (task : α) (h : p.stop = false) :
    p.add task = .ok ⟨p.tasks ++ [task], p.stop⟩ := if_neg (by simp [h])

/-- What a thread in `wait` waits for. -/
def ready (p : ThreadPool α) : Bool := p.stop || !p.tasks.isEmpty

/-- The critical section of a worker, from the test of the condition on: it goes to sleep, returns,
or takes the first task. -/
def next (p : ThreadPool α) : PoolThread α × ThreadPool α :=
  if p.ready then
    if p.stop && p.tasks.isEmpty then (.exited, p)
    else
      match p.tasks with
      | [] => (.exited, p) -- not reached: the condition would not hold
      | task :: tasks => (.running task, { p with tasks := tasks })
  else (.asleep, p)

end ThreadPool

/-! ## The pool, its workers, and its users -/

/-- How far the destructor is. -/
inductive Destructor where
  /-- It has not been called. -/
  | idle
  /-- `stop_` is set, and `notify_all` is to come. -/
  | stopping
  /-- It has notified everybody and joined this many threads. -/
  | joining (joined : ℕ)
  deriving DecidableEq, Repr

/-- A pool with everything that goes on around it. -/
structure PoolState (α : Type u) (ε : Type v) (β : Type w) where
  pool : ThreadPool α
  workers : List (PoolThread α)
  destructor : Destructor
  /-- The calls of `add` that have queued their task and not yet called `notify_one`. -/
  notifies : ℕ
  /-- The tasks that have been queued, oldest first. -/
  accepted : List α
  /-- The tasks for which `add` has thrown. -/
  refused : List α
  /-- The tasks that have been taken from the queue, oldest first. -/
  taken : List α
  /-- The tasks that have been run, with the value or the exception that went into the future. -/
  results : List (α × Except ε β)
  deriving Repr

/-- What can happen. -/
inductive PoolStep (α : Type u) (ε : Type v) (β : Type w) where
  /-- A thread is in the critical section of `add`. -/
  | add (task : α)
  /-- A call of `add` gets to its `notify_one`, which wakes this worker. -/
  | notifyOne (i : ℕ)
  /-- A worker is in its critical section. -/
  | look (i : ℕ)
  /-- A worker is through with its task. -/
  | finish (i : ℕ) (result : Except ε β)
  /-- `wait` lets a worker go without a reason. -/
  | spurious (i : ℕ)
  /-- The destructor sets `stop_`. -/
  | setStop
  /-- The destructor calls `notify_all`. -/
  | notifyAll
  /-- The destructor joins the next thread. -/
  | join
  deriving Repr

namespace PoolState

/-- The pool after the constructor. -/
def start (size : ℕ) : PoolState α ε β :=
  ⟨⟨[], false⟩, List.replicate size .awake, .idle, 0, [], [], [], []⟩

/-- The workers that are about to look at the queue. -/
def awake (s : PoolState α ε β) : ℕ := s.workers.countP PoolThread.isAwake

/-- The workers in `wait`. -/
def asleep (s : PoolState α ε β) : ℕ := s.workers.countP PoolThread.isAsleep

/-- The tasks that are being run. -/
def running (s : PoolState α ε β) : List α := s.workers.filterMap PoolThread.task?

/-- One step; one that is not possible changes nothing. -/
def step (s : PoolState α ε β) : PoolStep α ε β → PoolState α ε β
  | .add task =>
    match s.pool.add task with
    | .error _ => { s with refused := s.refused ++ [task] }
    | .ok pool =>
      { s with pool := pool, notifies := s.notifies + 1, accepted := s.accepted ++ [task] }
  | .notifyOne i =>
    if s.notifies = 0 then s
    else
      match s.workers[i]? with
      | some .asleep =>
        { s with workers := s.workers.set i .awake, notifies := s.notifies - 1 }
      | _ => if s.asleep = 0 then { s with notifies := s.notifies - 1 } else s
  | .look i =>
    match s.workers[i]? with
    | some .awake =>
      let (w, pool) := s.pool.next
      { s with pool := pool, workers := s.workers.set i w, taken := s.taken ++ w.task?.toList }
    | _ => s
  | .finish i result =>
    match s.workers[i]? with
    | some (.running task) =>
      { s with workers := s.workers.set i .awake, results := s.results ++ [(task, result)] }
    | _ => s
  | .spurious i =>
    match s.workers[i]? with
    | some .asleep => { s with workers := s.workers.set i .awake }
    | _ => s
  | .setStop =>
    match s.destructor with
    | .idle => { s with pool := { s.pool with stop := true }, destructor := .stopping }
    | _ => s
  | .notifyAll =>
    match s.destructor with
    | .stopping =>
      { s with workers := s.workers.map PoolThread.notified, destructor := .joining 0 }
    | _ => s
  | .join =>
    match s.destructor with
    | .joining k =>
      match s.workers[k]? with
      | some .exited => { s with destructor := .joining (k + 1) }
      | _ => s
    | _ => s

/-- A run. -/
def run (s : PoolState α ε β) (ls : List (PoolStep α ε β)) : PoolState α ε β := ls.foldl step s

/-! ## What a step can do -/

/-- **Everything that can happen to a pool**, with what it takes. -/
inductive Moves (s : PoolState α ε β) : PoolStep α ε β → PoolState α ε β → Prop
  | add {task : α} (hstop : s.pool.stop = false) : Moves s (.add task) { s with
      pool := ⟨s.pool.tasks ++ [task], s.pool.stop⟩, notifies := s.notifies + 1,
      accepted := s.accepted ++ [task] }
  | refuse {task : α} (hstop : s.pool.stop = true) :
      Moves s (.add task) { s with refused := s.refused ++ [task] }
  | notify {i : ℕ} (hn : s.notifies ≠ 0) (hi : s.workers[i]? = some .asleep) :
      Moves s (.notifyOne i) { s with
        workers := s.workers.set i .awake, notifies := s.notifies - 1 }
  | miss {i : ℕ} (hn : s.notifies ≠ 0) (hasleep : s.asleep = 0) :
      Moves s (.notifyOne i) { s with notifies := s.notifies - 1 }
  | take {i : ℕ} {task : α} {tasks : List α} (hi : s.workers[i]? = some .awake)
      (htasks : s.pool.tasks = task :: tasks) : Moves s (.look i) { s with
        pool := ⟨tasks, s.pool.stop⟩, workers := s.workers.set i (.running task),
        taken := s.taken ++ [task] }
  | sleep {i : ℕ} (hi : s.workers[i]? = some .awake) (htasks : s.pool.tasks = [])
      (hstop : s.pool.stop = false) :
      Moves s (.look i) { s with workers := s.workers.set i .asleep }
  | exit {i : ℕ} (hi : s.workers[i]? = some .awake) (htasks : s.pool.tasks = [])
      (hstop : s.pool.stop = true) :
      Moves s (.look i) { s with workers := s.workers.set i .exited }
  | finish {i : ℕ} {task : α} {result : Except ε β} (hi : s.workers[i]? = some (.running task)) :
      Moves s (.finish i result) { s with
        workers := s.workers.set i .awake, results := s.results ++ [(task, result)] }
  | wake {i : ℕ} (hi : s.workers[i]? = some .asleep) :
      Moves s (.spurious i) { s with workers := s.workers.set i .awake }
  | setStop (hidle : s.destructor = .idle) : Moves s .setStop { s with
      pool := ⟨s.pool.tasks, true⟩, destructor := .stopping }
  | notifyAll (hstopping : s.destructor = .stopping) : Moves s .notifyAll { s with
      workers := s.workers.map PoolThread.notified, destructor := .joining 0 }
  | join {k : ℕ} (hjoining : s.destructor = .joining k) (hk : s.workers[k]? = some .exited) :
      Moves s .join { s with destructor := .joining (k + 1) }

/-- A worker in its critical section takes the first task, if there is one. -/
theorem step_look {s : PoolState α ε β} {i : ℕ} (hi : s.workers[i]? = some .awake) :
    Moves s (.look i) (s.step (.look i)) := by
  rw [step, hi]
  dsimp only
  rw [ThreadPool.next, ThreadPool.ready]
  rcases htasks : s.pool.tasks with _ | ⟨task, tasks⟩
  · cases hstop : s.pool.stop with
    | true =>
      have key : Moves s (.look i) _ := .exit hi htasks hstop
      simpa [htasks, hstop, PoolThread.task?] using key
    | false =>
      have key : Moves s (.look i) _ := .sleep hi htasks hstop
      simpa [htasks, hstop, PoolThread.task?] using key
  · have key : Moves s (.look i) _ := .take hi htasks
    simpa [htasks, PoolThread.task?] using key

theorem step_moves (s : PoolState α ε β) (l : PoolStep α ε β) :
    s.step l = s ∨ Moves s l (s.step l) := by
  cases l with
  | add task =>
    right
    rw [step]
    cases hstop : s.pool.stop with
    | true => rw [ThreadPool.add_of_stop task hstop]; exact .refuse hstop
    | false => rw [ThreadPool.add_of_not_stop task hstop]; exact .add hstop
  | look i =>
    by_cases hi : s.workers[i]? = some .awake
    · exact .inr (step_look hi)
    · left
      rw [step]
      split
      · contradiction
      · rfl
  | notifyOne i =>
    rw [step]
    split
    · exact .inl rfl
    · rename_i hn
      split
      · rename_i hi
        exact .inr (.notify hn hi)
      · split
        · rename_i hasleep
          exact .inr (.miss hn hasleep)
        · exact .inl rfl
  | finish i result =>
    rw [step]
    split
    · rename_i task hi
      exact .inr (.finish hi)
    · exact .inl rfl
  | spurious i =>
    rw [step]
    split
    · rename_i hi
      exact .inr (.wake hi)
    · exact .inl rfl
  | setStop =>
    rw [step]
    split
    · rename_i h
      exact .inr (.setStop h)
    · exact .inl rfl
  | notifyAll =>
    rw [step]
    split
    · rename_i h
      exact .inr (.notifyAll h)
    · exact .inl rfl
  | join =>
    rw [step]
    split
    · rename_i k h
      split
      · rename_i hk
        exact .inr (.join h hk)
      · exact .inl rfl
    · exact .inl rfl

end PoolState

end ReactorServer
