import ReactorServer.Threads.Wakeup

/-!
# A thread for every loop

The constructor of `Server` makes a `ThreadPool` of as many threads as there are sub-reactors and adds
their loops to it.  A loop is an unusual task: it does not return before the server is stopped.  So
the pool must not be too small by one, and a thread that sleeps through a notification would leave a
sub-reactor without anybody to run it.

`loops_started` says what becomes of tasks that do not return, in a pool of any size.  However their
submission, the notifications and the threads are interleaved, and whatever wakes up without a reason,
once no thread is awake and no notification is to come, the first tasks are run by a thread each, as
many as there are threads, and the others wait.
-/

set_option autoImplicit false

namespace ReactorServer

open Machine

universe u v w

variable {α : Type u} {ε : Type v} {β : Type w}

/-- The step belongs to a time at which no task returns and the pool is not destroyed. -/
def PoolStep.opening : PoolStep α ε β → Bool
  | .finish .. | .setStop => false
  | _ => true

/-- The task that a step submits. -/
def PoolStep.added? : PoolStep α ε β → Option α
  | .add task => some task
  | _ => none

namespace PoolState

variable {s s' : PoolState α ε β} {l : PoolStep α ε β}

/-- What holds before the first task has returned: nothing has been refused either. -/
structure Opening (added : List α) (s : PoolState α ε β) : Prop where
  stop : s.pool.stop = false
  destructor : s.destructor = .idle
  results : s.results = []
  accepted : s.accepted = added

theorem opening_start (n : ℕ) : Opening [] (start n : PoolState α ε β) := ⟨rfl, rfl, rfl, rfl⟩

theorem Opening.moves {added : List α} (h : Opening added s) (hm : Moves s l s')
    (hl : l.opening = true) : Opening (added ++ l.added?.toList) s' := by
  have hsame : s'.accepted = s.accepted → l.added? = none →
      s'.accepted = added ++ l.added?.toList := by
    intro haccepted hnone
    rw [haccepted, h.accepted, hnone, Option.toList_none, List.append_nil]
  cases hm with
  | @add task hstop =>
    refine ⟨h.stop, h.destructor, h.results, ?_⟩
    rw [← h.accepted]
    rfl
  | refuse hstop => exact absurd (h.stop.symm.trans hstop) (by simp)
  | finish hi => cases hl
  | setStop hidle => cases hl
  | notifyAll hstopping => exact absurd (h.destructor.symm.trans hstopping) (by simp)
  | join hjoining => exact absurd (h.destructor.symm.trans hjoining) (by simp)
  | notify | miss | take | sleep | exit | wake =>
    exact ⟨h.stop, h.destructor, h.results, hsame rfl rfl⟩

theorem Opening.step {added : List α} (h : Opening added s) (hl : l.opening = true) :
    Opening (added ++ l.added?.toList) (s.step l) := by
  rcases hadded : l.added? with _ | task
  · rcases step_moves s l with heq | hm
    · rw [heq, Option.toList_none, List.append_nil]
      exact h
    · rw [← hadded]
      exact h.moves hm hl
  · obtain rfl : l = .add task := by
      cases l with
      | add task' => exact congrArg _ (Option.some.inj hadded)
      | _ => cases hadded
    have hadd : s.step (.add task) = { s with pool := ⟨s.pool.tasks ++ [task], s.pool.stop⟩
                                              notifies := s.notifies + 1
                                              accepted := s.accepted ++ [task] } := by
      rw [PoolState.step, ThreadPool.add_of_not_stop task h.stop]
    rw [hadd]
    exact h.moves (.add h.stop) rfl

theorem Opening.run {ls : List (PoolStep α ε β)} {added : List α} (h : Opening added s)
    (hls : ∀ l ∈ ls, l.opening = true) : Opening (added ++ ls.filterMap PoolStep.added?) (s.run ls) := by
  induction ls generalizing s added with
  | nil => simpa [PoolState.run] using h
  | cons l ls ih =>
    have hnext : Opening ((added ++ l.added?.toList) ++ ls.filterMap PoolStep.added?)
        (s.run (l :: ls)) :=
      ih (h.step (hls l List.mem_cons_self)) fun l' hl' ↦ hls l' (List.mem_cons_of_mem _ hl')
    rw [List.append_assoc] at hnext
    rcases hadded : l.added? with _ | task
    · rw [List.filterMap_cons_none hadded]
      simpa [hadded] using hnext
    · rw [List.filterMap_cons_some hadded]
      simpa [hadded] using hnext

/-- A worker that is neither awake nor asleep, in a pool that is not being destroyed, runs a task. -/
theorem Sound.all_running {n : ℕ} (h : Sound n s) (hstop : s.pool.stop = false) (hawake : s.awake = 0)
    (hasleep : s.asleep = 0) : s.running.length = n := by
  have hall : ∀ w ∈ s.workers, w.task?.isSome = true := by
    intro w hw
    rcases w with _ | _ | task | _
    · exact absurd rfl (List.countP_eq_zero.mp hawake _ hw)
    · exact absurd rfl (List.countP_eq_zero.mp hasleep _ hw)
    · rfl
    · exact absurd (hstop.symm.trans (h.exited hw).1) (by simp)
  rw [running, List.length_filterMap_eq_countP, List.countP_eq_length.mpr hall, h.size]

/-- **The first tasks get a thread each**: in every run in which tasks are submitted but none returns,
once no worker is awake and no notification is to come, the workers are at the first tasks, one at each,
and the others are in the queue. -/
theorem loops_started (n : ℕ) (ls : List (PoolStep α ε β)) (hls : ∀ l ∈ ls, l.opening = true)
    (hawake : ((start n).run ls).awake = 0) (hnotifies : ((start n).run ls).notifies = 0) :
    ((start n).run ls).running.Perm ((ls.filterMap PoolStep.added?).take n) ∧
      ((start n).run ls).pool.tasks = (ls.filterMap PoolStep.added?).drop n := by
  have hsound : Sound n ((start n).run ls) := (sound_start n).run ls
  have hopening : Opening (ls.filterMap PoolStep.added?) ((start n).run ls) :=
    (opening_start n).run hls
  generalize (start n).run ls = s at *
  have hperm : s.running.Perm s.taken := by simpa [hopening.results] using hsound.once
  have hfifo : ls.filterMap PoolStep.added? = s.taken ++ s.pool.tasks :=
    hopening.accepted.symm.trans hsound.fifo
  have hle : s.taken.length ≤ n := by
    rw [← hperm.length_eq, ← hsound.size]
    exact List.length_filterMap_le ..
  by_cases htasks : s.pool.tasks = []
  · rw [htasks, List.append_nil] at hfifo
    rw [hfifo, List.take_of_length_le hle, List.drop_of_length_le hle, htasks]
    exact ⟨hperm, rfl⟩
  · -- nobody sleeps while there is a task
    have hasleep : s.asleep = 0 := by
      by_contra hne
      have hlost := hsound.noLost (Nat.pos_of_ne_zero hne)
      rw [hnotifies, hawake] at hlost
      exact htasks (List.eq_nil_of_length_eq_zero (Nat.le_zero.mp hlost))
    have hlen : s.taken.length = n := by
      rw [← hperm.length_eq]
      exact hsound.all_running hopening.stop hawake hasleep
    rw [hfifo, List.take_left' hlen, List.drop_left' hlen]
    exact ⟨hperm, rfl⟩

/-- Three loops and two threads, one of which is woken up twice without a reason. -/
def threeLoops : List (PoolStep ℕ String Unit) :=
  [.look 0, .add 0, .spurious 0, .look 0, .notifyOne 0, .add 1, .add 2, .look 1, .notifyOne 5,
    .notifyOne 0, .spurious 1]

theorem loops_started_threeLoops :
    ((start 2).run threeLoops).running.Perm [0, 1] ∧ ((start 2).run threeLoops).pool.tasks = [2] :=
  loops_started 2 threeLoops (by decide) (by decide) (by decide)

end PoolState

end ReactorServer
