import ReactorServer.Threads.Pool

/-!
# No task is lost, and no wake-up

Two things could go wrong with a queue like this.  A task could be run twice, or not at all, or out
of turn; and a worker could sleep on while there is work, because the notification that was meant
for it went to nobody.

The first is a matter of bookkeeping: what has been accepted is what has been taken and what is
still queued, in that order, and what has been taken has been run or is being run.  For the second
the right invariant counts: while anybody is asleep, there are at least as many workers awake, or
notifications to come, as there are tasks in the queue (`Sound.noLost`).  A notification that finds
nobody asleep does no harm, since then there is nothing to say; and the invariant has to be
established again only when a worker falls asleep, which it does only when the queue is empty.
-/

set_option autoImplicit false

namespace ReactorServer

open Machine

universe u v w

variable {α : Type u} {ε : Type v} {β : Type w}

/-! ## One thread among many -/

/-- A step that gets the pool on with its work, without a new task or a spurious wake-up. -/
def PoolStep.works : PoolStep α ε β → Bool
  | .notifyOne _ | .look _ | .finish _ _ | .notifyAll => true
  | _ => false

namespace PoolState

variable {s s' : PoolState α ε β} {l : PoolStep α ε β}

theorem countP_set {i : ℕ} {a b : PoolThread α} (p : PoolThread α → Bool)
    (hi : s.workers[i]? = some a) :
    (s.workers.set i b).countP p + (p a).toNat = s.workers.countP p + (p b).toNat := by
  obtain ⟨rest, hold, hnew⟩ := exists_perm_set hi
  have key : ∀ w : PoolThread α, (w :: rest).countP p = rest.countP p + (p w).toNat := by
    intro w
    rw [List.countP_cons]
    cases p w <;> rfl
  rw [hold.countP_eq, (hnew b).countP_eq, key, key]
  omega

/-- The tasks being run, when one worker goes from one state to another. -/
theorem running_set {i : ℕ} {a b : PoolThread α} (hi : s.workers[i]? = some a) :
    ∃ rest, s.running.Perm (a.task?.toList ++ rest) ∧
      ((s.workers.set i b).filterMap PoolThread.task?).Perm (b.task?.toList ++ rest) := by
  obtain ⟨rest, hold, hnew⟩ := exists_perm_set hi
  have key : ∀ w : PoolThread α, (w :: rest).filterMap PoolThread.task? =
      w.task?.toList ++ rest.filterMap PoolThread.task? := by
    intro w
    cases w <;> rfl
  refine ⟨rest.filterMap PoolThread.task?, ?_, ?_⟩
  · rw [← key]
    exact hold.filterMap _
  · rw [← key]
    exact (hnew b).filterMap _

/-! ## The invariant -/

/-- What holds of a pool of `n` workers at any time. -/
structure Sound (n : ℕ) (s : PoolState α ε β) : Prop where
  size : s.workers.length = n
  /-- Tasks are taken in the order in which they were accepted. -/
  fifo : s.accepted = s.taken ++ s.pool.tasks
  /-- What has been taken has been run or is being run, each task once. -/
  once : (s.results.map Prod.fst ++ s.running).Perm s.taken
  /-- While anybody is asleep, somebody is on the way for every task. -/
  noLost : 0 < s.asleep → s.pool.tasks.length ≤ s.notifies + s.awake
  exited : .exited ∈ s.workers → s.pool.stop = true ∧ s.pool.tasks = []
  stopped : s.destructor = .idle ∨ s.pool.stop = true
  awakened : ∀ k, s.destructor = .joining k → s.asleep = 0
  joined : ∀ k, s.destructor = .joining k → ∀ j < k, s.workers[j]? = some .exited

theorem sound_start (n : ℕ) : Sound n (start n : PoolState α ε β) where
  size := List.length_replicate
  fifo := rfl
  once := by simp [start, running, PoolThread.task?]
  noLost := fun _ ↦ Nat.zero_le _
  exited := fun h ↦ by simp [start] at h
  stopped := .inl rfl
  awakened := fun k h ↦ by simp [start] at h
  joined := fun k h ↦ by simp [start] at h

theorem fifo_moves (h : s.accepted = s.taken ++ s.pool.tasks) (hm : Moves s l s') :
    s'.accepted = s'.taken ++ s'.pool.tasks := by
  cases hm with
  | add hstop =>
    dsimp only
    rw [h, List.append_assoc]
  | take hi htasks =>
    dsimp only
    rw [h, htasks, List.append_assoc]
    rfl
  | _ => exact h

theorem running_notified (ws : List (PoolThread α)) :
    (ws.map PoolThread.notified).filterMap PoolThread.task? = ws.filterMap PoolThread.task? := by
  rw [List.filterMap_map]
  congr 1
  funext w
  cases w <;> rfl

/-- A worker that does not touch a task leaves them as they are. -/
theorem running_set_none {i : ℕ} {a b : PoolThread α} (hi : s.workers[i]? = some a)
    (ha : a.task? = none) (hb : b.task? = none) :
    ((s.workers.set i b).filterMap PoolThread.task?).Perm s.running := by
  obtain ⟨rest, hold, hnew⟩ := running_set (b := b) hi
  rw [ha] at hold
  rw [hb] at hnew
  exact hnew.trans hold.symm

theorem once_moves (h : (s.results.map Prod.fst ++ s.running).Perm s.taken) (hm : Moves s l s') :
    (s'.results.map Prod.fst ++ s'.running).Perm s'.taken := by
  cases hm with
  | notify hn hi | sleep hi htasks hstop | exit hi htasks hstop | wake hi =>
    exact ((running_set_none hi rfl rfl).append_left _).trans h
  | @take i task tasks hi htasks =>
    obtain ⟨rest, hold, hnew⟩ := running_set (b := .running task) hi
    calc (s.results.map Prod.fst ++ (s.workers.set i (.running task)).filterMap PoolThread.task?)
      _ |>.Perm (s.results.map Prod.fst ++ (task :: rest)) := hnew.append_left _
      _ |>.Perm (task :: (s.results.map Prod.fst ++ rest)) := List.perm_middle
      _ |>.Perm (task :: s.taken) := ((hold.symm.append_left _).trans h).cons task
      _ |>.Perm (s.taken ++ [task]) := (List.perm_append_singleton task _).symm
  | @finish i task result hi =>
    obtain ⟨rest, hold, hnew⟩ := running_set (b := .awake) hi
    have hold' : s.running.Perm (task :: rest) := hold
    have hnew' : ((s.workers.set i .awake).filterMap PoolThread.task?).Perm rest := hnew
    rw [List.map_append, List.append_assoc]
    exact (((hnew'.append_left [task]).trans hold'.symm).append_left _).trans h
  | notifyAll hstopping =>
    rw [running, running_notified]
    exact h
  | _ => exact h

theorem asleep_notified (ws : List (PoolThread α)) :
    (ws.map PoolThread.notified).countP PoolThread.isAsleep = 0 := by
  rw [List.countP_eq_zero]
  intro w hw
  obtain ⟨w, -, rfl⟩ := List.mem_map.mp hw
  cases w <;> simp [PoolThread.notified, PoolThread.isAsleep]

/-- **The wake-up invariant.** -/
theorem noLost_moves (h : 0 < s.asleep → s.pool.tasks.length ≤ s.notifies + s.awake)
    (hm : Moves s l s') : 0 < s'.asleep → s'.pool.tasks.length ≤ s'.notifies + s'.awake := by
  intro hpos
  cases hm with
  | add hstop =>
    have key := h hpos
    simp only [List.length_append, List.length_singleton, awake] at key ⊢
    omega
  | @notify i hn hi =>
    -- one notification less, and one worker more
    have hawake : (s.workers.set i .awake).countP PoolThread.isAwake + 0 = s.awake + 1 :=
      countP_set _ hi
    have hslept : (s.workers.set i .awake).countP PoolThread.isAsleep + 1 = s.asleep + 0 :=
      countP_set _ hi
    have key := h (by omega)
    dsimp only [awake] at *
    omega
  | miss hn hnone => exact absurd hnone (Nat.ne_of_gt hpos)
  | @take i task tasks hi htasks =>
    -- one task less, and one worker less
    have hawake : (s.workers.set i (.running task)).countP PoolThread.isAwake + 1 = s.awake + 0 :=
      countP_set _ hi
    have hslept : (s.workers.set i (.running task)).countP PoolThread.isAsleep + 0 = s.asleep + 0 :=
      countP_set _ hi
    have key := h (by dsimp only [asleep] at *; omega)
    rw [htasks, List.length_cons] at key
    dsimp only [awake] at *
    omega
  | sleep hi htasks hstop =>
    dsimp only
    rw [htasks]
    exact Nat.zero_le _
  | exit hi htasks hstop =>
    dsimp only
    rw [htasks]
    exact Nat.zero_le _
  | @finish i task result hi =>
    have hawake : (s.workers.set i .awake).countP PoolThread.isAwake + 0 = s.awake + 1 :=
      countP_set _ hi
    have hslept : (s.workers.set i .awake).countP PoolThread.isAsleep + 0 = s.asleep + 0 :=
      countP_set _ hi
    have key := h (by dsimp only [asleep] at *; omega)
    dsimp only [awake] at *
    omega
  | @wake i hi =>
    have hawake : (s.workers.set i .awake).countP PoolThread.isAwake + 0 = s.awake + 1 :=
      countP_set _ hi
    have hslept : (s.workers.set i .awake).countP PoolThread.isAsleep + 1 = s.asleep + 0 :=
      countP_set _ hi
    have key := h (by omega)
    dsimp only [awake] at *
    omega
  | notifyAll hstopping => exact absurd (asleep_notified s.workers) (Nat.ne_of_gt hpos)
  | refuse | setStop | join => exact h hpos

/-- A worker that returns finds the pool stopped and empty, and it stays so. -/
theorem exited_moves (h : .exited ∈ s.workers → s.pool.stop = true ∧ s.pool.tasks = [])
    (hm : Moves s l s') : .exited ∈ s'.workers → s'.pool.stop = true ∧ s'.pool.tasks = [] := by
  intro hmem
  cases hm with
  | add hstop => exact absurd (h hmem).1 (by simp [hstop])
  | notify hn hi =>
    exact h ((List.mem_or_eq_of_mem_set hmem).resolve_right (by simp))
  | take hi htasks =>
    have key := (h ((List.mem_or_eq_of_mem_set hmem).resolve_right (by simp))).2
    exact absurd (htasks.symm.trans key) (by simp)
  | exit hi htasks hstop => exact ⟨hstop, htasks⟩
  | sleep hi | finish hi | wake hi =>
    exact h ((List.mem_or_eq_of_mem_set hmem).resolve_right (by simp))
  | setStop hidle => exact ⟨rfl, (h hmem).2⟩
  | notifyAll hstopping =>
    obtain ⟨w, hw, hw'⟩ := List.mem_map.mp hmem
    cases w with
    | exited => exact h hw
    | _ => exact absurd hw' (by simp [PoolThread.notified])
  | miss | refuse | join => exact h hmem

theorem stopped_moves (h : s.destructor = .idle ∨ s.pool.stop = true) (hm : Moves s l s') :
    s'.destructor = .idle ∨ s'.pool.stop = true := by
  cases hm with
  | setStop hidle => exact .inr rfl
  | notifyAll hstopping => exact .inr (h.resolve_left (by simp [hstopping]))
  | join hjoining hk => exact .inr (h.resolve_left (by simp [hjoining]))
  | _ => exact h

/-- After `notify_all` nobody goes to sleep any more. -/
theorem awakened_moves (hstopped : s.destructor = .idle ∨ s.pool.stop = true)
    (h : ∀ k, s.destructor = .joining k → s.asleep = 0) (hm : Moves s l s') :
    ∀ k, s'.destructor = .joining k → s'.asleep = 0 := by
  intro k hk
  cases hm with
  | @notify i hn hi =>
    have hslept : (s.workers.set i .awake).countP PoolThread.isAsleep + 1 = s.asleep + 0 :=
      countP_set _ hi
    have key := h k hk
    omega
  | @take i task tasks hi htasks =>
    have hslept : (s.workers.set i (.running task)).countP PoolThread.isAsleep + 0 = s.asleep + 0 :=
      countP_set _ hi
    exact hslept.trans (h k hk)
  | sleep hi htasks hstop =>
    rcases hstopped with hidle | hstop'
    · exact absurd (hidle.symm.trans hk) (by simp)
    · exact absurd (hstop.symm.trans hstop') (by simp)
  | @exit i hi htasks hstop =>
    have hslept : (s.workers.set i .exited).countP PoolThread.isAsleep + 0 = s.asleep + 0 :=
      countP_set _ hi
    exact hslept.trans (h k hk)
  | @finish i task result hi =>
    have hslept : (s.workers.set i .awake).countP PoolThread.isAsleep + 0 = s.asleep + 0 :=
      countP_set _ hi
    exact hslept.trans (h k hk)
  | @wake i hi =>
    have hslept : (s.workers.set i .awake).countP PoolThread.isAsleep + 1 = s.asleep + 0 :=
      countP_set _ hi
    have key := h k hk
    omega
  | setStop hidle => exact absurd hk (by simp)
  | notifyAll hstopping => exact asleep_notified s.workers
  | join hjoining => exact h _ hjoining
  | add | refuse | miss => exact h k hk

/-- A worker that has returned does nothing any more. -/
theorem exited_getElem? {j : ℕ} (h : s.workers[j]? = some .exited) (hm : Moves s l s') :
    s'.workers[j]? = some .exited := by
  have key : ∀ {i : ℕ} {a b : PoolThread α}, s.workers[i]? = some a → a ≠ .exited →
      (s.workers.set i b)[j]? = some .exited := by
    intro i a b hi ha
    rw [List.getElem?_set_ne]
    · exact h
    · rintro rfl
      exact ha (Option.some_inj.mp (hi.symm.trans h))
  cases hm with
  | notify hn hi | take hi htasks | sleep hi htasks hstop | exit hi htasks hstop | finish hi
  | wake hi => exact key hi (by simp)
  | notifyAll hstopping =>
    dsimp only
    rw [List.getElem?_map, h]
    rfl
  | _ => exact h

theorem joined_moves (h : ∀ k, s.destructor = .joining k → ∀ j < k, s.workers[j]? = some .exited)
    (hm : Moves s l s') :
    ∀ k, s'.destructor = .joining k → ∀ j < k, s'.workers[j]? = some .exited := by
  intro k hk j hj
  have hold : s.workers[j]? = some .exited := by
    cases hm with
    | setStop hidle => exact absurd hk (by simp)
    | notifyAll hstopping =>
      obtain rfl : 0 = k := by simpa using hk
      exact absurd hj (Nat.not_lt_zero j)
    | @join k' hjoining hk' =>
      obtain rfl : k' + 1 = k := by simpa using hk
      rcases Nat.lt_succ_iff_lt_or_eq.mp hj with hj | rfl
      · exact h k' hjoining j hj
      · exact hk'
    | _ => exact h k hk j hj
  exact exited_getElem? hold hm

theorem size_moves (hm : Moves s l s') : s'.workers.length = s.workers.length := by
  cases hm <;> simp

/-- **One step.** -/
theorem Sound.moves {n : ℕ} (h : Sound n s) (hm : Moves s l s') : Sound n s' where
  size := (size_moves hm).trans h.size
  fifo := fifo_moves h.fifo hm
  once := once_moves h.once hm
  noLost := noLost_moves h.noLost hm
  exited := exited_moves h.exited hm
  stopped := stopped_moves h.stopped hm
  awakened := awakened_moves h.stopped h.awakened hm
  joined := joined_moves h.joined hm

theorem Sound.step {n : ℕ} (h : Sound n s) (l : PoolStep α ε β) : Sound n (s.step l) := by
  rcases step_moves s l with heq | hm
  · rwa [heq]
  · exact h.moves hm

/-- **Every run.** -/
theorem Sound.run {n : ℕ} (h : Sound n s) (ls : List (PoolStep α ε β)) : Sound n (s.run ls) :=
  (meets_of_forall (fun _ _ _ ↦ trivial) s : Meets PoolState.step (fun _ _ ↦ True) s ls).invariant
    (fun _ l hs _ ↦ hs.step l) h

/-! ## The work that is left -/

/-- How many steps that get on with the work there can be at most. -/
def work (s : PoolState α ε β) : ℕ :=
  3 * s.pool.tasks.length + 2 * s.notifies + s.awake + 2 * s.running.length +
    if s.destructor = .stopping then s.workers.length + 1 else 0

theorem work_lt (hm : Moves s l s') (hl : l.works = true) : s'.work < s.work := by
  have hset : ∀ {i : ℕ} {a b : PoolThread α}, s.workers[i]? = some a →
      ((s.workers.set i b).filterMap PoolThread.task?).length + a.task?.toList.length =
        s.running.length + b.task?.toList.length := by
    intro i a b hi
    obtain ⟨rest, hold, hnew⟩ := running_set (b := b) hi
    rw [hold.length_eq, hnew.length_eq, List.length_append, List.length_append]
    omega
  cases hm with
  | @notify i hn hi =>
    have hawake : (s.workers.set i .awake).countP PoolThread.isAwake + 0 = s.awake + 1 :=
      countP_set _ hi
    have hrun : ((s.workers.set i .awake).filterMap PoolThread.task?).length + 0 =
      s.running.length + 0 := hset hi
    simp only [work, awake, running, List.length_set] at *
    omega
  | miss hn hnone =>
    simp only [work, awake, running] at *
    omega
  | @take i task tasks hi htasks =>
    have hawake : (s.workers.set i (.running task)).countP PoolThread.isAwake + 1 = s.awake + 0 :=
      countP_set _ hi
    have hrun : ((s.workers.set i (.running task)).filterMap PoolThread.task?).length + 0 =
      s.running.length + 1 := hset hi
    simp only [work, awake, running, List.length_set, htasks, List.length_cons] at *
    omega
  | @sleep i hi htasks hstop =>
    have hawake : (s.workers.set i .asleep).countP PoolThread.isAwake + 1 = s.awake + 0 :=
      countP_set _ hi
    have hrun : ((s.workers.set i .asleep).filterMap PoolThread.task?).length + 0 =
      s.running.length + 0 := hset hi
    simp only [work, awake, running, List.length_set] at *
    omega
  | @exit i hi htasks hstop =>
    have hawake : (s.workers.set i .exited).countP PoolThread.isAwake + 1 = s.awake + 0 :=
      countP_set _ hi
    have hrun : ((s.workers.set i .exited).filterMap PoolThread.task?).length + 0 =
      s.running.length + 0 := hset hi
    simp only [work, awake, running, List.length_set] at *
    omega
  | @finish i task result hi =>
    have hawake : (s.workers.set i .awake).countP PoolThread.isAwake + 0 = s.awake + 1 :=
      countP_set _ hi
    have hrun : ((s.workers.set i .awake).filterMap PoolThread.task?).length + 1 =
      s.running.length + 0 := hset hi
    simp only [work, awake, running, List.length_set] at *
    omega
  | notifyAll hstopping =>
    have hle := List.countP_le_length (p := PoolThread.isAwake) (l := s.workers.map PoolThread.notified)
    rw [List.length_map] at hle
    simp only [work, awake, running, running_notified, hstopping, List.length_map] at *
    simp only [reduceCtorEq, if_false, if_true]
    omega
  | _ => exact absurd hl (by simp [PoolStep.works])

/-- A stretch of a run in which every step gets on with the work. -/
def Busy : PoolState α ε β → List (PoolStep α ε β) → Prop :=
  Meets step fun s l ↦ l.works = true ∧ s.step l ≠ s

/-- **The work comes to an end.** -/
theorem length_le_work {ls : List (PoolStep α ε β)} (h : Busy s ls) : ls.length ≤ s.work := by
  induction ls generalizing s with
  | nil => exact Nat.zero_le _
  | cons l ls ih =>
    obtain ⟨⟨hl, hne⟩, hrest⟩ := h
    have hlt := work_lt ((step_moves s l).resolve_left hne) hl
    have hle := ih hrest
    rw [List.length_cons]
    omega

/-- No step can get on with the work. -/
def Done (s : PoolState α ε β) : Prop := ∀ l : PoolStep α ε β, l.works = true → s.step l = s

theorem Done.not_moves (h : s.Done) (hl : l.works = true) : ¬ Moves s l (s.step l) := by
  intro hm
  have hlt := work_lt hm hl
  rw [h l hl] at hlt
  exact Nat.lt_irrefl _ hlt

theorem Done.awake_eq (h : s.Done) : s.awake = 0 := by
  rw [awake, List.countP_eq_zero]
  intro w hw hawake
  obtain ⟨i, hi⟩ := List.getElem?_of_mem hw
  obtain rfl : w = .awake := by
    cases w with
    | awake => rfl
    | _ => exact absurd hawake (by simp [PoolThread.isAwake])
  exact h.not_moves (l := .look i) rfl (step_look hi)

theorem Done.running_eq [Inhabited β] (h : s.Done) : s.running = [] := by
  rw [running, List.filterMap_eq_nil_iff]
  intro w hw
  obtain ⟨i, hi⟩ := List.getElem?_of_mem hw
  cases w with
  | running task =>
    have hstep : s.step (.finish i (.ok default)) = { s with
        workers := s.workers.set i .awake, results := s.results ++ [(task, .ok default)] } := by
      rw [step, hi]
    exact absurd (hstep ▸ .finish hi) (h.not_moves (l := .finish i (.ok default)) rfl)
  | _ => rfl

theorem Done.notifies_eq (h : s.Done) : s.notifies = 0 := by
  by_contra hn
  by_cases hasleep : s.asleep = 0
  · have hnone : ∀ i : ℕ, s.workers[i]? ≠ some .asleep := by
      intro i hi
      exact List.countP_eq_zero.mp hasleep _ (List.mem_of_getElem? hi) rfl
    have hstep : s.step (.notifyOne 0) = { s with notifies := s.notifies - 1 } := by
      rw [step, if_neg hn]
      split
      · rename_i hi
        exact absurd hi (hnone 0)
      · rw [if_pos hasleep]
    exact absurd (hstep ▸ .miss hn hasleep) (h.not_moves (l := .notifyOne 0) rfl)
  · obtain ⟨w, hw, hasleep'⟩ := List.countP_pos_iff.mp (Nat.pos_of_ne_zero hasleep)
    obtain ⟨i, hi⟩ := List.getElem?_of_mem hw
    obtain rfl : w = .asleep := by
      cases w with
      | asleep => rfl
      | _ => exact absurd hasleep' (by simp [PoolThread.isAsleep])
    have hstep : s.step (.notifyOne i) = { s with
        workers := s.workers.set i .awake, notifies := s.notifies - 1 } := by
      rw [step, if_neg hn, hi]
    exact absurd (hstep ▸ .notify hn hi) (h.not_moves (l := .notifyOne i) rfl)

/-- A pool with nobody awake, and no notification to come, has nothing in its queue. -/
theorem Sound.tasks_eq_nil {n : ℕ} (h : Sound n s) (hn : 0 < n) (hrun : s.running = [])
    (hawake : s.awake = 0) (hnotifies : s.notifies = 0) : s.pool.tasks = [] := by
  by_contra htasks
  obtain ⟨w, ws, hws⟩ := List.exists_cons_of_ne_nil (l := s.workers)
    (List.ne_nil_of_length_pos (h.size ▸ hn))
  have hw : w ∈ s.workers := hws ▸ List.mem_cons_self
  have hasleep : 0 < s.asleep := by
    refine List.countP_pos_iff.mpr ⟨w, hw, ?_⟩
    cases w with
    | awake => exact absurd rfl (List.countP_eq_zero.mp hawake _ hw)
    | asleep => rfl
    | running task => exact absurd (List.filterMap_eq_nil_iff.mp hrun _ hw) (by simp [PoolThread.task?])
    | exited => exact absurd (h.exited hw).2 htasks
  have key := h.noLost hasleep
  rw [hnotifies, hawake] at key
  exact htasks (List.eq_nil_of_length_eq_zero (Nat.le_zero.mp key))

/-- What has been run, when the queue is empty and nobody is running anything. -/
theorem Sound.results_perm {n : ℕ} (h : Sound n s) (htasks : s.pool.tasks = [])
    (hrun : s.running = []) : (s.results.map Prod.fst).Perm s.accepted := by
  have key := h.once
  rwa [hrun, List.append_nil, ← List.append_nil s.taken, ← htasks, ← h.fifo] at key

/-! ## What a pool is for -/

/-- What a pool of `n` workers guarantees, in any state it can be in. -/
structure Delivers (n : ℕ) (s : PoolState α ε β) : Prop where
  /-- Tasks are taken in the order in which they were accepted. -/
  inOrder : s.accepted = s.taken ++ s.pool.tasks
  /-- Every task that has been taken has been run, or is being run, once. -/
  onlyOnce : (s.results.map Prod.fst ++ s.running).Perm s.taken
  /-- When the workers get on with their work they come to an end with it, and then every accepted
  task has been run once. -/
  everyTask : ∀ ls, Busy s ls → ls.length ≤ s.work ∧
    ((s.run ls).Done → ((s.run ls).results.map Prod.fst).Perm (s.run ls).accepted)
  /-- Nobody sleeps through a task or through the end. -/
  wakes : ¬ ((s.pool.tasks ≠ [] ∨ ∃ k, s.destructor = .joining k) ∧
    (∀ w ∈ s.workers, w = .asleep) ∧ s.notifies = 0 ∧ s.destructor ≠ .stopping)
  /-- A pool that has been stopped takes no task. -/
  refuses : s.pool.stop = true → ∀ task,
    s.pool.add task = .error "enqueue on stopped ThreadPool" ∧
      s.step (.add task) = { s with refused := s.refused ++ [task] }
  /-- The destructor does not return before everything has been run. -/
  drained : s.destructor = .joining n → s.pool.tasks = [] ∧
    (∀ w ∈ s.workers, w = .exited) ∧ (s.results.map Prod.fst).Perm s.accepted

theorem Sound.wakes {n : ℕ} (h : Sound n s) (hn : 0 < n) :
    ¬ ((s.pool.tasks ≠ [] ∨ ∃ k, s.destructor = .joining k) ∧
      (∀ w ∈ s.workers, w = .asleep) ∧ s.notifies = 0 ∧ s.destructor ≠ .stopping) := by
  rintro ⟨hwork, hall, hnotifies, -⟩
  have hrun : s.running = [] := by
    rw [running, List.filterMap_eq_nil_iff]
    rintro w hw
    rw [hall w hw]
    rfl
  have hawake : s.awake = 0 := by
    rw [awake, List.countP_eq_zero]
    intro w hw
    rw [hall w hw]
    simp [PoolThread.isAwake]
  rcases hwork with htasks | ⟨k, hk⟩
  · exact htasks (h.tasks_eq_nil hn hrun hawake hnotifies)
  · have hnone := List.countP_eq_zero.mp (h.awakened k hk)
    obtain ⟨w, ws, hws⟩ := List.exists_cons_of_ne_nil (l := s.workers)
      (List.ne_nil_of_length_pos (h.size ▸ hn))
    have hw : w ∈ s.workers := hws ▸ List.mem_cons_self
    exact hnone w hw (by rw [hall w hw]; rfl)

theorem Sound.drained {n : ℕ} (h : Sound n s) (hn : 0 < n) (hjoined : s.destructor = .joining n) :
    s.pool.tasks = [] ∧ (∀ w ∈ s.workers, w = .exited) ∧
      (s.results.map Prod.fst).Perm s.accepted := by
  have hall : ∀ w ∈ s.workers, w = .exited := by
    intro w hw
    obtain ⟨j, hj⟩ := List.getElem?_of_mem hw
    have hlt : j < n := h.size ▸ (List.getElem?_eq_some_iff.mp hj).1
    exact Option.some_inj.mp (hj.symm.trans (h.joined n hjoined j hlt))
  have htasks : s.pool.tasks = [] :=
    (h.exited (List.mem_of_getElem? (h.joined n hjoined 0 hn))).2
  have hrun : s.running = [] := by
    rw [running, List.filterMap_eq_nil_iff]
    intro w hw
    rw [hall w hw]
    rfl
  exact ⟨htasks, hall, h.results_perm htasks hrun⟩

theorem refuses_of_stop (hstop : s.pool.stop = true) (task : α) :
    s.pool.add task = .error "enqueue on stopped ThreadPool" ∧
      s.step (.add task) = { s with refused := s.refused ++ [task] } := by
  have hadd := ThreadPool.add_of_stop task hstop
  exact ⟨hadd, by rw [step, hadd]⟩

/-- **A thread pool delivers every task, once and in order, and nobody sleeps through one.**  For
any number of workers, and whatever happens in whatever order. -/
theorem pool_delivers [Inhabited β] (n : ℕ) (hn : 0 < n) (ls : List (PoolStep α ε β)) :
    Delivers n ((start n).run ls) := by
  have h : Sound n ((start n).run ls) := (sound_start n).run ls
  refine ⟨h.fifo, h.once, fun ls' hbusy ↦ ⟨length_le_work hbusy, fun hdone ↦ ?_⟩, h.wakes hn,
    refuses_of_stop, h.drained hn⟩
  have h' := h.run ls'
  exact h'.results_perm
    (h'.tasks_eq_nil hn hdone.running_eq hdone.awake_eq hdone.notifies_eq) hdone.running_eq

/-- Two workers fall asleep and are woken by two tasks, the first of which is taken first and ends
last; the second one throws.  Then the pool is destroyed. -/
def twoTasks : List (PoolStep ℕ String Unit) :=
  [.look 0, .look 1, .add 7, .add 8, .notifyOne 1, .look 1, .notifyOne 0, .look 0,
   .finish 0 (.error "boom"), .setStop, .add 9, .notifyAll, .finish 1 (.ok ()), .look 1, .look 0,
   .join, .join]

theorem pool_delivers_twoTasks :
    ((start 2).run twoTasks).results = [(8, .error "boom"), (7, .ok ())] ∧
      ((start 2).run twoTasks).destructor = .joining 2 ∧
      (((start 2).run twoTasks).results.map Prod.fst).Perm [7, 8] :=
  ⟨rfl, rfl, ((pool_delivers 2 (by decide) twoTasks).drained rfl).2.2⟩

end PoolState

end ReactorServer
