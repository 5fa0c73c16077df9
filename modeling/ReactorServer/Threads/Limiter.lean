import ReactorServer.Bytes
import ReactorServer.Lib.Machine

/-!
# The rate limiter

`allowRequest` counts the requests of the current second in two atomic variables that all reactor
threads share.  Each of its accesses is one step here, and the steps of any number of calls go
through each other in any order; a call reads the clock once, when it is entered.

The window is rolled over in three steps, a look at the second, a store of the new one and a store of
zero, and the increment comes after that.  A request that another call counts in between is forgotten,
and so are those of a second that a late call takes the window away from.  `Undisturbed` is the
condition on a step that leaves this out.  Then no second has more requests than it should
(`rate_limited`).
-/

set_option autoImplicit false

namespace ReactorServer

open Machine

/-! ## Calls of `allowRequest` -/

/-- The next access of a call. -/
inductive LimiterPc where
  | load
  | storeWindow
  | storeCount
  | fetchAdd
  | done
  deriving DecidableEq, Repr

/-- A call of `allowRequest`: what it read off the clock, and where it is. -/
structure LimiterCall where
  now : ℕ
  pc : LimiterPc
  deriving DecidableEq, Repr

/-- The call has found another second and has not yet set the count to zero. -/
def LimiterCall.rollsOver (c : LimiterCall) : Bool := c.pc == .storeWindow || c.pc == .storeCount

/-- The static variables of `allowRequest`, the clock, and all calls there have been. -/
structure Limiter where
  windowSec : ℕ
  count : Int32
  clock : ℕ
  calls : List LimiterCall
  deriving DecidableEq, Repr

/-- A step of the system. -/
inductive LimiterStep where
  /-- A second goes by. -/
  | tick
  /-- `allowRequest` is called. -/
  | enter
  /-- The next access of a call. -/
  | access (i : ℕ)
  deriving DecidableEq, Repr

namespace Limiter

/-- Before the first call. -/
def new (clock : ℕ) : Limiter := ⟨0, 0, clock, []⟩

/-- Call `i` goes on to its next access. -/
def goOn (s : Limiter) (i : ℕ) (c : LimiterCall) (pc : LimiterPc) : Limiter :=
  { s with calls := s.calls.set i { c with pc := pc } }

section Step

variable (limit : Int32)

/-- A step, with `config::kRateLimitQps` equal to `limit`. -/
def step (s : Limiter) : LimiterStep → Limiter
  | .tick => { s with clock := s.clock + 1 }
  | .enter =>
    -- without a limit the call returns at once
    { s with calls := s.calls ++ [⟨s.clock, if limit ≤ 0 then .done else .load⟩] }
  | .access i =>
    match s.calls[i]? with
    | none => s
    | some c =>
      match c.pc with
      | .load => s.goOn i c (if s.windowSec ≠ c.now then .storeWindow else .fetchAdd)
      | .storeWindow => { s.goOn i c .storeCount with windowSec := c.now }
      | .storeCount => { s.goOn i c .fetchAdd with count := 0 }
      | .fetchAdd => { s.goOn i c .done with count := s.count + 1 }
      | .done => s

/-- The calls that return in a step: the second they read, and what they return. -/
def returns (s : Limiter) : LimiterStep → List (ℕ × Bool)
  | .tick => []
  | .enter => if limit ≤ 0 then [(s.clock, true)] else []
  | .access i =>
    match s.calls[i]? with
    | none => []
    | some c => if c.pc = .fetchAdd then [(c.now, decide (s.count < limit))] else []

/-- **What an access does.** -/
theorem access_cases (s : Limiter) (i : ℕ) :
    (s.step limit (.access i) = s ∧ s.returns limit (.access i) = []) ∨
      ∃ c, s.calls[i]? = some c ∧
        (c.pc = .load ∧ s.windowSec ≠ c.now ∧ s.returns limit (.access i) = [] ∧
            s.step limit (.access i) = s.goOn i c .storeWindow ∨
          c.pc = .load ∧ s.windowSec = c.now ∧ s.returns limit (.access i) = [] ∧
            s.step limit (.access i) = s.goOn i c .fetchAdd ∨
          c.pc = .storeWindow ∧ s.returns limit (.access i) = [] ∧
            s.step limit (.access i) = { s.goOn i c .storeCount with windowSec := c.now } ∨
          c.pc = .storeCount ∧ s.returns limit (.access i) = [] ∧
            s.step limit (.access i) = { s.goOn i c .fetchAdd with count := 0 } ∨
          c.pc = .fetchAdd ∧ s.returns limit (.access i) = [(c.now, decide (s.count < limit))] ∧
            s.step limit (.access i) = { s.goOn i c .done with count := s.count + 1 }) := by
  unfold step returns
  dsimp only
  cases hc : s.calls[i]? with
  | none => exact .inl ⟨rfl, rfl⟩
  | some c =>
    dsimp only
    cases hpc : c.pc with
    | load =>
      by_cases hsec : s.windowSec = c.now
      · exact .inr ⟨c, rfl, .inr (.inl ⟨hpc, hsec, rfl, by simp [hsec]⟩)⟩
      · exact .inr ⟨c, rfl, .inl ⟨hpc, hsec, rfl, by simp [hsec]⟩⟩
    | storeWindow => exact .inr ⟨c, rfl, .inr (.inr (.inl ⟨hpc, rfl, rfl⟩))⟩
    | storeCount => exact .inr ⟨c, rfl, .inr (.inr (.inr (.inl ⟨hpc, rfl, rfl⟩)))⟩
    | fetchAdd => exact .inr ⟨c, rfl, .inr (.inr (.inr (.inr ⟨hpc, rfl, rfl⟩)))⟩
    | done => exact .inl ⟨rfl, rfl⟩

end Step

/-! ## The condition -/

/-- The condition on a step.  A call that looks at the window does not find a second after its own, and
one that counts its request does so in its own second, while nobody is about to set the count to zero,
and before the count has come to `INT_MAX`. -/
def Undisturbed (s : Limiter) : LimiterStep → Prop
  | .access i =>
    match s.calls[i]? with
    | some ⟨now, .load⟩ => s.windowSec ≤ now
    | some ⟨now, .fetchAdd⟩ =>
      (∀ c ∈ s.calls, c.rollsOver = false) ∧ s.windowSec = now ∧ s.count < Int32.maxValue
    | _ => True
  | _ => True

instance (s : Limiter) : ∀ l : LimiterStep, Decidable (s.Undisturbed l)
  | .access i => by
    unfold Undisturbed
    dsimp only
    split <;> infer_instance
  | .tick => inferInstanceAs (Decidable True)
  | .enter => inferInstanceAs (Decidable True)

/-! ## The invariant -/

/-- Where the calls are, and what has been returned: no second has had more than its share, and the
count is not behind unless somebody is about to set it to zero.  Those who are have read a second that
nobody has been let through for, and so is the window once one of them has stored it. -/
structure Inv (limit : Int32) (s : Limiter) (log : List (ℕ × Bool)) : Prop where
  bounded : ∀ sec, (log.count (sec, true) : ℤ) ≤ limit.toInt
  past : ∀ sec, (sec, true) ∈ log → sec ≤ s.windowSec
  rolling : ∀ c ∈ s.calls, c.rollsOver = true → ∀ sec, (sec, true) ∈ log → sec < c.now
  stored : ∀ c ∈ s.calls, c.pc = .storeCount → ∀ sec, (sec, true) ∈ log → sec < s.windowSec
  counted : (∀ c ∈ s.calls, c.rollsOver = false) →
    (log.count (s.windowSec, true) : ℤ) ≤ s.count.toInt

theorem inv_new {limit : Int32} (hlimit : 0 < limit) (clock : ℕ) : Inv limit (new clock) [] where
  bounded sec := by
    rw [Int32.lt_iff_toInt_lt, Int32.toInt_zero] at hlimit
    exact Int.le_of_lt hlimit
  past sec hsec := absurd hsec (by simp)
  rolling c hc := absurd hc (by simp [new])
  stored c hc := absurd hc (by simp [new])
  counted _ := by simp [new]

section Access

variable {limit : Int32} {s : Limiter} {log : List (ℕ × Bool)} {i : ℕ} {c : LimiterCall}

theorem mem_goOn {pc : LimiterPc} {c' : LimiterCall} (h : c' ∈ (s.goOn i c pc).calls) :
    c' = { c with pc := pc } ∨ c' ∈ s.calls :=
  (List.mem_or_eq_of_mem_set h).symm

theorem mem_goOn_self (hc : s.calls[i]? = some c) (pc : LimiterPc) :
    { c with pc := pc } ∈ (s.goOn i c pc).calls :=
  List.mem_set (List.getElem?_eq_some_iff.mp hc).1 _

/-- The other calls are still there. -/
theorem mem_goOn_of_mem (hc : s.calls[i]? = some c) (pc : LimiterPc) {c' : LimiterCall}
    (h : c' ∈ s.calls) : c' = c ∨ c' ∈ (s.goOn i c pc).calls := by
  obtain ⟨j, hj⟩ := List.mem_iff_getElem?.mp h
  by_cases hij : i = j
  · subst hij
    exact .inl (Option.some.inj (hj.symm.trans hc))
  · refine .inr (List.mem_of_getElem? (i := j) ?_)
    rw [goOn, List.getElem?_set, if_neg hij]
    exact hj

/-- A call whose next access is not one of the roll-over leaves those that roll over as they are. -/
theorem Inv.goOn (h : Inv limit s log) {pc : LimiterPc}
    (hpc : ({ c with pc := pc } : LimiterCall).rollsOver = false)
    (hcounted : (∀ c' ∈ (s.goOn i c pc).calls, c'.rollsOver = false) →
      (log.count (s.windowSec, true) : ℤ) ≤ s.count.toInt) : Inv limit (s.goOn i c pc) log where
  bounded := h.bounded
  past := h.past
  rolling c' hc' hroll := by
    rcases mem_goOn hc' with rfl | hc'
    · exact absurd hroll (by simp [hpc])
    · exact h.rolling c' hc' hroll
  stored c' hc' hstore := by
    rcases mem_goOn hc' with rfl | hc'
    · have hpc' : pc = .storeCount := hstore
      exact absurd hpc (by simp [LimiterCall.rollsOver, hpc'])
    · exact h.stored c' hc' hstore
  counted := hcounted

/-- Who finds another second has read one that nobody has been let through for. -/
theorem Inv.load_other (h : Inv limit s log) (hc : s.calls[i]? = some c) (hlt : s.windowSec < c.now) :
    Inv limit (s.goOn i c .storeWindow) log where
  bounded := h.bounded
  past := h.past
  rolling c' hc' hroll sec hsec := by
    rcases mem_goOn hc' with rfl | hc'
    · exact lt_of_le_of_lt (h.past sec hsec) hlt
    · exact h.rolling c' hc' hroll sec hsec
  stored c' hc' hstore := by
    rcases mem_goOn hc' with rfl | hc'
    · exact absurd hstore (by simp)
    · exact h.stored c' hc' hstore
  counted hnone := absurd (hnone _ (mem_goOn_self hc _)) (by simp [LimiterCall.rollsOver])

theorem Inv.load_same (h : Inv limit s log) (hc : s.calls[i]? = some c) (hpc : c.pc = .load) :
    Inv limit (s.goOn i c .fetchAdd) log := by
  refine h.goOn rfl fun hnone ↦ h.counted fun c' hc' ↦ ?_
  rcases mem_goOn_of_mem hc .fetchAdd hc' with rfl | hc'
  · simp [LimiterCall.rollsOver, hpc]
  · exact hnone c' hc'

/-- The new second is one that nobody has been let through for. -/
theorem Inv.window (h : Inv limit s log) (hc : s.calls[i]? = some c) (hpc : c.pc = .storeWindow) :
    Inv limit { s.goOn i c .storeCount with windowSec := c.now } log := by
  have hnew : ∀ sec, (sec, true) ∈ log → sec < c.now :=
    h.rolling c (List.mem_of_getElem? hc) (by simp [LimiterCall.rollsOver, hpc])
  refine ⟨h.bounded, fun sec hsec ↦ (hnew sec hsec).le, fun c' hc' hroll ↦ ?_, fun _ _ _ ↦ hnew,
    fun hnone ↦ ?_⟩
  · rcases mem_goOn hc' with rfl | hc'
    · exact hnew
    · exact h.rolling c' hc' hroll
  · exact absurd (hnone _ (mem_goOn_self hc _)) (by simp [LimiterCall.rollsOver])

theorem Inv.zero (h : Inv limit s log) (hc : s.calls[i]? = some c) (hpc : c.pc = .storeCount) :
    Inv limit { s.goOn i c .fetchAdd with count := 0 } log := by
  have hfresh : log.count (s.windowSec, true) = 0 := by
    refine List.count_eq_zero_of_not_mem fun hmem ↦ ?_
    exact lt_irrefl _ (h.stored c (List.mem_of_getElem? hc) hpc s.windowSec hmem)
  have hzero : Inv limit { s with count := 0 } log :=
    ⟨h.bounded, h.past, h.rolling, h.stored, fun _ ↦ by rw [hfresh]; simp⟩
  exact hzero.goOn rfl fun _ ↦ by rw [hfresh]; simp

/-- **The increment**: a request that is let through is counted, and it is let through only while the
count is below the limit. -/
theorem Inv.add (h : Inv limit s log) (hnone : ∀ c ∈ s.calls, c.rollsOver = false)
    (hsec : s.windowSec = c.now) (hmax : s.count < Int32.maxValue) :
    Inv limit { s.goOn i c .done with count := s.count + 1 }
      (log ++ [(c.now, decide (s.count < limit))]) := by
  have hcounted := h.counted hnone
  have hsucc : (s.count + 1).toInt = s.count.toInt + 1 := by
    rw [Int32.lt_iff_toInt_lt, Int32.toInt_maxValue] at hmax
    have hle := s.count.le_toInt
    rw [Int32.toInt_add, Int32.toInt_one]
    exact Int.bmod_eq_of_le (by omega) (by omega)
  have hlog : ∀ sec, (log ++ [(c.now, decide (s.count < limit))]).count (sec, true) =
      log.count (sec, true) + if c.now = sec ∧ s.count < limit then 1 else 0 := by
    intro sec
    rw [List.count_append, List.count_singleton]
    congr 1
    refine if_congr ?_ rfl rfl
    rw [beq_iff_eq, Prod.mk.injEq, decide_eq_true_iff]
  -- nobody rolls the window over now, and nobody will by this step
  have hstill : ∀ c' ∈ (s.goOn i c .done).calls, c'.rollsOver = false := by
    intro c' hc'
    rcases mem_goOn hc' with rfl | hc'
    · rfl
    · exact hnone c' hc'
  refine ⟨fun sec ↦ ?_, fun sec hmem ↦ ?_, fun c' hc' hroll ↦ ?_, fun c' hc' hstore ↦ ?_, fun _ ↦ ?_⟩
  · rw [hlog]
    split
    · rename_i hlet
      obtain ⟨rfl, hlet⟩ := hlet
      rw [Int32.lt_iff_toInt_lt] at hlet
      rw [hsec] at hcounted
      push_cast
      omega
    · exact h.bounded sec
  · rcases List.mem_append.mp hmem with hmem | hmem
    · exact h.past sec hmem
    · have hnow : sec = c.now := (Prod.mk.inj (List.mem_singleton.mp hmem)).1
      exact (hnow.trans hsec.symm).le
  · exact absurd hroll (by simp [hstill c' hc'])
  · exact absurd (hstill c' hc') (by simp [LimiterCall.rollsOver, hstore])
  · show (((log ++ _).count (s.windowSec, true) : ℕ) : ℤ) ≤ (s.count + 1).toInt
    rw [hlog, hsucc]
    split
    · push_cast
      omega
    · push_cast
      omega

end Access

/-- A step that is not disturbed keeps the invariant. -/
theorem Inv.step {limit : Int32} (hlimit : 0 < limit) {s : Limiter} {log : List (ℕ × Bool)}
    (h : Inv limit s log) {l : LimiterStep} (hl : s.Undisturbed l) :
    Inv limit (s.step limit l) (log ++ s.returns limit l) := by
  cases l with
  | tick =>
    rw [returns, List.append_nil]
    exact ⟨h.bounded, h.past, h.rolling, h.stored, h.counted⟩
  | enter =>
    have hpos : ¬ limit ≤ 0 := by
      rw [Int32.lt_iff_toInt_lt] at hlimit
      rw [Int32.le_iff_toInt_le]
      omega
    rw [returns, Limiter.step, if_neg hpos, if_neg hpos, List.append_nil]
    -- a call that has just been entered is at its load
    have hmem : ∀ c ∈ s.calls ++ [⟨s.clock, .load⟩], c ∈ s.calls ∨ c.pc = .load := by
      intro c hc
      refine (List.mem_append.mp hc).imp_right fun hnew ↦ ?_
      rw [List.mem_singleton.mp hnew]
    refine ⟨h.bounded, h.past, fun c hc hroll ↦ ?_, fun c hc hstore ↦ ?_, fun hnone ↦ ?_⟩
    · rcases hmem c hc with hc | hload
      · exact h.rolling c hc hroll
      · exact absurd hroll (by simp [LimiterCall.rollsOver, hload])
    · rcases hmem c hc with hc | hload
      · exact h.stored c hc hstore
      · exact absurd (hload.symm.trans hstore) (by simp)
    · exact h.counted fun c hc ↦ hnone c (List.mem_append_left _ hc)
  | access i =>
    rcases access_cases limit s i with ⟨e, hret⟩ | ⟨⟨now, pc⟩, hc, hcase⟩
    · rw [e, hret, List.append_nil]
      exact h
    rw [Undisturbed, hc] at hl
    rcases hcase with ⟨rfl, hne, hret, e⟩ | ⟨rfl, hsec, hret, e⟩ | ⟨rfl, hret, e⟩ | ⟨rfl, hret, e⟩ |
      ⟨rfl, hret, e⟩
    · rw [e, hret, List.append_nil]
      exact h.load_other hc (lt_of_le_of_ne hl hne)
    · rw [e, hret, List.append_nil]
      exact h.load_same hc rfl
    · rw [e, hret, List.append_nil]
      exact h.window hc rfl
    · rw [e, hret, List.append_nil]
      exact h.zero hc rfl
    · rw [e, hret]
      exact h.add hl.1 hl.2.1 hl.2.2

/-! ## Runs -/

/-- **The rate limit.**  In a run whose steps are not disturbed, the calls that have read a second and
return true are no more than the limit, for every second. -/
theorem rate_limited (limit : Int32) (hlimit : 0 < limit) (clock : ℕ) {steps : List LimiterStep}
    (h : Meets (step limit) Undisturbed (new clock) steps) (sec : ℕ) :
    ((trace (step limit) (returns limit) (new clock) steps).count (sec, true) : ℤ) ≤ limit.toInt := by
  have hinv : Inv limit (steps.foldl (step limit) (new clock))
      ([] ++ trace (step limit) (returns limit) (new clock) steps) :=
    h.trace_invariant (fun s log l hs hl ↦ hs.step hlimit hl) (inv_new hlimit clock)
  exact hinv.bounded sec

/-- Two calls in one second, one after the other. -/
def inTurn : List LimiterStep :=
  [.enter, .access 0, .access 0, .access 0, .access 0, .enter, .access 1, .access 1]

/-- With a limit of one, the second call is refused. -/
theorem rate_limited_inTurn :
    trace (step 1) (returns 1) (new 5) inTurn = [(5, true), (5, false)] ∧
      ((trace (step 1) (returns 1) (new 5) inTurn).count (5, true) : ℤ) ≤ (1 : Int32).toInt :=
  ⟨by decide, rate_limited 1 (by decide) 5 (by decide) 5⟩

/-- Two calls that both find the old second before either of them has stored the new one. -/
def atOnce : List LimiterStep :=
  [.enter, .enter, .access 0, .access 1, .access 0, .access 0, .access 0, .access 1, .access 1,
    .access 1]

/-- Each of them starts the count again, and with a limit of one both are let through. -/
theorem rate_limit_exceeded :
    trace (step 1) (returns 1) (new 5) atOnce = [(5, true), (5, true)] ∧
      ¬ ((trace (step 1) (returns 1) (new 5) atOnce).count (5, true) : ℤ) ≤ (1 : Int32).toInt := by
  decide

end Limiter

end ReactorServer
