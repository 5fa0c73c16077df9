import Mathlib.Logic.Basic
import Mathlib.Data.List.Basic

/-!
# Runs of a machine

A machine is a step function `σ → ℓ → σ`; a label that is not enabled leaves the state alone.  A
run is a left fold, and what one wants to know about it is proved one step at a time.

`Meets step ok s ls` says that every step of the run from `s` along `ls` meets the condition `ok`,
which may look at the state before the step.  There are two rules.  `Meets.invariant` is the usual
one, for a property that survives every step that meets the condition.  `holds_iff_meets` is for a
property that a step can only destroy, and destroys exactly when it fails to meet the condition:
then the property holds at the end of a run if and only if every step met it.

`trace step emit s ls` collects what the steps of a run emit, and `Meets.trace_invariant` is the
invariant rule for a property of the state and of what has been emitted.  `Meets.trace_eq` compares
the traces of two machines that run in step, and `Meets.refines` is for machines that do not: what
is one step to the one may be several to the other, or none.
-/

set_option autoImplicit false

namespace Machine

universe u v w

variable {σ : Type u} {ℓ : Type v} {step : σ → ℓ → σ} {ok : σ → ℓ → Prop}

/-- Every step of the run from a state meets a condition. -/
def Meets (step : σ → ℓ → σ) (ok : σ → ℓ → Prop) : σ → List ℓ → Prop
  | _, [] => True
  | s, l :: ls => ok s l ∧ Meets step ok (step s l) ls

instance instDecidableMeets [∀ s l, Decidable (ok s l)] : ∀ (ls : List ℓ) (s : σ), Decidable (Meets step ok s ls)
  | [], _ => inferInstanceAs (Decidable True)
  | l :: ls, s =>
    have := instDecidableMeets ls (step s l)
    inferInstanceAs (Decidable (_ ∧ _))

theorem meets_append {s : σ} {ls ls' : List ℓ} :
    Meets step ok s (ls ++ ls') ↔ Meets step ok s ls ∧ Meets step ok (ls.foldl step s) ls' := by
  induction ls generalizing s with
  | nil => simp [Meets]
  | cons l ls ih => rw [List.cons_append, Meets, Meets, ih, and_assoc, List.foldl_cons]

/-- A condition that holds of every label in every state. -/
theorem meets_of_forall {ls : List ℓ} (h : ∀ l ∈ ls, ∀ s, ok s l) (s : σ) : Meets step ok s ls := by
  induction ls generalizing s with
  | nil => trivial
  | cons l ls ih =>
    exact ⟨h l List.mem_cons_self s, ih (fun l' hl ↦ h l' (List.mem_cons_of_mem _ hl)) _⟩

theorem Meets.imp {ok' : σ → ℓ → Prop} (h : ∀ s l, ok s l → ok' s l) {s : σ} {ls : List ℓ}
    (hls : Meets step ok s ls) : Meets step ok' s ls := by
  induction ls generalizing s with
  | nil => trivial
  | cons l ls ih => exact ⟨h s l hls.1, ih hls.2⟩

theorem Meets.and {ok' : ℓ → Prop} {s : σ} {ls : List ℓ} (h : Meets step ok s ls)
    (h' : ∀ l ∈ ls, ok' l) : Meets step (fun s l ↦ ok s l ∧ ok' l) s ls := by
  induction ls generalizing s with
  | nil => trivial
  | cons l ls ih =>
    exact ⟨⟨h.1, h' l List.mem_cons_self⟩, ih h.2 fun l' hl ↦ h' l' (List.mem_cons_of_mem _ hl)⟩

/-- **The invariant rule.** -/
theorem Meets.invariant {I : σ → Prop} (hstep : ∀ s l, I s → ok s l → I (step s l)) {s : σ}
    {ls : List ℓ} (h : Meets step ok s ls) (hs : I s) : I (ls.foldl step s) := by
  induction ls generalizing s with
  | nil => exact hs
  | cons l ls ih => exact ih h.2 (hstep s l hs h.1)

/-- **The rule for a property that a step destroys exactly when it misses the condition**, along an
invariant. -/
theorem holds_iff_meets {I P : σ → Prop} {ls : List ℓ}
    (hinv : ∀ s, ∀ l ∈ ls, I s → I (step s l))
    (hstep : ∀ s, ∀ l ∈ ls, I s → (P (step s l) ↔ P s ∧ ok s l)) {s : σ} (hs : I s) :
    P (ls.foldl step s) ↔ P s ∧ Meets step ok s ls := by
  induction ls generalizing s with
  | nil => simp [Meets]
  | cons l ls ih =>
    rw [List.foldl_cons, ih (fun s l hl ↦ hinv s l (List.mem_cons_of_mem _ hl))
      (fun s l hl ↦ hstep s l (List.mem_cons_of_mem _ hl)) (hinv s l List.mem_cons_self hs),
      hstep s l List.mem_cons_self hs, Meets, and_assoc]

/-- **The rule for a property of every state of a run**: if, along an invariant, a step keeps it exactly
when it meets the condition, then it holds after each step if and only if every step meets the
condition. -/
theorem meets_holds_iff {I P : σ → Prop} (hinv : ∀ s l, I s → I (step s l))
    (hstep : ∀ s l, I s → P s → (P (step s l) ↔ ok s l)) {s : σ} (hs : I s) (hP : P s)
    (ls : List ℓ) : Meets step (fun s l ↦ P (step s l)) s ls ↔ Meets step ok s ls := by
  induction ls generalizing s with
  | nil => exact Iff.rfl
  | cons l ls ih =>
    rw [Meets, Meets, hstep s l hs hP]
    refine and_congr_right fun hok ↦ ih (hinv s l hs) ?_
    exact (hstep s l hs hP).mpr hok

/-! ## Traces -/

section Trace

variable {ε : Type w} {emit : σ → ℓ → List ε}

/-- What the steps of a run emit. -/
def trace (step : σ → ℓ → σ) (emit : σ → ℓ → List ε) : σ → List ℓ → List ε
  | _, [] => []
  | s, l :: ls => emit s l ++ trace step emit (step s l) ls

/-- **The invariant rule for a run and its trace.** -/
theorem Meets.trace_invariant {I : σ → List ε → Prop}
    (hstep : ∀ s es l, I s es → ok s l → I (step s l) (es ++ emit s l)) {s : σ} {ls : List ℓ}
    (h : Meets step ok s ls) {es : List ε} (hs : I s es) :
    I (ls.foldl step s) (es ++ trace step emit s ls) := by
  induction ls generalizing s es with
  | nil =>
    rw [trace, List.append_nil]
    exact hs
  | cons l ls ih =>
    rw [trace, ← List.append_assoc]
    exact ih h.2 (hstep s es l hs h.1)

/-- **The rule for two machines in step**: if related states emit the same and stay related, along
every step that meets the condition, then the runs emit the same. -/
theorem Meets.trace_eq {τ : Type u} {step' : τ → ℓ → τ} {emit' : τ → ℓ → List ε}
    {R : σ → τ → Prop}
    (hstep : ∀ s t l, R s t → ok s l → R (step s l) (step' t l) ∧ emit s l = emit' t l)
    {s : σ} {t : τ} {ls : List ℓ} (h : Meets step ok s ls) (hst : R s t) :
    trace step emit s ls = trace step' emit' t ls ∧ R (ls.foldl step s) (ls.foldl step' t) := by
  induction ls generalizing s t with
  | nil => exact ⟨rfl, hst⟩
  | cons l ls ih =>
    obtain ⟨hnext, hemit⟩ := hstep s t l hst h.1
    obtain ⟨htrace, hend⟩ := ih h.2 hnext
    exact ⟨by rw [trace, trace, hemit, htrace], hend⟩

theorem trace_append (s : σ) (ls ls' : List ℓ) :
    trace step emit s (ls ++ ls') = trace step emit s ls ++ trace step emit (ls.foldl step s) ls' := by
  induction ls generalizing s with
  | nil => rfl
  | cons l ls ih => rw [List.cons_append, trace, trace, ih, List.append_assoc, List.foldl_cons]

/-- **The rule for refinement**: if every step of a machine that meets the condition can be matched by
steps of another one that meet its condition, emit the same and lead to a related state, then every
run can be matched by a run. -/
theorem Meets.refines {τ : Type u} {κ : Type v} {step' : τ → κ → τ} {ok' : τ → κ → Prop}
    {emit' : τ → κ → List ε} {R : σ → τ → Prop}
    (hstep : ∀ s t l, R s t → ok s l → ∃ ks, Meets step' ok' t ks ∧ R (step s l) (ks.foldl step' t) ∧
      emit s l = trace step' emit' t ks)
    {s : σ} {t : τ} {ls : List ℓ} (h : Meets step ok s ls) (hst : R s t) :
    ∃ ks, Meets step' ok' t ks ∧ R (ls.foldl step s) (ks.foldl step' t) ∧
      trace step emit s ls = trace step' emit' t ks := by
  induction ls generalizing s t with
  | nil => exact ⟨[], trivial, hst, rfl⟩
  | cons l ls ih =>
    obtain ⟨ks, hks, hnext, hemit⟩ := hstep s t l hst h.1
    obtain ⟨ks', hks', hend, htrace⟩ := ih h.2 hnext
    refine ⟨ks ++ ks', meets_append.mpr ⟨hks, hks'⟩, ?_, ?_⟩
    · rw [List.foldl_append]
      exact hend
    · rw [trace, trace_append, hemit, htrace]

/-- The same for machines that emit nothing. -/
theorem Meets.simulates {τ : Type u} {κ : Type v} {step' : τ → κ → τ} {ok' : τ → κ → Prop}
    {R : σ → τ → Prop}
    (hstep : ∀ s t l, R s t → ok s l → ∃ ks, Meets step' ok' t ks ∧ R (step s l) (ks.foldl step' t))
    {s : σ} {t : τ} {ls : List ℓ} (h : Meets step ok s ls) (hst : R s t) :
    ∃ ks, Meets step' ok' t ks ∧ R (ls.foldl step s) (ks.foldl step' t) := by
  induction ls generalizing s t with
  | nil => exact ⟨[], trivial, hst⟩
  | cons l ls ih =>
    obtain ⟨ks, hks, hnext⟩ := hstep s t l hst h.1
    obtain ⟨ks', hks', hend⟩ := ih h.2 hnext
    refine ⟨ks ++ ks', meets_append.mpr ⟨hks, hks'⟩, ?_⟩
    rw [List.foldl_append]
    exact hend

end Trace

end Machine
