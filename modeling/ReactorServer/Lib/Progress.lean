import Mathlib.Order.WellFounded
import Mathlib.Order.RelClasses

/-!
# Progress of a machine

A machine is a step function `σ → ℓ → σ`, and a schedule an infinite sequence of labels.  Not every
label of a schedule does anything, and nothing says when one that does comes; a schedule is fair if
one always comes as long as the end has not been reached.

`eventually_done` is the rule for showing that a fair schedule gets to the end.  It takes a rank in
a well-founded order that no step increases and every useful step decreases.
-/

set_option autoImplicit false

namespace Machine

universe u v w

variable {σ : Type u} {ℓ : Type v} {ω : Type w}

/-- The states along a schedule. -/
def states (step : σ → ℓ → σ) (s : σ) (ls : ℕ → ℓ) : ℕ → σ
  | 0 => s
  | n + 1 => step (states step s ls n) (ls n)

variable {step : σ → ℓ → σ} {s : σ} {ls : ℕ → ℓ}

/-- **The invariant rule**, along a schedule. -/
theorem states_invariant {I : σ → Prop} (hstep : ∀ s l, I s → I (step s l)) (hs : I s) (n : ℕ) :
    I (states step s ls n) := by
  induction n with
  | zero => exact hs
  | succ n ih => exact hstep _ _ ih

/-- Along a fair schedule there is a useful step at some time from now on, unless it is over. -/
def FairSchedule (step : σ → ℓ → σ) (useful : σ → ℓ → Prop) (done : σ → Prop) (s : σ)
    (ls : ℕ → ℓ) : Prop :=
  ∀ n, ¬ done (states step s ls n) → ∃ m, n ≤ m ∧ useful (states step s ls m) (ls m)

/-- **The rule for progress**: if no step increases the rank of a state and every useful one decreases
it, then a fair schedule comes to its end. -/
theorem eventually_done [Preorder ω] [WellFoundedLT ω] {I : σ → Prop} {useful : σ → ℓ → Prop}
    {done : σ → Prop} (rank : σ → ω) (hinv : ∀ s l, I s → I (step s l))
    (hle : ∀ s l, I s → rank (step s l) ≤ rank s)
    (hlt : ∀ s l, I s → useful s l → rank (step s l) < rank s) (hs : I s)
    (hfair : FairSchedule step useful done s ls) : ∃ n, done (states step s ls n) := by
  have hall : ∀ n, I (states step s ls n) := states_invariant hinv hs
  have hanti : Antitone fun n ↦ rank (states step s ls n) :=
    antitone_nat_of_succ_le fun n ↦ hle _ _ (hall n)
  -- a state of the least rank, after which no useful step can come
  obtain ⟨_, ⟨n, rfl⟩, hmin⟩ := wellFounded_lt.has_min (Set.range fun n ↦ rank (states step s ls n))
    ⟨_, 0, rfl⟩
  refine ⟨n, ?_⟩
  by_contra hdone
  obtain ⟨m, hm, huseful⟩ := hfair n hdone
  have hdecrease : rank (states step s ls (m + 1)) < rank (states step s ls m) :=
    hlt _ _ (hall m) huseful
  exact hmin _ ⟨m + 1, rfl⟩ (hdecrease.trans_le (hanti hm))

end Machine
