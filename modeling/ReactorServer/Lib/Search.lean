import Mathlib.Data.List.Basic
import Mathlib.Data.List.Infix

/-!
# The first occurrence of a pattern in a list

`indexOf pat s` is the position of the first occurrence of `pat` in `s`, the search a string
library offers under the name `find`.  Everything here is about an arbitrary alphabet.

What an incremental reader needs of it is how the answer moves when the text grows at the end:

* an occurrence that has been found stays the first one (`indexOf_append`);
* an occurrence that was not there before straddles the old end, so it lies within
  `pat.length - 1` of it (`length_lt_of_indexOf_append`).

What a writer needs of it is where the search stops in a text put together around the pattern
(`indexOf_cons_append`, and `indexOf_singleton_append` for a pattern of one letter).
-/

set_option autoImplicit false

namespace Search

universe u

variable {α : Type u} [DecidableEq α]

/-- The position of the first occurrence of `pat` in a list, if it occurs. -/
def indexOf (pat : List α) : List α → Option ℕ
  | [] => if pat.isPrefixOf [] then some 0 else none
  | c :: s => if pat.isPrefixOf (c :: s) then some 0 else (indexOf pat s).map (· + 1)

/-- `i` is the position of the first occurrence of `pat` in `s`. -/
structure IsFirst (pat s : List α) (i : ℕ) : Prop where
  /-- The pattern stands at `i`. -/
  here : pat <+: s.drop i
  /-- The position is inside the text, or just past its end. -/
  le : i ≤ s.length
  /-- It stands nowhere before. -/
  before : ∀ j, j < i → ¬ pat <+: s.drop j

omit [DecidableEq α] in
theorem IsFirst.unique {pat s : List α} {i j : ℕ} (hi : IsFirst pat s i) (hj : IsFirst pat s j) :
    i = j := by
  rcases Nat.lt_trichotomy i j with h | h | h
  · exact absurd hi.here (hj.before i h)
  · exact h
  · exact absurd hj.here (hi.before j h)

theorem isFirst_of_indexOf {pat : List α} :
    ∀ {s : List α} {i : ℕ}, indexOf pat s = some i → IsFirst pat s i
  | [], i, h => by
    rw [indexOf] at h
    split at h
    · rename_i hp
      obtain rfl := Option.some_inj.mp h
      exact ⟨List.isPrefixOf_iff_prefix.mp hp, Nat.zero_le _, fun j hj ↦ absurd hj (by omega)⟩
    · exact absurd h (by simp)
  | c :: s, i, h => by
    rw [indexOf] at h
    split at h
    · rename_i hp
      obtain rfl := Option.some_inj.mp h
      exact ⟨List.isPrefixOf_iff_prefix.mp hp, Nat.zero_le _, fun j hj ↦ absurd hj (by omega)⟩
    · rename_i hp
      obtain ⟨k, hk, rfl⟩ := Option.map_eq_some_iff.mp h
      have ih := isFirst_of_indexOf hk
      refine ⟨ih.here, Nat.succ_le_succ ih.le, fun j hj ↦ ?_⟩
      cases j with
      | zero => exact fun hpre ↦ hp (List.isPrefixOf_iff_prefix.mpr hpre)
      | succ j => exact ih.before j (by omega)

theorem not_prefix_of_indexOf_eq_none {pat : List α} :
    ∀ {s : List α}, indexOf pat s = none → ∀ j, j ≤ s.length → ¬ pat <+: s.drop j
  | [], h, j, hj => by
    rw [indexOf] at h
    split at h
    · exact absurd h (by simp)
    · rename_i hp
      obtain rfl : j = 0 := by simpa using hj
      exact fun hpre ↦ hp (List.isPrefixOf_iff_prefix.mpr hpre)
  | c :: s, h, j, hj => by
    rw [indexOf] at h
    split at h
    · exact absurd h (by simp)
    · rename_i hp
      cases j with
      | zero => exact fun hpre ↦ hp (List.isPrefixOf_iff_prefix.mpr hpre)
      | succ j =>
        exact not_prefix_of_indexOf_eq_none (Option.map_eq_none_iff.mp h) j (by simpa using hj)

/-- **The search finds exactly the first occurrence.** -/
theorem indexOf_eq_some_iff {pat s : List α} {i : ℕ} : indexOf pat s = some i ↔ IsFirst pat s i := by
  refine ⟨isFirst_of_indexOf, fun h ↦ ?_⟩
  cases hs : indexOf pat s with
  | none => exact absurd h.here (not_prefix_of_indexOf_eq_none hs i h.le)
  | some j => rw [(isFirst_of_indexOf hs).unique h]

theorem indexOf_eq_none_iff {pat s : List α} : indexOf pat s = none ↔ ¬ pat <:+: s := by
  constructor
  · rintro h ⟨a, b, rfl⟩
    refine not_prefix_of_indexOf_eq_none h a.length (by simp) ?_
    simp
  · intro h
    cases hs : indexOf pat s with
    | none => rfl
    | some i =>
      have hi := (isFirst_of_indexOf hs).here
      exact absurd (hi.isInfix.trans (List.drop_suffix i s).isInfix) h

/-- The occurrence found lies inside the text. -/
theorem indexOf_add_length_le {pat s : List α} {i : ℕ} (h : indexOf pat s = some i) :
    i + pat.length ≤ s.length := by
  have hi := isFirst_of_indexOf h
  have hlen := hi.here.length_le
  have hle := hi.le
  rw [List.length_drop] at hlen
  omega

/-! ## A text that grows at its end -/

/-- **An occurrence that has been found stays the first one.** -/
theorem indexOf_append {pat s : List α} {i : ℕ} (t : List α) (h : indexOf pat s = some i) :
    indexOf pat (s ++ t) = some i := by
  have hi := isFirst_of_indexOf h
  have hfit := indexOf_add_length_le h
  refine indexOf_eq_some_iff.mpr ⟨?_, by simp only [List.length_append]; omega, fun j hj hpre ↦ ?_⟩
  · rw [List.drop_append_of_le_length hi.le]
    exact hi.here.trans (List.prefix_append _ _)
  · -- an earlier occurrence in the longer text would end before the one in `s` does
    rw [List.drop_append_of_le_length (by omega)] at hpre
    refine hi.before j hj (List.prefix_of_prefix_length_le hpre (List.prefix_append _ _) ?_)
    rw [List.length_drop]
    omega

/-- **A new occurrence straddles the old end.** -/
theorem length_lt_of_indexOf_append {pat s t : List α} {i : ℕ} (hs : indexOf pat s = none)
    (h : indexOf pat (s ++ t) = some i) : s.length < i + pat.length := by
  by_contra hle
  have hi := (isFirst_of_indexOf h).here
  have his : i ≤ s.length := by omega
  rw [List.drop_append_of_le_length his] at hi
  refine not_prefix_of_indexOf_eq_none hs i his
    (List.prefix_of_prefix_length_le hi (List.prefix_append _ _) ?_)
  rw [List.length_drop]
  omega

/-- An occurrence that lies in the front of a text is found in the front alone. -/
theorem indexOf_of_append {pat s t : List α} {i : ℕ} (h : indexOf pat (s ++ t) = some i)
    (hfit : i + pat.length ≤ s.length) : indexOf pat s = some i := by
  cases hs : indexOf pat s with
  | none =>
    have hnew := length_lt_of_indexOf_append hs h
    omega
  | some j => rw [← h, indexOf_append t hs]

/-! ## A text put together around the pattern -/

/-- The search skips a part of the text without the pattern's first letter. -/
theorem indexOf_cons_append {c : α} {a : List α} (pat t : List α) (h : c ∉ a) :
    indexOf (c :: pat) (a ++ t) = (indexOf (c :: pat) t).map (· + a.length) := by
  induction a with
  | nil => simp
  | cons b a ih =>
    have hb : c ≠ b := fun e ↦ h (e ▸ List.mem_cons_self)
    have ha : c ∉ a := fun hmem ↦ h (List.mem_cons_of_mem _ hmem)
    rw [List.cons_append, indexOf, if_neg (by simp [hb]), ih ha, Option.map_map]
    rfl

theorem indexOf_singleton_append {c : α} {a : List α} (b : List α) (h : c ∉ a) :
    indexOf [c] (a ++ c :: b) = some a.length := by
  rw [indexOf_cons_append [] _ h, indexOf]
  simp

theorem indexOf_singleton_eq_none_iff {c : α} {s : List α} : indexOf [c] s = none ↔ c ∉ s := by
  rw [indexOf_eq_none_iff, List.singleton_infix_iff]

/-- A text that begins with the pattern. -/
theorem indexOf_self_append (pat t : List α) : indexOf pat (pat ++ t) = some 0 :=
  indexOf_eq_some_iff.mpr ⟨List.prefix_append _ _, Nat.zero_le _, fun j hj ↦ absurd hj (by omega)⟩

/-- The search goes on behind a letter where the pattern does not begin. -/
theorem indexOf_cons_skip {c : α} {pat t : List α} (h : ¬ pat <+: c :: t) :
    indexOf pat (c :: t) = (indexOf pat t).map (· + 1) := by
  rw [indexOf, if_neg fun hpre ↦ h (List.isPrefixOf_iff_prefix.mp hpre)]

/-- Where a text is cut at the first occurrence of a letter is determined. -/
theorem append_cons_inj {c : α} {a b s t : List α} (ha : c ∉ a) (hb : c ∉ b)
    (h : a ++ c :: s = b ++ c :: t) : a = b ∧ s = t := by
  have hlen : a.length = b.length := by
    have hpos := indexOf_singleton_append s ha
    rw [h, indexOf_singleton_append t hb] at hpos
    exact (Option.some_inj.mp hpos).symm
  obtain ⟨hab, htail⟩ := List.append_inj h hlen
  exact ⟨hab, (List.cons.inj htail).2⟩

end Search
