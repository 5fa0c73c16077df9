import Mathlib.Data.List.Perm.Lattice
import Mathlib.Data.Finset.Card
import Mathlib.Data.Finset.Range
import Mathlib.Data.List.Nodup

/-!
# Pools of handles

A pool is a queue of idle handles, with a ledger of those that are out and of who has them.  `take`
gives out the handle at the front and `put` takes one back; a handle can also leave the pool for
good (`drop`) or come to it in somebody's hands (`lend`).

The ledger is compared with what everybody thinks to be holding, a function `h : ι → Option α`.  It
`Covers` that function when whoever thinks to be holding a handle has it on the ledger, and is
`Exact` when nobody has anything else there.  A holder that forgets a handle leaves the ledger
covering, but not exact.  From an exact ledger one knows that everybody has one handle at most
(`Exact.nodup_holders`), and then a pool with as many handles as there are holders is never found
empty by one of them who has none (`idle_ne_nil`).

With fewer handles somebody may have to wait for somebody else.  If pools are asked in an order, the
one waited for is not waiting for a pool that comes no later, and so not everybody can be waiting
(`exists_not_waiting`).
-/

set_option autoImplicit false

universe u v

/-- Handles, idle or leased. -/
structure HandlePool (ι : Type u) (α : Type v) where
  idle : List α
  leased : List (ι × α)
  deriving DecidableEq, Repr

namespace HandlePool

variable {ι : Type u} {α : Type v}

/-- All handles of the pool. -/
def handles (p : HandlePool ι α) : List α := p.idle ++ p.leased.map Prod.snd

/-- A handle comes to the pool, in the hands of `i`. -/
def lend (p : HandlePool ι α) (i : ι) (a : α) : HandlePool ι α :=
  { p with leased := (i, a) :: p.leased }

/-- `i` takes the handle at the front. -/
def take (p : HandlePool ι α) (i : ι) : Option (α × HandlePool ι α) :=
  match p.idle with
  | [] => none
  | a :: rest => some (a, { idle := rest, leased := (i, a) :: p.leased })

section Erase

variable [DecidableEq ι] [DecidableEq α]

/-- A handle that `i` has leaves the pool. -/
def drop (p : HandlePool ι α) (i : ι) (a : α) : HandlePool ι α :=
  { p with leased := p.leased.erase (i, a) }

/-- `i` puts a handle back. -/
def put (p : HandlePool ι α) (i : ι) (a : α) : HandlePool ι α :=
  { idle := p.idle ++ [a], leased := p.leased.erase (i, a) }

end Erase

variable {p p' : HandlePool ι α} {i : ι} {a : α} {h h' : ι → Option α}

theorem length_handles : p.handles.length = p.idle.length + p.leased.length := by
  rw [handles, List.length_append, List.length_map]

theorem take_eq_some_iff :
    p.take i = some (a, p') ↔
      ∃ rest, p.idle = a :: rest ∧ p' = { idle := rest, leased := (i, a) :: p.leased } := by
  rw [take]
  cases hidle : p.idle with
  | nil => simp
  | cons b rest =>
    constructor
    · intro e
      obtain ⟨rfl, rfl⟩ := Prod.mk.inj (Option.some.inj e)
      exact ⟨rest, rfl, rfl⟩
    · rintro ⟨rest', e, rfl⟩
      obtain ⟨rfl, rfl⟩ := List.cons.inj e
      rfl

theorem take_eq_none_iff : p.take i = none ↔ p.idle = [] := by
  rw [take]
  cases p.idle <;> simp

/-! ## No handle is lost or made up -/

theorem handles_lend : List.Perm (p.lend i a).handles (a :: p.handles) := by
  rw [handles, handles, lend, List.map_cons]
  exact List.perm_middle

theorem handles_take (ht : p.take i = some (a, p')) : List.Perm p'.handles p.handles := by
  obtain ⟨rest, hidle, rfl⟩ := take_eq_some_iff.mp ht
  rw [handles, handles, hidle, List.map_cons]
  exact List.perm_middle

section Erase

variable [DecidableEq ι] [DecidableEq α]

theorem handles_drop (ha : (i, a) ∈ p.leased) : List.Perm (a :: (p.drop i a).handles) p.handles := by
  have herase : List.Perm (p.leased.map Prod.snd) (a :: (p.leased.erase (i, a)).map Prod.snd) :=
    (List.perm_cons_erase ha).map Prod.snd
  rw [handles, handles, drop]
  exact List.perm_middle.symm.trans (herase.symm.append_left p.idle)

theorem handles_put (ha : (i, a) ∈ p.leased) : List.Perm (p.put i a).handles p.handles := by
  refine List.Perm.trans ?_ (handles_drop ha)
  rw [handles, handles, put, drop, List.append_assoc]
  exact List.perm_middle

end Erase

/-! ## The ledger -/

/-- Whoever thinks to be holding a handle has it on the ledger. -/
def Covers (p : HandlePool ι α) (h : ι → Option α) : Prop := ∀ i a, h i = some a → (i, a) ∈ p.leased

/-- The ledger has nothing else. -/
def Exact (p : HandlePool ι α) (h : ι → Option α) : Prop := ∀ i a, (i, a) ∈ p.leased → h i = some a

theorem Covers.forget (hp : p.Covers h) (hi : h' i = none) (hoff : ∀ j, j ≠ i → h' j = h j) :
    p.Covers h' := by
  intro j b hj
  have hne : j ≠ i := by
    rintro rfl
    rw [hi] at hj
    cases hj
  exact hp j b (hoff j hne ▸ hj)

theorem Covers.lend (hp : p.Covers h) (hi : h' i = some a) (hoff : ∀ j, j ≠ i → h' j = h j) :
    (p.lend i a).Covers h' := by
  intro j b hj
  by_cases hji : j = i
  · subst hji
    obtain rfl := Option.some.inj (hi.symm.trans hj)
    exact List.mem_cons_self
  · exact List.mem_cons_of_mem _ (hp j b (hoff j hji ▸ hj))

theorem Exact.lend (hp : p.Exact h) (hnone : h i = none) (hi : h' i = some a)
    (hoff : ∀ j, j ≠ i → h' j = h j) : (p.lend i a).Exact h' := by
  intro j b hj
  rcases List.mem_cons.mp hj with e | hj
  · obtain ⟨rfl, rfl⟩ := Prod.mk.inj e
    exact hi
  · have hjb := hp j b hj
    have hne : j ≠ i := by
      rintro rfl
      rw [hnone] at hjb
      cases hjb
    rw [hoff j hne, hjb]

theorem Covers.take (hp : p.Covers h) (ht : p.take i = some (a, p')) (hi : h' i = some a)
    (hoff : ∀ j, j ≠ i → h' j = h j) : p'.Covers h' := by
  obtain ⟨rest, -, rfl⟩ := take_eq_some_iff.mp ht
  exact hp.lend hi hoff

theorem Exact.take (hp : p.Exact h) (ht : p.take i = some (a, p')) (hnone : h i = none)
    (hi : h' i = some a) (hoff : ∀ j, j ≠ i → h' j = h j) : p'.Exact h' := by
  obtain ⟨rest, -, rfl⟩ := take_eq_some_iff.mp ht
  exact hp.lend hnone hi hoff

section Erase

variable [DecidableEq ι] [DecidableEq α]

theorem Covers.drop (hp : p.Covers h) (hi : h' i = none) (hoff : ∀ j, j ≠ i → h' j = h j) :
    (p.drop i a).Covers h' := by
  intro j b hj
  have hne : (j, b) ≠ (i, a) := by
    rintro e
    rw [(Prod.mk.inj e).1, hi] at hj
    cases hj
  exact (List.mem_erase_of_ne hne).mpr (hp.forget hi hoff j b hj)

theorem Exact.drop (hp : p.Exact h) (hnodup : p.handles.Nodup) (ha : h i = some a)
    (hoff : ∀ j, j ≠ i → h' j = h j) : (p.drop i a).Exact h' := by
  intro j b hj
  have hleased : p.leased.Nodup := List.Nodup.of_map Prod.snd (List.nodup_append.mp hnodup).2.1
  obtain ⟨hne, hmem⟩ := hleased.mem_erase_iff.mp hj
  have hjb := hp j b hmem
  have hji : j ≠ i := by
    rintro rfl
    obtain rfl := Option.some.inj (ha.symm.trans hjb)
    exact hne rfl
  rw [hoff j hji, hjb]

theorem Covers.put (hp : p.Covers h) (hi : h' i = none) (hoff : ∀ j, j ≠ i → h' j = h j) :
    (p.put i a).Covers h' :=
  Covers.drop hp hi hoff

theorem Exact.put (hp : p.Exact h) (hnodup : p.handles.Nodup) (ha : h i = some a)
    (hoff : ∀ j, j ≠ i → h' j = h j) : (p.put i a).Exact h' :=
  Exact.drop hp hnodup ha hoff

end Erase

/-! ## One handle each -/

/-- **Nobody has more than one handle.** -/
theorem Exact.nodup_holders (hp : p.Exact h) (hnodup : p.handles.Nodup) :
    (p.leased.map Prod.fst).Nodup := by
  have hleased : p.leased.Nodup := List.Nodup.of_map Prod.snd (List.nodup_append.mp hnodup).2.1
  refine hleased.map_on fun x hx y hy e ↦ ?_
  have hx' := hp x.1 x.2 hx
  rw [e, hp y.1 y.2 hy] at hx'
  exact Prod.ext e (Option.some.inj hx').symm

/-- **With as many handles as holders, one who has none finds one.** -/
theorem idle_ne_nil {p : HandlePool ℕ α} {n i : ℕ} (hholders : (p.leased.map Prod.fst).Nodup)
    (hlt : ∀ j ∈ p.leased.map Prod.fst, j < n) (hi : i < n) (hnone : i ∉ p.leased.map Prod.fst)
    (hn : n ≤ p.handles.length) : p.idle ≠ [] := by
  intro hidle
  have hsub : (p.leased.map Prod.fst).toFinset ⊆ (Finset.range n).erase i := by
    intro j hj
    have hj := List.mem_toFinset.mp hj
    refine Finset.mem_erase.mpr ⟨?_, Finset.mem_range.mpr (hlt j hj)⟩
    rintro rfl
    exact hnone hj
  have hcard := Finset.card_le_card hsub
  rw [List.toFinset_card_of_nodup hholders, List.length_map,
    Finset.card_erase_of_mem (Finset.mem_range.mpr hi), Finset.card_range] at hcard
  rw [length_handles, hidle, List.length_nil] at hn
  omega

/-! ## Waiting for one another -/

/-- **Whoever asks in an order does not get stuck**: if whoever waits for a pool waits for somebody at
work who can only be waiting for a later one, then somebody at work is not waiting at all. -/
theorem exists_not_waiting {κ : Type v} {later : κ → κ → Prop} (hwf : WellFounded later)
    {atWork : ι → Prop} {waits : ι → κ → Prop}
    (hholder : ∀ i k, atWork i → waits i k → ∃ j, atWork j ∧ ∀ k', waits j k' → later k' k)
    {i : ι} (hi : atWork i) : ∃ j, atWork j ∧ ∀ k, ¬waits j k := by
  have hwaits : ∀ k i, atWork i → waits i k → ∃ j, atWork j ∧ ∀ k, ¬waits j k := by
    intro k
    induction k using hwf.induction with
    | _ k ih =>
      intro i hi hik
      obtain ⟨j, hj, hlater⟩ := hholder i k hi hik
      by_cases hwait : ∃ k', waits j k'
      · obtain ⟨k', hk'⟩ := hwait
        exact ih k' (hlater k' hk') j hj hk'
      · exact ⟨j, hj, not_exists.mp hwait⟩
  by_cases hwait : ∃ k, waits i k
  · obtain ⟨k, hk⟩ := hwait
    exact hwaits k i hi hk
  · exact ⟨i, hi, not_exists.mp hwait⟩

end HandlePool
