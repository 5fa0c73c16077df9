import ReactorServer.Http.Request

/-!
# The lines of a header block

`findHeader` walks over a header block line by line, and the request line is one of the lines.
`splitLines` is what the lines are, for any text at all: a line ends at a carriage return that is
followed by a line feed, and either byte by itself is like any other.  `findHeader` returns the
value of the first line with the name it looks for (`findHeader_eq`).
-/

set_option autoImplicit false

namespace ReactorServer

open Search

/-- The lines of a text. -/
def splitLines : Bytes → List Bytes
  | [] => [[]]
  | 13 :: 10 :: s => [] :: splitLines s
  | b :: s => (splitLines s).modifyHead (b :: ·)

/-- The first line of a text: the bytes before the first line end. -/
def firstLine (text : Bytes) : Bytes := (splitLines text).headD []

/-- A byte that does not start a line end is skipped by the search for one. -/
theorem indexOf_crlf_cons {b : UInt8} {s : Bytes} (h : ∀ t, b = 13 → s = 10 :: t → False) :
    indexOf crlf (b :: s) = (indexOf crlf s).map (· + 1) := by
  have hpre : ¬ crlf.isPrefixOf (b :: s) = true := by
    intro hpre
    obtain ⟨t, ht⟩ := List.isPrefixOf_iff_prefix.mp hpre
    obtain ⟨rfl, rfl⟩ := List.cons.inj ht
    exact h t rfl rfl
  rw [indexOf, if_neg hpre]

/-- **The lines of a text**, by the search for the first line end. -/
theorem splitLines_eq (text : Bytes) :
    splitLines text = match indexOf crlf text with
      | none => [text]
      | some e => text.take e :: splitLines (text.drop (e + 2)) := by
  fun_induction splitLines text with
  | case1 => rfl
  | case2 s ih => rfl
  | case3 b s h ih =>
    rw [indexOf_crlf_cons fun t hb ht ↦ h t hb ht, ih]
    cases indexOf crlf s with
    | none => rfl
    | some e => rfl

theorem firstLine_eq (text : Bytes) :
    firstLine text = text.take ((indexOf crlf text).getD text.length) := by
  rw [firstLine, splitLines_eq]
  cases indexOf crlf text with
  | none => exact List.take_length.symm
  | some e => rfl

theorem splitLines_eq_cons (text : Bytes) :
    splitLines text = firstLine text :: (splitLines text).tail := by
  rw [firstLine, splitLines_eq]
  cases indexOf crlf text with
  | none => rfl
  | some e => rfl

theorem lineValue_nil (lowerName : Bytes) : lineValue lowerName [] = none := rfl

/-- **Looking up a header** is looking at the lines of the block, one after another. -/
theorem findHeader_eq (headers lowerName : Bytes) :
    findHeader headers lowerName =
      ((splitLines headers).findSome? (lineValue lowerName)).getD [] := by
  have key : ∀ (fuel : ℕ) (text : Bytes), text.length ≤ fuel →
      findHeaderFrom lowerName fuel text =
        ((splitLines text).findSome? (lineValue lowerName)).getD [] := by
    intro fuel
    induction fuel with
    | zero =>
      intro text hfuel
      obtain rfl : text = [] := List.length_eq_zero_iff.mp (Nat.le_zero.mp hfuel)
      rfl
    | succ fuel ih =>
      intro text hfuel
      rw [findHeaderFrom]
      by_cases hnil : text = []
      · rw [if_pos hnil, hnil]
        rfl
      rw [if_neg hnil, splitLines_eq]
      have hpos : 0 < text.length := List.length_pos_iff.mpr hnil
      cases hcut : indexOf crlf text with
      | none =>
        -- the last line, and nothing behind it
        dsimp only [Option.getD_none]
        rw [List.take_length, List.drop_eq_nil_of_le (by omega), List.findSome?_cons]
        cases lineValue lowerName text with
        | some value => rfl
        | none => exact ih [] (Nat.zero_le _)
      | some e =>
        dsimp only [Option.getD_some]
        rw [List.findSome?_cons]
        cases lineValue lowerName (text.take e) with
        | some value => rfl
        | none => exact ih (text.drop (e + 2)) (by rw [List.length_drop]; omega)
  exact key headers.length headers le_rfl

/-! ## Line ends -/

/-- The first line end in a text whose front has none. -/
theorem indexOf_crlf_append {a : Bytes} (h : ¬ crlf <:+: a) (t : Bytes) :
    indexOf crlf (a ++ 13 :: 10 :: t) = some a.length := by
  induction a with
  | nil => rfl
  | cons b a ih =>
    have ha : ¬ crlf <:+: a := fun hin ↦ h (hin.trans (List.suffix_cons b a).isInfix)
    rw [List.cons_append, indexOf_crlf_cons, ih ha, Option.map_some]
    · rfl
    · rintro t' rfl ht
      cases a with
      | nil => cases ht
      | cons c a =>
        obtain ⟨rfl, -⟩ := List.cons.inj ht
        exact h ⟨[], a, rfl⟩

/-- There is no line end before the first one. -/
theorem not_crlf_infix_firstLine (text : Bytes) : ¬ crlf <:+: firstLine text := by
  rw [firstLine_eq, ← indexOf_eq_none_iff]
  cases hcut : indexOf crlf text with
  | none => rw [Option.getD_none, List.take_length, hcut]
  | some e =>
    rw [Option.getD_some]
    cases hagain : indexOf crlf (text.take e) with
    | none => rfl
    | some i =>
      -- it would be the first one of the whole text
      have hfit := indexOf_add_length_le hagain
      have happ := indexOf_append (text.drop e) hagain
      rw [List.take_append_drop, hcut] at happ
      obtain rfl := Option.some.inj happ
      rw [List.length_take] at hfit
      simp only [crlf, List.length_cons, List.length_nil] at hfit
      omega

theorem firstLine_append {a : Bytes} (h : ¬ crlf <:+: a) (t : Bytes) :
    firstLine (a ++ 13 :: 10 :: t) = a := by
  rw [firstLine_eq, indexOf_crlf_append h, Option.getD_some, List.take_left]

/-- What is up to a line end, is so whatever comes behind it. -/
theorem firstLine_append_crlf (a t : Bytes) : firstLine (a ++ 13 :: 10 :: t) = firstLine a := by
  cases hcut : indexOf crlf a with
  | none =>
    rw [firstLine_append (indexOf_eq_none_iff.mp hcut), firstLine_eq, hcut, Option.getD_none,
      List.take_length]
  | some e =>
    have hle := indexOf_add_length_le hcut
    rw [firstLine_eq, firstLine_eq, hcut, indexOf_append _ hcut, Option.getD_some, Option.getD_some,
      List.take_append_of_le_length (by omega)]

theorem splitLines_append {a : Bytes} (h : ¬ crlf <:+: a) (t : Bytes) :
    splitLines (a ++ 13 :: 10 :: t) = a :: splitLines t := by
  rw [splitLines_eq, indexOf_crlf_append h]
  dsimp only
  rw [List.take_left, ← List.drop_drop, List.drop_left]
  rfl

/-! ## Blank lines -/

theorem indexOf_crlf2_append {a : Bytes} (t : Bytes) (h : 13 ∉ a) :
    indexOf crlf2 (a ++ t) = (indexOf crlf2 t).map (· + a.length) :=
  indexOf_cons_append _ t h

/-- A line end in front of a line is not the start of a blank line. -/
theorem indexOf_crlf2_crlf {u : Bytes} (h : u.head? ≠ some 13) :
    indexOf crlf2 (13 :: 10 :: u) = (indexOf crlf2 u).map (· + 2) := by
  have hpre : ¬ crlf2.isPrefixOf (13 :: 10 :: u) = true := by
    cases u with
    | nil => decide
    | cons b u =>
      have hb : (13 : UInt8) ≠ b := fun e ↦ h (by rw [List.head?_cons, e])
      simp [crlf2, hb]
  have hpre' : ¬ crlf2.isPrefixOf (10 :: u) = true := by simp [crlf2]
  rw [indexOf, if_neg hpre, indexOf, if_neg hpre', Option.map_map]
  rfl

/-- A blank line does not begin before or at the end of the first line, if another line follows. -/
theorem indexOf_crlf2_line {a : Bytes} (h : ¬ crlf <:+: a) {u : Bytes} (hu : u.head? ≠ some 13) :
    indexOf crlf2 (a ++ 13 :: 10 :: u) = (indexOf crlf2 u).map (· + (a.length + 2)) := by
  induction a with
  | nil => exact indexOf_crlf2_crlf hu
  | cons b a ih =>
    have ha : ¬ crlf <:+: a := fun hin ↦ h (hin.trans (List.suffix_cons b a).isInfix)
    have hpre : ¬ crlf2.isPrefixOf (b :: (a ++ 13 :: 10 :: u)) = true := by
      intro hpre
      obtain ⟨t, ht⟩ := List.isPrefixOf_iff_prefix.mp hpre
      obtain ⟨rfl, htail⟩ := List.cons.inj ht
      cases a with
      | nil => cases htail
      | cons c a =>
        obtain ⟨rfl, -⟩ := List.cons.inj htail
        exact h ⟨[], a, rfl⟩
    rw [List.cons_append, indexOf, if_neg hpre, ih ha, Option.map_map]
    congr 1

end ReactorServer
