import ReactorServer.Http.Format

/-!
# Looking up a header, seen from the lines

`findHeader` works on a flat text with a cursor.  Here it is compared with what it is for: a lookup
in a list of lines.  The lines may be anything that has no line end in it, so that a lone carriage
return next to a separator, empty lines at either end and lines without a colon are all included.

* `findHeaderTurns` is the loop with its turns counted, and `findHeaderTurns_eq` says that it gets to
  its end.
* `Matches` is what it means for a line to be the one that is looked for.
* `Reworded` relates two lists of lines that differ in the letter case of field names and in lines
  that do not match; the lookup does not tell them apart (`findSome?_lineValue_reworded`).
-/

set_option autoImplicit false

namespace ReactorServer

open Search

/-! ## The loop ends -/

/-- The loop of `findHeader`, with an allowance of turns; `none` when it is used up before the cursor
is at the end. -/
def findHeaderTurns (lowerName : Bytes) : ℕ → Bytes → Option Bytes
  | _, [] => some []
  | 0, _ :: _ => none
  | turns + 1, b :: s =>
    let e := (indexOf crlf (b :: s)).getD (b :: s).length
    match lineValue lowerName ((b :: s).take e) with
    | some value => some value
    | none => findHeaderTurns lowerName turns ((b :: s).drop (e + 2))

/-- **The loop ends**: it never makes more turns than there are bytes. -/
theorem findHeaderTurns_eq (lowerName text : Bytes) :
    findHeaderTurns lowerName text.length text = some (findHeader text lowerName) := by
  have key : ∀ (turns : ℕ) (text : Bytes), text.length ≤ turns →
      findHeaderTurns lowerName turns text = some (findHeaderFrom lowerName turns text) := by
    intro turns
    induction turns with
    | zero =>
      intro text hturns
      obtain rfl : text = [] := List.length_eq_zero_iff.mp (Nat.le_zero.mp hturns)
      rfl
    | succ turns ih =>
      intro text hturns
      cases text with
      | nil => rfl
      | cons b s =>
        rw [findHeaderTurns, findHeaderFrom, if_neg (List.cons_ne_nil b s)]
        dsimp only
        cases lineValue lowerName
          ((b :: s).take ((indexOf crlf (b :: s)).getD (b :: s).length)) with
        | some value => rfl
        | none =>
          refine ih _ ?_
          rw [List.length_drop]
          omega
  exact key text.length text le_rfl

/-! ## Matching lines -/

/-- The line is one with the name: what is before its first colon, in lower case and without blanks
at the end, is the name. -/
def Matches (lowerName line : Bytes) : Prop :=
  ∃ name value, line = name ++ 58 :: value ∧ 58 ∉ name ∧ fieldName name = lowerName

theorem lineValue_of_colon {name : Bytes} (h : 58 ∉ name) (lowerName value : Bytes) :
    lineValue lowerName (name ++ 58 :: value) =
      if fieldName name = lowerName then some value else none := by
  rw [lineValue, indexOf_singleton_append _ h]
  dsimp only
  rw [List.take_left, ← List.drop_drop, List.drop_left]
  rfl

theorem lineValue_of_not_matches {lowerName line : Bytes} (h : ¬ Matches lowerName line) :
    lineValue lowerName line = none := by
  by_cases hcolon : 58 ∈ line
  · obtain ⟨name, value, rfl, hname⟩ := List.eq_append_cons_of_mem hcolon
    rw [lineValue_of_colon hname, if_neg]
    exact fun hfield ↦ h ⟨name, value, rfl, hname, hfield⟩
  · rw [lineValue, indexOf_singleton_eq_none_iff.mpr hcolon]

theorem findSome?_lineValue_of_not_matches {lowerName : Bytes} {lines : List Bytes}
    (h : ∀ line ∈ lines, ¬ Matches lowerName line) :
    lines.findSome? (lineValue lowerName) = none := by
  rw [List.findSome?_eq_none_iff]
  exact fun line hline ↦ lineValue_of_not_matches (h line hline)

/-! ## Changes that do not matter -/

/-- The lines are the same, up to the letter case of the field name. -/
inductive SameField : Bytes → Bytes → Prop
  | refl (line : Bytes) : SameField line line
  | field {name name' : Bytes} (value : Bytes) (hcolon : 58 ∉ name)
      (hname : name.map tolower = name'.map tolower) :
      SameField (name ++ 58 :: value) (name' ++ 58 :: value)

/-- The second list is the first one with the letter case of field names changed, and with lines put
in that do not match. -/
inductive Reworded (lowerName : Bytes) : List Bytes → List Bytes → Prop
  | nil : Reworded lowerName [] []
  | keep {line line' : Bytes} {lines lines' : List Bytes} (hline : SameField line line')
      (hlines : Reworded lowerName lines lines') :
      Reworded lowerName (line :: lines) (line' :: lines')
  | insert {line : Bytes} {lines lines' : List Bytes} (hbreak : ¬ crlf <:+: line)
      (hline : ¬ Matches lowerName line) (hlines : Reworded lowerName lines lines') :
      Reworded lowerName lines (line :: lines')

theorem tolower_eq_iff {b c : UInt8} (hc : c < 65) : tolower b = c ↔ b = c := by
  grind [tolower]

/-- Letter case has nothing to do with line ends. -/
theorem crlf_infix_map_tolower {s : Bytes} : crlf <:+: s.map tolower ↔ crlf <:+: s := by
  constructor
  · rintro ⟨a, c, h⟩
    rw [List.append_assoc, eq_comm] at h
    obtain ⟨a', rest, rfl, -, hrest⟩ := List.map_eq_append_iff.mp h
    obtain ⟨mid, c', rfl, hmid, -⟩ := List.map_eq_append_iff.mp hrest
    obtain ⟨x, y, rfl⟩ : ∃ x y, mid = [x, y] :=
      List.length_eq_two.mp (by simpa [crlf] using congrArg List.length hmid)
    obtain ⟨hx, hy⟩ : tolower x = 13 ∧ tolower y = 10 := by simpa [crlf] using hmid
    rw [tolower_eq_iff (by decide)] at hx hy
    exact ⟨a', c', by rw [hx, hy, crlf, List.append_assoc]⟩
  · intro h
    exact h.map tolower

theorem SameField.map_tolower {line line' : Bytes} (h : SameField line line') :
    line.map tolower = line'.map tolower := by
  cases h with
  | refl => rfl
  | field value hcolon hname => rw [List.map_append, List.map_append, hname]

theorem SameField.lineValue {line line' : Bytes} (h : SameField line line') (lowerName : Bytes) :
    lineValue lowerName line' = lineValue lowerName line := by
  cases h with
  | refl => rfl
  | @field name name' value hcolon hname =>
    have hcolon' : 58 ∉ name' := by
      rintro hmem
      have hin : tolower 58 ∈ name.map tolower := hname ▸ List.mem_map_of_mem hmem
      obtain ⟨b, hb, he⟩ := List.mem_map.mp hin
      rw [show tolower 58 = 58 from by decide, tolower_eq_iff (by decide)] at he
      exact hcolon (he ▸ hb)
    rw [lineValue_of_colon hcolon, lineValue_of_colon hcolon', fieldName, fieldName, hname]

theorem Reworded.not_crlf {lowerName : Bytes} {lines lines' : List Bytes}
    (h : Reworded lowerName lines lines') (hlines : ∀ line ∈ lines, ¬ crlf <:+: line) :
    ∀ line ∈ lines', ¬ crlf <:+: line := by
  induction h with
  | nil => exact hlines
  | keep hline _ ih =>
    rw [List.forall_mem_cons] at hlines ⊢
    refine ⟨?_, ih hlines.2⟩
    rw [← crlf_infix_map_tolower, ← hline.map_tolower, crlf_infix_map_tolower]
    exact hlines.1
  | insert hbreak _ _ ih => exact List.forall_mem_cons.mpr ⟨hbreak, ih hlines⟩

theorem findSome?_lineValue_reworded {lowerName : Bytes} {lines lines' : List Bytes}
    (h : Reworded lowerName lines lines') :
    lines'.findSome? (lineValue lowerName) = lines.findSome? (lineValue lowerName) := by
  induction h with
  | nil => rfl
  | keep hline _ ih => rw [List.findSome?_cons, List.findSome?_cons, hline.lineValue, ih]
  | insert _ hline _ ih => rw [List.findSome?_cons, lineValue_of_not_matches hline, ih]

/-! ## The lookup -/

/-- **`findHeader` is a lookup in the list of lines.**  On the lines joined by line ends its loop
comes to an end; it returns what is behind the first colon of the first line that matches, and
nothing if no line does; and neither the letter case of field names nor a line that does not match
makes a difference. -/
theorem findHeader_lookup (lowerName : Bytes) (lines : List Bytes)
    (hlines : ∀ line ∈ lines, ¬ crlf <:+: line) :
    (∃ turns, findHeaderTurns lowerName turns (joinLines lines) =
        some (findHeader (joinLines lines) lowerName)) ∧
      ((∀ line ∈ lines, ¬ Matches lowerName line) →
        findHeader (joinLines lines) lowerName = []) ∧
      (∀ before name value after, lines = before ++ (name ++ 58 :: value) :: after →
        (∀ line ∈ before, ¬ Matches lowerName line) → 58 ∉ name → fieldName name = lowerName →
        findHeader (joinLines lines) lowerName = value) ∧
      ∀ lines', Reworded lowerName lines lines' →
        findHeader (joinLines lines') lowerName = findHeader (joinLines lines) lowerName := by
  refine ⟨⟨_, findHeaderTurns_eq lowerName _⟩, ?_, ?_, ?_⟩
  · intro hnone
    rw [findHeader_joinLines lowerName hlines, findSome?_lineValue_of_not_matches hnone]
    rfl
  · rintro before name value after he hbefore hcolon hname
    rw [findHeader_joinLines lowerName hlines, he, List.findSome?_append,
      findSome?_lineValue_of_not_matches hbefore, Option.none_or, List.findSome?_cons,
      lineValue_of_colon hcolon, if_pos hname]
    rfl
  · intro lines' h
    rw [findHeader_joinLines lowerName hlines, findHeader_joinLines lowerName (h.not_crlf hlines),
      findSome?_lineValue_reworded h]

/-- A request line with a lone carriage return at its end, an empty line, and the line that is looked
for, with blanks in front of its colon. -/
theorem findHeader_lookup_host : findHeader
    (joinLines [lit "GET / HTTP/1.1\r", [], lit "hOST \t: a:b"]) (lit "host") = lit " a:b" :=
  (findHeader_lookup (lit "host") [lit "GET / HTTP/1.1\r", [], lit "hOST \t: a:b"]
      (by decide)).2.2.1 [lit "GET / HTTP/1.1\r", []] (lit "hOST \t") (lit " a:b") [] rfl
    (by
      rintro line hline ⟨name, value, rfl, -⟩
      have hcolon : 58 ∈ lit "GET / HTTP/1.1\r" ∨ (58 : UInt8) ∈ ([] : Bytes) := by
        simp only [List.mem_cons, List.not_mem_nil, or_false] at hline
        rcases hline with h | h
        · exact .inl (h ▸ by simp)
        · exact .inr (h ▸ by simp)
      exact absurd hcolon (by decide))
    (by decide) (by decide)

end ReactorServer
