import Mathlib.Data.List.Basic
import Mathlib.Data.List.DropRight

/-!
# JSON texts

Reading and writing JSON at the level of bytes, as far as objects whose members are strings.

* `decodeString` reads a string literal from behind its opening quote: escapes stand for what JSON
  says, a control character is not allowed, and any other byte stands for itself.  An escape for
  one half of a surrogate pair is not read.
* `decodeObject` reads an object with string members, with blanks between its tokens.
* `quote` is what `JSON.stringify` writes between the quotes of a string.

A writer that goes through a string piece by piece is read back if every piece is
(`reads_flatMap`).
-/

set_option autoImplicit false

namespace JsonText

universe u

/-! ## String literals -/

/-- The value of a hexadecimal digit. -/
def hexValue (h : UInt8) : Option ℕ :=
  if 48 ≤ h ∧ h ≤ 57 then some (h.toNat - 48)
  else if 97 ≤ h ∧ h ≤ 102 then some (h.toNat - 87)
  else if 65 ≤ h ∧ h ≤ 70 then some (h.toNat - 55)
  else none

/-- What four hexadecimal digits after `\u` stand for, in UTF-8. -/
def codePoint (a b c d : UInt8) : Option (List UInt8) := do
  let w ← hexValue a
  let x ← hexValue b
  let y ← hexValue c
  let z ← hexValue d
  let n := ((w * 16 + x) * 16 + y) * 16 + z
  if 0xd800 ≤ n ∧ n < 0xe000 then none else some (String.utf8EncodeChar (Char.ofNat n))

/-- What a byte after a backslash stands for. -/
def escapeChar (c : UInt8) : Option UInt8 :=
  if c = 34 ∨ c = 92 ∨ c = 47 then some c
  else if c = 98 then some 8
  else if c = 102 then some 12
  else if c = 110 then some 10
  else if c = 114 then some 13
  else if c = 116 then some 9
  else none

/-- Put what has been read in front of the rest of the string. -/
def prepend (x : List UInt8) (r : Option (List UInt8 × List UInt8)) :
    Option (List UInt8 × List UInt8) := r.map fun r ↦ (x ++ r.1, r.2)

/-- Read a string literal, from behind its opening quote: the string, and what follows the closing
quote. -/
def decodeString : List UInt8 → Option (List UInt8 × List UInt8)
  | [] => none
  | 34 :: s => some ([], s)
  | 92 :: 117 :: a :: b :: c :: d :: s =>
    (codePoint a b c d).bind fun x ↦ prepend x (decodeString s)
  | 92 :: c :: s => (escapeChar c).bind fun x ↦ prepend [x] (decodeString s)
  | b :: s => if b < 32 ∨ b = 92 then none else prepend [b] (decodeString s)

/-- Is there a quote in the text that is not escaped? -/
def bareQuote : List UInt8 → Bool
  | [] => false
  | 34 :: _ => true
  | 92 :: _ :: s => bareQuote s
  | _ :: s => bareQuote s

theorem decodeString_escape {c x : UInt8} (h : escapeChar c = some x) (s : List UInt8) :
    decodeString (92 :: c :: s) = prepend [x] (decodeString s) := by
  rw [decodeString]
  · rw [h, Option.bind_some]
  · rintro a b c' d t rfl -
    exact absurd h (by simp [escapeChar])

theorem decodeString_unicode {a b c d : UInt8} {x : List UInt8} (h : codePoint a b c d = some x)
    (s : List UInt8) :
    decodeString (92 :: 117 :: a :: b :: c :: d :: s) = prepend x (decodeString s) := by
  rw [decodeString, h, Option.bind_some]

theorem decodeString_plain {b : UInt8} (h32 : ¬ b < 32) (h34 : b ≠ 34) (h92 : b ≠ 92)
    (s : List UInt8) : decodeString (b :: s) = prepend [b] (decodeString s) := by
  rw [decodeString]
  · rw [if_neg (not_or.mpr ⟨h32, h92⟩)]
  · exact h34
  · intro a b' c d t hb
    exact absurd hb h92
  · intro c t hb
    exact absurd hb h92

/-- The text, between quotes, is read as this string, exactly up to the closing quote. -/
def Reads (text s : List UInt8) : Prop :=
  ∀ rest, decodeString (text ++ 34 :: rest) = some (s, rest)

theorem bareQuote_cons {b : UInt8} (h34 : b ≠ 34) (h92 : b ≠ 92) (s : List UInt8) :
    bareQuote (b :: s) = bareQuote s := by
  rw [bareQuote]
  · exact h34
  · intro c t hb
    exact absurd hb h92

/-- **A string written piece by piece** is read back if every piece is. -/
theorem reads_flatMap {α : Type u} {write den : α → List UInt8} {xs : List α}
    (h : ∀ x ∈ xs, ∀ s, decodeString (write x ++ s) = prepend (den x) (decodeString s)) :
    Reads (xs.flatMap write) (xs.flatMap den) := by
  intro rest
  induction xs with
  | nil => rw [List.flatMap_nil, List.flatMap_nil, List.nil_append, decodeString]
  | cons x xs ih =>
    rw [List.flatMap_cons, List.append_assoc, h x List.mem_cons_self,
      ih fun y hy ↦ h y (List.mem_cons_of_mem _ hy), List.flatMap_cons]
    rfl

/-- No piece leaves a quote unescaped, so the whole does not. -/
theorem bareQuote_flatMap {α : Type u} {write : α → List UInt8} {xs : List α}
    (h : ∀ x ∈ xs, ∀ s, bareQuote (write x ++ s) = bareQuote s) :
    bareQuote (xs.flatMap write) = false := by
  induction xs with
  | nil => rfl
  | cons x xs ih =>
    rw [List.flatMap_cons, h x List.mem_cons_self, ih fun y hy ↦ h y (List.mem_cons_of_mem _ hy)]

/-! ## Objects -/

/-- White space between the tokens of a JSON text. -/
def isSpace (b : UInt8) : Bool := b == 32 || b == 9 || b == 10 || b == 13

/-- The rest of the text behind the next token, if it is this one. -/
def expect (token : UInt8) (s : List UInt8) : Option (List UInt8) :=
  match s.dropWhile isSpace with
  | [] => none
  | c :: t => if c = token then some t else none

/-- Read a member of an object whose value is a string. -/
def decodeMember (s : List UInt8) : Option ((List UInt8 × List UInt8) × List UInt8) := do
  let s ← expect 34 s
  let (key, s) ← decodeString s
  let s ← expect 58 s
  let s ← expect 34 s
  let (value, s) ← decodeString s
  return ((key, value), s)

/-- Read members, separated by commas, up to the closing brace. -/
def decodeMembers : ℕ → List UInt8 → Option (List (List UInt8 × List UInt8) × List UInt8)
  | 0, _ => none
  | fuel + 1, s => do
    let (member, s) ← decodeMember s
    match expect 44 s with
    | some s =>
      let (members, s) ← decodeMembers fuel s
      return (member :: members, s)
    | none =>
      let s ← expect 125 s
      return ([member], s)

/-- Read a whole text that is one object whose members are strings. -/
def decodeObject (s : List UInt8) : Option (List (List UInt8 × List UInt8)) := do
  let s ← expect 123 s
  match expect 125 s with
  | some s => if s.dropWhile isSpace = [] then some [] else none
  | none =>
    let (members, s) ← decodeMembers s.length s
    if s.dropWhile isSpace = [] then some members else none

theorem expect_cons {token : UInt8} (h : isSpace token = false) (s : List UInt8) :
    expect token (token :: s) = some s := by
  rw [expect, List.dropWhile_cons_of_neg (by simp [h])]
  exact if_pos rfl

theorem expect_cons_of_ne {token c : UInt8} (h : isSpace c = false) (hne : c ≠ token)
    (s : List UInt8) : expect token (c :: s) = none := by
  rw [expect, List.dropWhile_cons_of_neg (by simp [h])]
  exact if_neg hne

/-- The text of a member, given what stands between the quotes. -/
def member (m : List UInt8 × List UInt8) : List UInt8 :=
  34 :: (m.1 ++ 34 :: 58 :: 34 :: (m.2 ++ [34]))

/-- The text of an object without white space. -/
def object (ms : List (List UInt8 × List UInt8)) : List UInt8 :=
  123 :: ([44].intercalate (ms.map member) ++ [125])

/-- The key and the value are read as these strings. -/
def ReadsMember (m v : List UInt8 × List UInt8) : Prop := Reads m.1 v.1 ∧ Reads m.2 v.2

theorem decodeMember_append {m v : List UInt8 × List UInt8} (h : ReadsMember m v)
    (rest : List UInt8) : decodeMember (member m ++ rest) = some (v, rest) := by
  have htext : member m ++ rest = 34 :: (m.1 ++ 34 :: 58 :: 34 :: (m.2 ++ 34 :: rest)) := by
    simp only [member, List.cons_append, List.append_assoc, List.nil_append]
  have hquote : ∀ s, expect 34 (34 :: s) = some s := expect_cons rfl
  have hcolon : ∀ s, expect 58 (58 :: s) = some s := expect_cons rfl
  simp only [htext, decodeMember, hquote, hcolon, h.1 _, h.2 _, Option.bind_eq_bind,
    Option.bind_some]
  rfl

theorem decodeMembers_append {ms vs : List (List UInt8 × List UInt8)} {fuel : ℕ}
    (h : List.Forall₂ ReadsMember ms vs) (hne : ms ≠ []) (hfuel : ms.length ≤ fuel)
    (rest : List UInt8) :
    decodeMembers fuel ([44].intercalate (ms.map member) ++ 125 :: rest) = some (vs, rest) := by
  induction h generalizing fuel with
  | nil => exact absurd rfl hne
  | @cons m v ms vs hm hms ih =>
    obtain ⟨fuel, rfl⟩ : ∃ n, fuel = n + 1 := ⟨fuel - 1, by rw [List.length_cons] at hfuel; omega⟩
    rw [decodeMembers]
    cases hms with
    | nil =>
      have hcomma : expect 44 (125 :: rest) = none := expect_cons_of_ne rfl (by decide) rest
      have hclose : expect 125 (125 :: rest) = some rest := expect_cons rfl rest
      rw [List.map_singleton, List.intercalate_singleton, decodeMember_append hm]
      simp only [Option.bind_eq_bind, Option.bind_some, hcomma, hclose]
      rfl
    | @cons m' v' ms vs hm' hms =>
      have hcomma : ∀ s, expect 44 (44 :: s) = some s := expect_cons rfl
      have ih' := ih (List.cons_ne_nil _ _) (by simpa using hfuel)
      rw [List.map_cons] at ih'
      rw [List.map_cons, List.map_cons, List.intercalate_cons_cons, List.append_assoc,
        List.append_assoc, decodeMember_append hm]
      simp only [Option.bind_eq_bind, Option.bind_some, List.singleton_append, hcomma, ih']
      rfl

theorem intercalate_member_eq (m : List UInt8 × List UInt8) (ms : List (List UInt8 × List UInt8)) :
    ∃ t, [44].intercalate ((m :: ms).map member) = 34 :: t := by
  cases ms with
  | nil => exact ⟨_, by rw [List.map_singleton, List.intercalate_singleton]; rfl⟩
  | cons m' ms =>
    exact ⟨_, by rw [List.map_cons, List.map_cons, List.intercalate_cons_cons]; rfl⟩

theorem length_le_length_intercalate (ms : List (List UInt8 × List UInt8)) :
    ms.length ≤ ([44].intercalate (ms.map member)).length := by
  induction ms with
  | nil => exact Nat.zero_le _
  | cons m ms ih =>
    cases ms with
    | nil =>
      rw [List.map_singleton, List.intercalate_singleton, member, List.length_cons]
      exact Nat.succ_le_succ (Nat.zero_le _)
    | cons m' ms =>
      rw [List.map_cons] at ih
      rw [List.map_cons, List.map_cons, List.intercalate_cons_cons, List.length_append,
        List.length_append, List.length_singleton, List.length_cons]
      omega

/-- **An object is read as its members.** -/
theorem decodeObject_object {ms vs : List (List UInt8 × List UInt8)}
    (h : List.Forall₂ ReadsMember ms vs) : decodeObject (object ms) = some vs := by
  have hopen : ∀ s, expect 123 (123 :: s) = some s := expect_cons rfl
  cases h with
  | nil => rfl
  | @cons m v ms vs hm hms =>
    have hlen := length_le_length_intercalate (m :: ms)
    have hclose : expect 125 ([44].intercalate ((m :: ms).map member) ++ [125]) = none := by
      obtain ⟨t, ht⟩ := intercalate_member_eq m ms
      rw [ht]
      exact expect_cons_of_ne rfl (by decide) _
    simp only [decodeObject, object, hopen, Option.bind_eq_bind, Option.bind_some, hclose]
    rw [decodeMembers_append (.cons hm hms) (List.cons_ne_nil _ _)
      (hlen.trans (by rw [List.length_append]; omega))]
    rfl

/-! ## What `JSON.stringify` writes -/

/-- A hexadecimal digit. -/
def hexDigit (n : ℕ) : UInt8 := if n < 10 then UInt8.ofNat (48 + n) else UInt8.ofNat (87 + n)

/-- What `JSON.stringify` writes for a character of a string. -/
def quoteChar (c : Char) : List UInt8 :=
  if c = '"' then [92, 34]
  else if c = '\\' then [92, 92]
  else if c = '\x08' then [92, 98]
  else if c = '\t' then [92, 116]
  else if c = '\n' then [92, 110]
  else if c = '\x0c' then [92, 102]
  else if c = '\r' then [92, 114]
  else if c.toNat < 32 then
    [92, 117, 48, 48, hexDigit (c.toNat / 16), hexDigit (c.toNat % 16)]
  else String.utf8EncodeChar c

/-- What `JSON.stringify` writes between the quotes of a string. -/
def quote (s : List Char) : List UInt8 := s.flatMap quoteChar

/-- The UTF-8 bytes of a string. -/
def utf8 (s : List Char) : List UInt8 := s.flatMap String.utf8EncodeChar

/-- A character that stands for itself in a JSON string. -/
def Plain (c : Char) : Prop := c ≠ '"' ∧ c ≠ '\\' ∧ 32 ≤ c.toNat

instance (c : Char) : Decidable (Plain c) :=
  inferInstanceAs (Decidable (c ≠ '"' ∧ c ≠ '\\' ∧ 32 ≤ c.toNat))

/-- The bytes of a character outside ASCII are not ASCII. -/
theorem toNat_of_mem_utf8EncodeChar {c : Char} {b : UInt8} (h : b ∈ String.utf8EncodeChar c) :
    b.toNat = c.toNat ∨ 128 ≤ b.toNat := by
  rw [String.utf8EncodeChar] at h
  change _ = c.val.toNat ∨ _
  generalize c.val.toNat = v at h
  split_ifs at h with h1 h2 h3
  all_goals
    simp only [List.mem_cons, List.not_mem_nil, or_false] at h
  · left
    rw [h, UInt8.toNat_ofNat']
    omega
  · right
    rcases h with rfl | rfl <;> rw [UInt8.toNat_ofNat'] <;> omega
  · right
    rcases h with rfl | rfl | rfl <;> rw [UInt8.toNat_ofNat'] <;> omega
  · right
    rcases h with rfl | rfl | rfl | rfl <;> rw [UInt8.toNat_ofNat'] <;> omega

theorem eq_of_toNat_eq {c d : Char} (h : c.toNat = d.toNat) : c = d :=
  Char.ext (UInt32.toNat_inj.mp h)

theorem eq_quote_of_mem_utf8EncodeChar {c : Char} (h : 34 ∈ String.utf8EncodeChar c) : c = '"' := by
  rcases toNat_of_mem_utf8EncodeChar h with heq | hge
  · exact eq_of_toNat_eq heq.symm
  · exact absurd hge (by decide)

/-- A quote among the bytes of a string is a quote in the string. -/
theorem mem_utf8_iff {s : List Char} : 34 ∈ utf8 s ↔ '"' ∈ s := by
  rw [utf8, List.mem_flatMap]
  constructor
  · rintro ⟨c, hc, hmem⟩
    rwa [eq_quote_of_mem_utf8EncodeChar hmem] at hc
  · exact fun h ↦ ⟨'"', h, by decide⟩

/-- A quote in what is written for a string is there for a quote in the string. -/
theorem quote_mem_of_mem_quote {s : List Char} (h : 34 ∈ quote s) : '"' ∈ s := by
  obtain ⟨c, hc, hmem⟩ := List.mem_flatMap.mp h
  rw [quoteChar] at hmem
  split_ifs at hmem with h1 h2 h3 h4 h5 h6 h7 h8
  · rwa [h1] at hc
  · exact absurd hmem (by decide)
  · exact absurd hmem (by decide)
  · exact absurd hmem (by decide)
  · exact absurd hmem (by decide)
  · exact absurd hmem (by decide)
  · exact absurd hmem (by decide)
  · have hdigits : ∀ n < 32, 34 ∉ [92, 117, 48, 48, hexDigit (n / 16), hexDigit (n % 16)] := by
      decide
    exact absurd hmem (hdigits _ h8)
  · rwa [eq_quote_of_mem_utf8EncodeChar hmem] at hc

theorem quoteChar_of_plain {c : Char} (h : Plain c) : quoteChar c = String.utf8EncodeChar c := by
  obtain ⟨hquote, hslash, hcontrol⟩ := h
  have hne : ∀ d : Char, d.toNat < 32 → c ≠ d := fun d hd e ↦ absurd hcontrol (by rw [e]; omega)
  rw [quoteChar, if_neg hquote, if_neg hslash, if_neg (hne _ (by decide)),
    if_neg (hne _ (by decide)), if_neg (hne _ (by decide)), if_neg (hne _ (by decide)),
    if_neg (hne _ (by decide)), if_neg (by omega)]

/-- A character that does not stand for itself is written longer than it is. -/
theorem length_lt_length_quoteChar {c : Char} (h : ¬ Plain c) :
    (String.utf8EncodeChar c).length < (quoteChar c).length := by
  have hascii : c.toNat < 128 := by
    by_contra hge
    refine h ⟨?_, ?_, by omega⟩
    · rintro rfl
      exact hge (by decide)
    · rintro rfl
      exact hge (by decide)
  have hone : (String.utf8EncodeChar c).length = 1 := by
    rw [String.utf8EncodeChar, if_pos (show c.val.toNat ≤ 127 from Nat.le_of_lt_succ hascii)]
    rfl
  rw [hone, quoteChar]
  split_ifs with h1 h2 h3 h4 h5 h6 h7 h8
  · decide
  · decide
  · decide
  · decide
  · decide
  · decide
  · decide
  · exact Nat.lt_of_sub_eq_succ rfl
  · exact absurd ⟨h1, h2, by omega⟩ h

theorem length_le_length_quote (s : List Char) : (utf8 s).length ≤ (quote s).length := by
  induction s with
  | nil => exact Nat.le_refl _
  | cons c s ih =>
    have hc : (String.utf8EncodeChar c).length ≤ (quoteChar c).length := by
      by_cases h : Plain c
      · rw [quoteChar_of_plain h]
      · exact (length_lt_length_quoteChar h).le
    rw [utf8, quote, List.flatMap_cons, List.flatMap_cons, List.length_append, List.length_append]
    exact Nat.add_le_add hc ih

/-- **A string is written as it is** exactly when it has no quote, no backslash and no control
character. -/
theorem quote_eq_utf8_iff {s : List Char} : quote s = utf8 s ↔ ∀ c ∈ s, Plain c := by
  induction s with
  | nil => simp [quote, utf8]
  | cons c s ih =>
    rw [quote, utf8, List.flatMap_cons, List.flatMap_cons, List.forall_mem_cons, ← ih]
    constructor
    · intro h
      by_cases hc : Plain c
      · rw [quoteChar_of_plain hc, List.append_cancel_left_eq] at h
        exact ⟨hc, h⟩
      · -- the first character is written longer, and the others are not written shorter
        have hlen := congrArg List.length h
        rw [List.length_append, List.length_append] at hlen
        have hlt := length_lt_length_quoteChar hc
        have hle := length_le_length_quote s
        rw [utf8, quote] at hle
        omega
    · rintro ⟨hc, h⟩
      rw [quoteChar_of_plain hc]
      exact congrArg _ h

/-! ## What is written is read -/

/-- Bytes that stand for themselves in a string literal. -/
theorem decodeString_append_plain {x : List UInt8} (h : ∀ b ∈ x, ¬ b < 32 ∧ b ≠ 34 ∧ b ≠ 92)
    (s : List UInt8) : decodeString (x ++ s) = prepend x (decodeString s) := by
  induction x with
  | nil =>
    rw [List.nil_append, prepend]
    exact Option.map_id'.symm
  | cons b x ih =>
    obtain ⟨h32, h34, h92⟩ := h b List.mem_cons_self
    rw [List.cons_append, decodeString_plain h32 h34 h92, ih fun c hc ↦ h c (List.mem_cons_of_mem _ hc),
      prepend, prepend, prepend, Option.map_map]
    rfl

theorem reads_of_plain {x : List UInt8} (h : ∀ b ∈ x, ¬ b < 32 ∧ b ≠ 34 ∧ b ≠ 92) : Reads x x := by
  intro rest
  rw [decodeString_append_plain h, decodeString, prepend, Option.map_some, List.append_nil]

/-- The escape with four hexadecimal digits, for a control character. -/
theorem codePoint_hexDigit {n : ℕ} (h : n < 32) :
    codePoint 48 48 (hexDigit (n / 16)) (hexDigit (n % 16)) =
      some (String.utf8EncodeChar (Char.ofNat n)) := by
  revert n
  decide

theorem decodeString_quoteChar (c : Char) (s : List UInt8) :
    decodeString (quoteChar c ++ s) = prepend (String.utf8EncodeChar c) (decodeString s) := by
  rw [quoteChar]
  split_ifs with h1 h2 h3 h4 h5 h6 h7 h8
  · subst h1
    exact decodeString_escape rfl s
  · subst h2
    exact decodeString_escape rfl s
  · subst h3
    exact decodeString_escape rfl s
  · subst h4
    exact decodeString_escape rfl s
  · subst h5
    exact decodeString_escape rfl s
  · subst h6
    exact decodeString_escape rfl s
  · subst h7
    exact decodeString_escape rfl s
  · have hcode := codePoint_hexDigit h8
    rw [Char.ofNat_toNat] at hcode
    exact decodeString_unicode hcode s
  · refine decodeString_append_plain (fun b hb ↦ ?_) s
    have hne : ∀ d : Char, c ≠ d → d.toNat < 128 → b ≠ UInt8.ofNat d.toNat := by
      rintro d hcd hd rfl
      rcases toNat_of_mem_utf8EncodeChar hb with heq | hge
      · rw [UInt8.toNat_ofNat', Nat.mod_eq_of_lt (by omega)] at heq
        exact hcd (eq_of_toNat_eq heq.symm)
      · rw [UInt8.toNat_ofNat'] at hge
        omega
    refine ⟨fun hlt ↦ ?_, hne _ h1 (by decide), hne _ h2 (by decide)⟩
    have hlt' : b.toNat < 32 := UInt8.lt_iff_toNat_lt.mp hlt
    rcases toNat_of_mem_utf8EncodeChar hb with heq | hge
    · omega
    · omega

/-- **What `JSON.stringify` writes for a string is read as its UTF-8 bytes.** -/
theorem reads_quote (s : List Char) : Reads (quote s) (utf8 s) :=
  reads_flatMap fun c _ t ↦ decodeString_quoteChar c t

end JsonText
