import ReactorServer.Bytes
import ReactorServer.Lib.JsonText

/-!
# Escaping a string for JSON

Usernames are limited in length but not in what bytes they hold, so `/profile` writes them through
`jsonEscape`.  No two strings are written alike (`jsonEscape_injective`): the front of an escaped
text says which byte comes first.  By the rules of JSON an escaped text stands for the string it was
made from, and ends nowhere before its closing quote (`reads_jsonEscape`).
-/

set_option autoImplicit false

namespace ReactorServer

/-- A hexadecimal digit, as `printf` writes it. -/
def hexDigit (n : UInt8) : UInt8 := if n < 10 then 48 + n else 87 + n

/-- What `jsonEscape` writes for a byte. -/
def jsonEscapeByte (b : UInt8) : Bytes :=
  if b = 34 then [92, 34]
  else if b = 92 then [92, 92]
  else if b = 10 then [92, 110]
  else if b = 13 then [92, 114]
  else if b = 9 then [92, 116]
  else if b < 32 then [92, 117, 48, 48, hexDigit (b / 16), hexDigit (b % 16)]
  else [b]

/-- `jsonEscape`. -/
def jsonEscape (s : Bytes) : Bytes := s.flatMap jsonEscapeByte

/-- The value of a hexadecimal digit. -/
def hexVal (h : UInt8) : UInt8 := if h < 58 then h - 48 else h - 87

theorem hexVal_hexDigit {n : UInt8} (h : n < 16) : hexVal (hexDigit n) = n := by
  grind [hexVal, hexDigit]

theorem sixteen_mul_div_add_mod (b : UInt8) : 16 * (b / 16) + b % 16 = b := by
  rw [← UInt8.toNat_inj]
  have hb := b.toNat_lt
  simp
  omega

theorem nibbles_lt (b : UInt8) : b / 16 < 16 ∧ b % 16 < 16 := by
  have hb := b.toNat_lt
  simp only [UInt8.lt_iff_toNat_lt, UInt8.toNat_div, UInt8.toNat_mod]
  simp
  omega

/-- The byte that the front of an escaped text stands for. -/
def jsonHead : Bytes → Option UInt8
  | 92 :: 117 :: _ :: _ :: h :: l :: _ => some (16 * hexVal h + hexVal l)
  | 92 :: c :: _ =>
    some (if c = 110 then 10 else if c = 114 then 13 else if c = 116 then 9 else c)
  | b :: _ => some b
  | [] => none

theorem jsonHead_jsonEscapeByte (b : UInt8) (s : Bytes) :
    jsonHead (jsonEscapeByte b ++ s) = some b := by
  unfold jsonEscapeByte
  split_ifs with hquote hslash hn hr ht hcontrol
  · subst hquote; rfl
  · subst hslash; rfl
  · subst hn; rfl
  · subst hr; rfl
  · subst ht; rfl
  · obtain ⟨hhigh, hlow⟩ := nibbles_lt b
    simp only [List.cons_append, jsonHead, hexVal_hexDigit hhigh, hexVal_hexDigit hlow,
      sixteen_mul_div_add_mod]
  · rw [List.singleton_append, jsonHead]
    · intro _ _ _ _ _ h _
      exact hslash h
    · intro _ _ h _
      exact hslash h

/-- **Escaping is injective.** -/
theorem jsonEscape_injective {s t : Bytes} (h : jsonEscape s = jsonEscape t) : s = t := by
  induction s generalizing t with
  | nil =>
    cases t with
    | nil => rfl
    | cons c t =>
      have key := jsonHead_jsonEscapeByte c (jsonEscape t)
      rw [show jsonEscapeByte c ++ jsonEscape t = jsonEscape (c :: t) from rfl, ← h] at key
      exact absurd key (by simp [jsonEscape, jsonHead])
  | cons b s ih =>
    have hb := jsonHead_jsonEscapeByte b (jsonEscape s)
    rw [show jsonEscapeByte b ++ jsonEscape s = jsonEscape (b :: s) from rfl, h] at hb
    cases t with
    | nil => exact absurd hb (by simp [jsonEscape, jsonHead])
    | cons c t =>
      have hc := jsonHead_jsonEscapeByte c (jsonEscape t)
      obtain rfl : b = c := Option.some_inj.mp (hb.symm.trans hc)
      rw [jsonEscape, jsonEscape, List.flatMap_cons, List.flatMap_cons,
        List.append_cancel_left_eq] at h
      rw [ih h]

/-! ## Reading it back -/

open JsonText (decodeString prepend codePoint bareQuote Reads)

theorem codePoint_control {b : UInt8} (h : b < 32) :
    codePoint 48 48 (hexDigit (b / 16)) (hexDigit (b % 16)) = some [b] := by
  have key : ∀ n < 32, codePoint 48 48 (hexDigit (UInt8.ofNat n / 16))
      (hexDigit (UInt8.ofNat n % 16)) = some [UInt8.ofNat n] := by
    decide
  have hb := key b.toNat (UInt8.lt_iff_toNat_lt.mp h)
  rwa [UInt8.ofNat_toNat] at hb

theorem decodeString_jsonEscapeByte (b : UInt8) (s : Bytes) :
    decodeString (jsonEscapeByte b ++ s) = prepend [b] (decodeString s) := by
  unfold jsonEscapeByte
  split_ifs with hquote hslash hn hr ht hcontrol
  · subst hquote
    exact JsonText.decodeString_escape rfl s
  · subst hslash
    exact JsonText.decodeString_escape rfl s
  · subst hn
    exact JsonText.decodeString_escape rfl s
  · subst hr
    exact JsonText.decodeString_escape rfl s
  · subst ht
    exact JsonText.decodeString_escape rfl s
  · exact JsonText.decodeString_unicode (codePoint_control hcontrol) s
  · exact JsonText.decodeString_plain hcontrol hquote hslash s

/-- **An escaped text is read as the string it was made from.** -/
theorem reads_jsonEscape (s : Bytes) : Reads (jsonEscape s) s := by
  have h : Reads (s.flatMap jsonEscapeByte) (s.flatMap fun b ↦ [b]) :=
    JsonText.reads_flatMap fun b _ t ↦ decodeString_jsonEscapeByte b t
  rwa [List.flatMap_singleton'] at h

theorem le_hexDigit {n : UInt8} (h : n < 16) : 48 ≤ hexDigit n ∧ hexDigit n ≠ 92 := by
  grind [hexDigit]

theorem bareQuote_hexDigit {n : UInt8} (h : n < 16) (s : Bytes) :
    bareQuote (hexDigit n :: s) = bareQuote s := by
  obtain ⟨hle, hne⟩ := le_hexDigit h
  refine JsonText.bareQuote_cons ?_ hne s
  intro he
  rw [he] at hle
  exact absurd hle (by decide)

theorem bareQuote_jsonEscapeByte (b : UInt8) (s : Bytes) :
    bareQuote (jsonEscapeByte b ++ s) = bareQuote s := by
  unfold jsonEscapeByte
  split_ifs with hquote hslash hn hr ht hcontrol
  · rfl
  · rfl
  · rfl
  · rfl
  · rfl
  · obtain ⟨hhigh, hlow⟩ := nibbles_lt b
    calc bareQuote (48 :: 48 :: hexDigit (b / 16) :: hexDigit (b % 16) :: s)
      _ = bareQuote (hexDigit (b / 16) :: hexDigit (b % 16) :: s) := rfl
      _ = bareQuote s := by rw [bareQuote_hexDigit hhigh, bareQuote_hexDigit hlow]
  · exact JsonText.bareQuote_cons hquote hslash s

/-- No quote in an escaped text is unescaped. -/
theorem bareQuote_jsonEscape (s : Bytes) : bareQuote (jsonEscape s) = false :=
  JsonText.bareQuote_flatMap fun b _ t ↦ bareQuote_jsonEscapeByte b t

/-- No byte of an escaped text is a control character. -/
theorem le_of_mem_jsonEscape {s : Bytes} {b : UInt8} (h : b ∈ jsonEscape s) : 32 ≤ b := by
  obtain ⟨c, -, hb⟩ := List.mem_flatMap.mp h
  unfold jsonEscapeByte at hb
  split_ifs at hb with hquote hslash hn hr ht hcontrol
  · exact (by decide +kernel : ∀ x ∈ [92, 34], (32 : UInt8) ≤ x) b hb
  · exact (by decide +kernel : ∀ x ∈ [92, 92], (32 : UInt8) ≤ x) b hb
  · exact (by decide +kernel : ∀ x ∈ [92, 110], (32 : UInt8) ≤ x) b hb
  · exact (by decide +kernel : ∀ x ∈ [92, 114], (32 : UInt8) ≤ x) b hb
  · exact (by decide +kernel : ∀ x ∈ [92, 116], (32 : UInt8) ≤ x) b hb
  · obtain ⟨hhigh, hlow⟩ := nibbles_lt c
    have hdigit : ∀ n : UInt8, n < 16 → 32 ≤ hexDigit n := fun n hn ↦
      UInt8.le_trans (by decide) (le_hexDigit hn).1
    simp only [List.mem_cons, List.not_mem_nil, or_false] at hb
    rcases hb with rfl | rfl | rfl | rfl | rfl | rfl
    · decide
    · decide
    · decide
    · decide
    · exact hdigit _ hhigh
    · exact hdigit _ hlow
  · rw [List.mem_singleton.mp hb]
    exact UInt8.not_lt.mp hcontrol

end ReactorServer
