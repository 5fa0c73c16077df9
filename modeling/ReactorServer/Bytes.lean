import ReactorServer.Lib.Search
import Mathlib.Data.List.DropRight

/-!
# Byte strings

A `std::string` is a list of bytes: the server never looks at characters, and nothing stops a
request from carrying any byte at all, NUL included.  `lit` turns a string literal of the source
into its bytes; every literal in the source is ASCII.

The C library functions the parsers call are here as well, on bytes and in the default `"C"`
locale, which the server never changes: `tolower`, `isspace`, `isdigit` and `strtol`.  `cstr` is
what is left of a string handed over through `c_str()` to code that stops at the first NUL.
-/

set_option autoImplicit false

namespace ReactorServer

open Search

/-- A byte string, the model of `std::string`. -/
abbrev Bytes := List UInt8

/-- The bytes of an ASCII string literal. -/
def lit (s : String) : Bytes := s.toList.map fun c ↦ c.toNat.toUInt8

/-- `"\r\n"`, the end of a header line. -/
def crlf : Bytes := [13, 10]

/-- `"\r\n\r\n"`, the end of a header block. -/
def crlf2 : Bytes := [13, 10, 13, 10]

/-- A blank in the sense of the header parsers: a space or a tab. -/
def isBlank (b : UInt8) : Bool := b == 32 || b == 9

/-- `std::tolower` on a byte. -/
def tolower (b : UInt8) : UInt8 := if 65 ≤ b && b ≤ 90 then b + 32 else b

/-- `std::isspace` on a byte. -/
def isspace (b : UInt8) : Bool := b == 32 || (9 ≤ b && b ≤ 13)

/-- `std::isdigit` on a byte. -/
def isdigit (b : UInt8) : Bool := 48 ≤ b && b ≤ 57

/-- The number a string of decimal digits denotes. -/
def digitsVal (ds : Bytes) : ℕ := ds.foldl (fun n d ↦ 10 * n + (d.toNat - 48)) 0

/-- `LONG_MAX` on the 64-bit targets the server is built for. -/
def longMax : ℤ := 9223372036854775807

/-- `LONG_MIN`. -/
def longMin : ℤ := -9223372036854775808

/-- The sign `strtol` accepts in front of the digits: whether it was a minus, and what follows. -/
def splitSign : Bytes → Bool × Bytes
  | 45 :: s => (true, s)
  | 43 :: s => (false, s)
  | s => (false, s)

/-- `strtol(s, &end, 10)`: the value, clamped to a `long`, and the text `end` points at.  With no
digits nothing is converted and `end` is the start. -/
def strtol (s : Bytes) : ℤ × Bytes :=
  let (neg, u) := splitSign (s.dropWhile isspace)
  let ds := u.takeWhile isdigit
  if ds = [] then (0, s)
  else
    let v : ℤ := if neg then -(digitsVal ds) else digitsVal ds
    (max longMin (min longMax v), u.dropWhile isdigit)

/-- A string as C code sees it through `c_str()`: the bytes before the first NUL. -/
def cstr (s : Bytes) : Bytes := s.takeWhile (· != 0)

/-- `std::to_string` of a non-negative number. -/
def decimal (n : ℕ) : Bytes := (Nat.toDigits 10 n).map fun c ↦ c.toNat.toUInt8

/-- `std::to_string` of an `int`. -/
def intDecimal (n : ℤ) : Bytes := if n < 0 then 45 :: decimal n.natAbs else decimal n.toNat

/-- `s.find(c) != npos` and the like: does the pattern occur? -/
def occurs (pat s : Bytes) : Bool := (indexOf pat s).isSome

theorem occurs_iff {pat s : Bytes} : occurs pat s = true ↔ pat <:+: s := by
  rw [occurs, ← not_iff_not, Bool.not_eq_true, Option.isSome_eq_false_iff,
    Option.isNone_iff_eq_none, indexOf_eq_none_iff]

/-- A string without a NUL byte passes through `c_str()` unharmed. -/
theorem cstr_eq_self {s : Bytes} (h : 0 ∉ s) : cstr s = s := by
  refine List.takeWhile_eq_self_iff.mpr fun b hb ↦ ?_
  simp only [bne_iff_ne, ne_eq]
  rintro rfl
  exact h hb

theorem cstr_append {pre s : Bytes} (h : 0 ∉ pre) : cstr (pre ++ s) = pre ++ cstr s := by
  refine List.takeWhile_append_of_pos fun b hb ↦ ?_
  simp only [bne_iff_ne, ne_eq]
  rintro rfl
  exact h hb

theorem cstr_cstr (s : Bytes) : cstr (cstr s) = cstr s := by
  refine cstr_eq_self fun h0 ↦ ?_
  simpa using List.mem_takeWhile_imp h0

end ReactorServer
