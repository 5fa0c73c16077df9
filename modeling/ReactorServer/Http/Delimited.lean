import ReactorServer.Http.Format
import ReactorServer.Http.Response

/-!
# Responses are self-delimiting

A client that reuses a connection has to find the end of each response by itself.  `splitBodies`
does it by the server's own rule for requests: up to the first blank line, and then as many bytes
as the header block announces.  A list of responses, one after another in a single text, comes
apart into their bodies with nothing left over (`splitBodies_responses`), whatever bytes the bodies
hold.

`HttpResponse` is what `buildHttpResponse` is called with.  Its status is any integer, also a negative
one, although the server has no such status.
-/

set_option autoImplicit false

namespace ReactorServer

open Search

/-! ## Numbers -/

/-- A digit of a number, as a byte. -/
theorem toNat_of_mem_toDigits {n : ℕ} {c : Char} (h : c ∈ Nat.toDigits 10 n) :
    48 ≤ c.toNat ∧ c.toNat ≤ 57 ∧ c.toNat.toUInt8.toNat = c.toNat := by
  have hdigit := Nat.isDigit_of_mem_toDigits (by decide) (by decide) h
  obtain ⟨hle, hge⟩ := Char.isDigit_iff_toNat.mp hdigit
  change 48 ≤ c.toNat at hle
  change c.toNat ≤ 57 at hge
  refine ⟨hle, hge, ?_⟩
  rw [UInt8.toNat_ofNat']
  omega

theorem isdigit_of_mem_decimal {n : ℕ} {b : UInt8} (h : b ∈ decimal n) : isdigit b = true := by
  obtain ⟨c, hc, rfl⟩ := List.mem_map.mp h
  obtain ⟨hle, hge, hbyte⟩ := toNat_of_mem_toDigits hc
  rw [isdigit, Bool.and_eq_true, decide_eq_true_iff, decide_eq_true_iff, UInt8.le_iff_toNat_le,
    UInt8.le_iff_toNat_le, hbyte]
  exact ⟨hle, hge⟩

theorem decimal_ne_nil (n : ℕ) : decimal n ≠ [] := by
  rw [decimal, ne_eq, List.map_eq_nil_iff]
  exact Nat.toDigits_ne_nil

/-- **The digits of a number denote it.** -/
theorem digitsVal_decimal (n : ℕ) : digitsVal (decimal n) = n := by
  have hfold : digitsVal (decimal n) = Nat.ofDigitChars 10 (Nat.toDigits 10 n) 0 := by
    rw [digitsVal, decimal, List.foldl_map, Nat.ofDigitChars_eq_foldl]
    refine List.foldl_ext _ _ _ fun m c hc ↦ ?_
    rw [(toNat_of_mem_toDigits hc).2.2]
    rfl
  rw [hfold, Nat.ofDigitChars_ten_toDigits]

/-- There is no line end in a number. -/
theorem not_mem_intDecimal {b : UInt8} (h : b = 13 ∨ b = 10) (n : ℤ) : b ∉ intDecimal n := by
  have hdigits : ∀ m, b ∉ decimal m := by
    intro m hin
    have hdigit := isdigit_of_mem_decimal hin
    rcases h with rfl | rfl
    · exact absurd hdigit (by decide)
    · exact absurd hdigit (by decide)
  rw [intDecimal]
  split
  · rw [List.mem_cons]
    rintro (rfl | hin)
    · exact absurd h (by decide)
    · exact hdigits _ hin
  · exact hdigits _

theorem not_mem_statusText {b : UInt8} (h : b = 13 ∨ b = 10) (n : ℤ) : b ∉ statusText n := by
  unfold statusText
  rcases h with rfl | rfl
  · split <;> decide
  · split <;> decide

/-! ## A response -/

/-- What `buildHttpResponse` is called with. -/
structure HttpResponse where
  /-- An `int`. -/
  statusCode : ℤ
  contentType : Bytes
  body : Bytes
  keepAlive : Bool
  contentType_ok : 13 ∉ contentType ∧ 10 ∉ contentType
  /-- A `std::string` has at most `max_size()` bytes, which is no more than `PTRDIFF_MAX`. -/
  body_le : (body.length : ℤ) ≤ longMax

namespace HttpResponse

variable (r : HttpResponse)

/-- The lines of the header block. -/
def lines : List Bytes :=
  [lit "HTTP/1.1 " ++ intDecimal r.statusCode ++ lit " " ++ statusText r.statusCode,
    lit "Content-Type: " ++ r.contentType,
    lit "Content-Length: " ++ decimal r.body.length,
    lit "Connection: " ++ connectionValue r.keepAlive]

/-- The text of the response. -/
def text : Bytes := buildHttpResponse r.statusCode r.contentType r.body r.keepAlive

theorem text_eq : r.text = joinLines r.lines ++ (crlf2 ++ r.body) := by
  simp only [text, buildHttpResponse, responseHeader, lines, joinLines_cons_cons, joinLines_singleton,
    crlf, List.append_assoc, List.cons_append, List.nil_append]

theorem not_mem_of_mem_lines {b : UInt8} (hb : b = 13 ∨ b = 10) {line : Bytes}
    (h : line ∈ r.lines) : b ∉ line := by
  have hfixed : ∀ s ∈ [lit "HTTP/1.1 ", lit " ", lit "Content-Type: ", lit "Content-Length: ",
      lit "Connection: ", lit "keep-alive", lit "close"], b ∉ s := by
    rcases hb with rfl | rfl
    · decide
    · decide
  have htype : b ∉ r.contentType := by
    rcases hb with rfl | rfl
    · exact r.contentType_ok.1
    · exact r.contentType_ok.2
  have hlength : b ∉ decimal r.body.length := not_mem_intDecimal hb r.body.length
  have hconnection : b ∉ connectionValue r.keepAlive := by
    rw [connectionValue]
    split
    · exact hfixed _ (by simp)
    · exact hfixed _ (by simp)
  simp only [lines, List.mem_cons, List.not_mem_nil, or_false] at h
  rcases h with rfl | rfl | rfl | rfl
  · simp only [List.mem_append, not_or]
    exact ⟨⟨⟨hfixed _ (by simp), not_mem_intDecimal hb _⟩, hfixed _ (by simp)⟩,
      not_mem_statusText hb _⟩
  · simp only [List.mem_append, not_or]
    exact ⟨hfixed _ (by simp), htype⟩
  · simp only [List.mem_append, not_or]
    exact ⟨hfixed _ (by simp), hlength⟩
  · simp only [List.mem_append, not_or]
    exact ⟨hfixed _ (by simp), hconnection⟩

theorem isLine_of_mem_lines {line : Bytes} (h : line ∈ r.lines) : IsLine line := by
  refine ⟨?_, r.not_mem_of_mem_lines (.inl rfl) h, r.not_mem_of_mem_lines (.inr rfl) h⟩
  simp only [lines, List.mem_cons, List.not_mem_nil, or_false] at h
  rcases h with rfl | rfl | rfl | rfl
  all_goals exact List.cons_ne_nil _ _

/-- **The header block announces the length of the body.** -/
theorem requestContentLength_lines :
    requestContentLength (joinLines r.lines) = r.body.length := by
  have hstatus : lineValue (lit "content-length") (lit "HTTP/1.1 " ++ intDecimal r.statusCode ++
      lit " " ++ statusText r.statusCode) = none := by
    refine lineValue_eq_none (not_isField_of_map ?_)
    rintro ⟨t, ht⟩
    exact absurd (List.cons.inj ht).1 (by decide)
  have htype : lineValue (lit "content-length") (lit "Content-Type: " ++ r.contentType) = none := by
    refine lineValue_eq_none (not_isField_of_map fun hpre ↦ ?_)
    rw [List.map_append] at hpre
    have hshort := List.prefix_of_prefix_length_le hpre (List.prefix_append _ _) (by decide)
    exact absurd hshort (by decide)
  have hlength : lineValue (lit "content-length") (lit "Content-Length: " ++ decimal r.body.length) =
      some (32 :: decimal r.body.length) := by
    rw [show lit "Content-Length: " ++ decimal r.body.length =
      lit "Content-Length" ++ [] ++ 58 :: 32 :: decimal r.body.length from rfl]
    exact lineValue_content_length (by decide) (by simp)
  have hvalue : findHeader (joinLines r.lines) (lit "content-length") =
      [32] ++ decimal r.body.length := by
    rw [findHeader_joinLines _ fun _ h ↦ (r.isLine_of_mem_lines h).no_break, lines,
      List.findSome?_cons, hstatus, List.findSome?_cons, htype, List.findSome?_cons, hlength]
    rfl
  have hdigits := digitsVal_decimal r.body.length
  have hstrtol : (strtol ([32] ++ decimal r.body.length)).1 = r.body.length := by
    rw [strtol_digits (by decide +kernel) (decimal_ne_nil _)
      (fun b hb ↦ isdigit_of_mem_decimal hb), hdigits]
    rw [hdigits]
    exact r.body_le
  rw [requestContentLength, hvalue, if_neg (by simp), hstrtol]
  rfl

end HttpResponse

/-! ## Splitting a text into responses -/

/-- The bodies of the responses in a text, and what is left: up to the first blank line, and then
as many bytes as the header block announces. -/
def splitBodies (s : Bytes) : List Bytes × Bytes :=
  match indexOf crlf2 s with
  | none => ([], s)
  | some headerEnd =>
    let bodyLen := requestContentLength (s.take headerEnd)
    if _ : headerEnd + 4 + bodyLen ≤ s.length then
      let tail := splitBodies (s.drop (headerEnd + 4 + bodyLen))
      ((s.drop (headerEnd + 4)).take bodyLen :: tail.1, tail.2)
    else ([], s)
termination_by s.length
decreasing_by rw [List.length_drop]; omega

theorem splitBodies_nil : splitBodies [] = ([], []) := by
  rw [splitBodies]
  rfl

/-- A response is cut off the front of a text, whatever follows it. -/
theorem splitBodies_append (r : HttpResponse) (t : Bytes) :
    splitBodies (r.text ++ t) = (r.body :: (splitBodies t).1, (splitBodies t).2) := by
  set h := (joinLines r.lines).length with hh
  have htext : r.text ++ t = joinLines r.lines ++ (crlf2 ++ (r.body ++ t)) := by
    rw [r.text_eq, List.append_assoc, List.append_assoc]
  have hblank : indexOf crlf2 (r.text ++ t) = some h := by
    rw [htext]
    exact indexOf_crlf2_joinLines (List.cons_ne_nil _ _) (fun _ ↦ r.isLine_of_mem_lines) _
  have htake : (r.text ++ t).take h = joinLines r.lines := by
    rw [htext]
    exact List.take_left
  have hdrop : (r.text ++ t).drop (h + 4) = r.body ++ t := by
    rw [htext, ← List.drop_drop, List.drop_left]
    rfl
  have hrest : (r.text ++ t).drop (h + 4 + r.body.length) = t := by
    rw [← List.drop_drop, hdrop, List.drop_left]
  have hlen : h + 4 + r.body.length ≤ (r.text ++ t).length := by
    rw [htext]
    simp only [List.length_append, crlf2, List.length_cons, List.length_nil]
    omega
  rw [splitBodies, hblank]
  dsimp only
  rw [htake, r.requestContentLength_lines, dif_pos hlen, hdrop, hrest, List.take_left]

/-- **Responses are self-delimiting.** -/
theorem splitBodies_responses (rs : List HttpResponse) :
    splitBodies (rs.flatMap HttpResponse.text) = (rs.map HttpResponse.body, []) := by
  induction rs with
  | nil => exact splitBodies_nil
  | cons r rs ih => rw [List.flatMap_cons, splitBodies_append, ih, List.map_cons]

/-- A response whose body has a blank line in it and looks like another response, and one with a status
that the server does not have. -/
def trickyResponses : List HttpResponse :=
  [⟨200, lit "text/html", lit "HTTP/1.1 200 OK\r\nContent-Length: 99\r\n\r\nx", true, by decide, by decide⟩,
    ⟨-7, lit "application/json", [], false, by decide, by decide⟩]

theorem splitBodies_trickyResponses :
    splitBodies (trickyResponses.flatMap HttpResponse.text) =
      ([lit "HTTP/1.1 200 OK\r\nContent-Length: 99\r\n\r\nx", []], []) :=
  splitBodies_responses trickyResponses

end ReactorServer
