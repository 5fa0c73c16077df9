import ReactorServer.Framing.Greedy
import ReactorServer.Http.Format

/-!
# What the route depends on

A request is routed by its method and its URL, and both are logged.  `parseMethod` and `parseUrl`
have an answer ready for a request line without spaces, but they look for the spaces in the whole
request: when the request line has fewer than two, a header or the body supplies the rest, line
ends and all.

`routedByLine_iff` says that nothing else goes wrong.  The request line decides, and the log entry
stays on one line, exactly when the line has its two spaces and no stray line feed or carriage
return before the second.
-/

set_option autoImplicit false

namespace ReactorServer

open Search

/-! ## A request that was cut off -/

/-- The request loop cuts off a request with this header block and this text. -/
def FramedRequest (headers text : Bytes) : Prop :=
  ∃ buf rest, nextFrame buf = .request headers text rest

/-- **What a framed request is**: a header block, the first blank line, and as many bytes as the
header block announces. -/
theorem framedRequest_iff {headers text : Bytes} : FramedRequest headers text ↔
    ∃ body, text = headers ++ (crlf2 ++ body) ∧ indexOf crlf2 text = some headers.length ∧
      requestContentLength headers = body.length ∧ body.length ≤ kMaxBodyBytes := by
  constructor
  · rintro ⟨buf, rest, hframe⟩
    obtain ⟨h, hi, hn, hlen, rfl, rfl, -⟩ := nextFrame_eq_request_iff.mp hframe
    set n := requestContentLength (buf.take h)
    have hhead : (buf.take h).length = h := List.length_take_of_le (by omega)
    obtain ⟨t, ht⟩ := (indexOf_eq_some_iff.mp hi).here
    have hbuf : buf = buf.take h ++ (crlf2 ++ t) := by rw [ht, List.take_append_drop]
    have hlen' : n ≤ t.length := by
      have hb := congrArg List.length hbuf
      simp only [List.length_append, hhead, crlf2, List.length_cons, List.length_nil] at hb
      omega
    have htext : buf.take (h + 4 + n) = buf.take h ++ (crlf2 ++ t.take n) := by
      have hfour : h + 4 + n = (buf.take h ++ crlf2).length + n := by
        rw [List.length_append, hhead]
        rfl
      conv_lhs => rw [hbuf, ← List.append_assoc, hfour, List.take_length_add_append]
      rw [List.append_assoc]
    refine ⟨t.take n, htext, ?_, (List.length_take_of_le hlen').symm, ?_⟩
    · rw [hhead]
      refine indexOf_of_append (t := buf.drop (h + 4 + n)) ?_ ?_
      · rw [List.take_append_drop, hi]
      · rw [List.length_take_of_le hlen]
        simp only [crlf2, List.length_cons, List.length_nil]
        omega
    · rw [List.length_take_of_le hlen']
      exact hn
  · rintro ⟨body, rfl, hi, hn, hle⟩
    have hlen : (headers ++ (crlf2 ++ body)).length = headers.length + 4 + body.length := by
      simp only [List.length_append, crlf2, List.length_cons, List.length_nil]
      omega
    refine ⟨headers ++ (crlf2 ++ body), [], nextFrame_eq_request_iff.mpr
      ⟨headers.length, hi, ?_⟩⟩
    rw [List.take_left, hn, hlen, ← hlen, List.take_length, List.drop_length]
    exact ⟨hle, le_rfl, rfl, rfl, rfl⟩

/-- The request line of a framed request is the first line of its header block. -/
theorem FramedRequest.firstLine_eq {headers text : Bytes} (h : FramedRequest headers text) :
    firstLine text = firstLine headers := by
  obtain ⟨body, rfl, -⟩ := framedRequest_iff.mp h
  exact firstLine_append_crlf headers (13 :: 10 :: body)

/-- A line end follows the request line. -/
theorem FramedRequest.eq_append {headers text : Bytes} (h : FramedRequest headers text) :
    ∃ t, text = firstLine text ++ 13 :: 10 :: t := by
  obtain ⟨body, rfl, -⟩ := framedRequest_iff.mp h
  have hin : crlf <:+: headers ++ (crlf2 ++ body) := ⟨headers, 13 :: 10 :: body, by simp [crlf, crlf2]⟩
  cases hcut : indexOf crlf (headers ++ (crlf2 ++ body)) with
  | none => exact absurd hin (indexOf_eq_none_iff.mp hcut)
  | some e =>
    obtain ⟨t, ht⟩ := (indexOf_eq_some_iff.mp hcut).here
    refine ⟨t, ?_⟩
    rw [ReactorServer.firstLine_eq, hcut, Option.getD_some]
    have hsplit := (List.take_append_drop e (headers ++ (crlf2 ++ body))).symm
    rw [← ht] at hsplit
    exact hsplit

/-! ## The spaces of the request line -/

/-- The request line has its two spaces, and no line feed or carriage return before the second:
the method and the URL are cut out of it. -/
def HasParts (line : Bytes) : Prop :=
  ∃ method url version, line = method ++ 32 :: (url ++ 32 :: version) ∧
    (∀ b ∈ method, b ≠ 32 ∧ b ≠ 13 ∧ b ≠ 10) ∧ ∀ b ∈ url, b ≠ 32 ∧ b ≠ 13 ∧ b ≠ 10

/-- No carriage return and no line feed: a text that stays on one line of the log. -/
def OnOneLine (s : Bytes) : Prop := 13 ∉ s ∧ 10 ∉ s

/-- The request line alone decides the method and the URL of this request, and neither has a line
end in it. -/
def RoutedByLine (text : Bytes) : Prop :=
  (∀ headers' text', FramedRequest headers' text' → firstLine text' = firstLine text →
    parseMethod text' = parseMethod text ∧ parseUrl text' = parseUrl text) ∧
  OnOneLine (parseMethod text) ∧ OnOneLine (parseUrl text)

/-- When the request line has two spaces, the parsers cut at them, whatever follows. -/
theorem FramedRequest.parse_eq {headers text method url version : Bytes}
    (h : FramedRequest headers text)
    (hline : firstLine text = method ++ 32 :: (url ++ 32 :: version)) (hm : 32 ∉ method)
    (hu : 32 ∉ url) : parseMethod text = method ∧ parseUrl text = url := by
  obtain ⟨t, ht⟩ := h.eq_append
  have htext : text = method ++ 32 :: (url ++ 32 :: (version ++ 13 :: 10 :: t)) := by
    rw [ht, hline]
    simp only [List.append_assoc, List.cons_append]
  rw [htext]
  exact ⟨parseMethod_append hm _, parseUrl_append hm hu _⟩

/-! ## A request line and a header line that supplies the missing space -/

/-- The header block of a request with this request line and one header. -/
def hostHeaders (line : Bytes) : Bytes := line ++ 13 :: 10 :: lit "Host: x"

/-- A request with this request line, one header, and as many bytes of body as it takes. -/
def hostRequest (line : Bytes) : Bytes :=
  hostHeaders line ++ (crlf2 ++ List.replicate (requestContentLength (hostHeaders line)) 0)

/-- What a header block announces is what its request line announces, if that happens to be a
header line for the lookup. -/
theorem requestContentLength_of_firstLine {headers value : Bytes}
    (h : lineValue (lit "content-length") (firstLine headers) = some value) :
    requestContentLength headers = if value = [] then 0 else (strtol value).1.toNat := by
  have hfind : findHeader headers (lit "content-length") = value := by
    rw [findHeader_eq]
    rw [firstLine] at h
    cases hlines : splitLines headers with
    | nil =>
      rw [hlines, List.headD_nil, lineValue_nil] at h
      exact absurd h (by simp)
    | cons line lines =>
      rw [hlines, List.headD_cons] at h
      rw [List.findSome?_cons, h]
      rfl
  rw [requestContentLength, hfind]

theorem firstLine_hostHeaders {line : Bytes} (h : ¬ crlf <:+: line) :
    firstLine (hostHeaders line) = line := firstLine_append h _

/-- The body is no longer than that of any other framed request with the same request line. -/
theorem requestContentLength_hostHeaders {headers text : Bytes} (h : FramedRequest headers text) :
    requestContentLength (hostHeaders (firstLine text)) ≤ kMaxBodyBytes := by
  have hline := not_crlf_infix_firstLine text
  cases hv : lineValue (lit "content-length") (firstLine text) with
  | some value =>
    obtain ⟨body, -, -, hn, hle⟩ := framedRequest_iff.mp h
    have hheaders := requestContentLength_of_firstLine (h.firstLine_eq ▸ hv)
    rw [requestContentLength_of_firstLine (by rw [firstLine_hostHeaders hline, hv]), ← hheaders, hn]
    exact hle
  | none =>
    have hfind : findHeader (hostHeaders (firstLine text)) (lit "content-length") = [] := by
      rw [findHeader_eq, hostHeaders, splitLines_append hline, List.findSome?_cons, hv]
      decide
    rw [requestContentLength, hfind]
    exact Nat.zero_le _

/-- **It is a request the server cuts off.** -/
theorem framedRequest_hostRequest {headers text : Bytes} (h : FramedRequest headers text) :
    FramedRequest (hostHeaders (firstLine text)) (hostRequest (firstLine text)) := by
  refine framedRequest_iff.mpr ⟨_, rfl, ?_, (List.length_replicate ..).symm, ?_⟩
  · have hline := not_crlf_infix_firstLine text
    generalize firstLine text = line at hline
    rw [hostRequest]
    generalize List.replicate _ _ = body
    have hhost : 13 ∉ lit "Host: x" := by decide
    have hhead : (lit "Host: x" ++ (crlf2 ++ body)).head? ≠ some 13 := by
      rw [show lit "Host: x" = 72 :: lit "ost: x" from rfl, List.cons_append, List.head?_cons]
      decide
    rw [hostHeaders, List.append_assoc, List.cons_append, List.cons_append,
      indexOf_crlf2_line hline hhead, indexOf_crlf2_append _ hhost]
    simp only [crlf2, List.cons_append, List.nil_append, indexOf, List.isPrefixOf, beq_self_eq_true,
      Bool.and_self, if_true, Option.map_some, List.length_append, List.length_cons]
    congr 1
    omega
  · rw [List.length_replicate]
    exact requestContentLength_hostHeaders h

theorem firstLine_hostRequest {line : Bytes} (h : ¬ crlf <:+: line) :
    firstLine (hostRequest line) = line := by
  rw [hostRequest, hostHeaders, List.append_assoc]
  exact firstLine_append h _

/-- Its first space after the request line is the one in the header. -/
theorem hostRequest_eq (line : Bytes) :
    ∃ t, hostRequest line = line ++ 13 :: 10 :: (lit "Host:" ++ 32 :: t) := by
  rw [hostRequest, hostHeaders, show lit "Host: x" = lit "Host:" ++ [32, 120] from rfl]
  exact ⟨_, by simp only [List.append_assoc, List.cons_append, List.nil_append]; rfl⟩

/-! ## The result -/

theorem not_mem_space_tail {a : Bytes} (h : 32 ∉ a) : 32 ∉ a ++ 13 :: 10 :: lit "Host:" := by
  rw [List.mem_append]
  rintro (hin | hin)
  · exact h hin
  · exact absurd hin (by decide)

/-- A request line with fewer than two spaces does not decide alone: in the other request the method
or the URL goes on into the header. -/
theorem RoutedByLine.two_spaces {headers text : Bytes} (h : FramedRequest headers text)
    (hrouted : RoutedByLine text) : ∃ method url version,
      firstLine text = method ++ 32 :: (url ++ 32 :: version) ∧ 32 ∉ method ∧ 32 ∉ url := by
  obtain ⟨hsame, hmethod, hurl⟩ := hrouted
  have hno := not_crlf_infix_firstLine text
  obtain ⟨hm, hu⟩ := hsame _ _ (framedRequest_hostRequest h) (firstLine_hostRequest hno)
  obtain ⟨t, ht⟩ := hostRequest_eq (firstLine text)
  by_cases hspace : 32 ∈ firstLine text
  · obtain ⟨method, tail, hline, hmspace⟩ := List.eq_append_cons_of_mem hspace
    by_cases hspace' : 32 ∈ tail
    · obtain ⟨url, version, rfl, huspace⟩ := List.eq_append_cons_of_mem hspace'
      exact ⟨method, url, version, hline, hmspace, huspace⟩
    · have htext : hostRequest (firstLine text) =
          method ++ 32 :: ((tail ++ 13 :: 10 :: lit "Host:") ++ 32 :: t) := by
        rw [ht, hline]
        simp only [List.append_assoc, List.cons_append]
      rw [htext, parseUrl_append hmspace (not_mem_space_tail hspace')] at hu
      rw [← hu] at hurl
      exact absurd (List.mem_append_right _ List.mem_cons_self) hurl.1
  · have htext : hostRequest (firstLine text) =
        (firstLine text ++ 13 :: 10 :: lit "Host:") ++ 32 :: t := by
      rw [ht]
      simp only [List.append_assoc, List.cons_append]
    rw [htext, parseMethod_append (not_mem_space_tail hspace)] at hm
    rw [← hm] at hmethod
    exact absurd (List.mem_append_right _ List.mem_cons_self) hmethod.1

/-- **What the route depends on.**  For every framed request: the method and the URL are the same
in every framed request with the same request line, and have no line end in them, if and only if
the request line has its two spaces and no carriage return or line feed before the second. -/
theorem routedByLine_iff {headers text : Bytes} (h : FramedRequest headers text) :
    RoutedByLine text ↔ HasParts (firstLine text) := by
  constructor
  · intro hrouted
    obtain ⟨method, url, version, hline, hmspace, huspace⟩ := hrouted.two_spaces h
    obtain ⟨hpm, hpu⟩ := h.parse_eq hline hmspace huspace
    obtain ⟨-, hmethod, hurl⟩ := hrouted
    rw [hpm] at hmethod
    rw [hpu] at hurl
    exact ⟨method, url, version, hline,
      fun b hb ↦ ⟨fun e ↦ hmspace (e ▸ hb), fun e ↦ hmethod.1 (e ▸ hb), fun e ↦ hmethod.2 (e ▸ hb)⟩,
      fun b hb ↦ ⟨fun e ↦ huspace (e ▸ hb), fun e ↦ hurl.1 (e ▸ hb), fun e ↦ hurl.2 (e ▸ hb)⟩⟩
  · rintro ⟨method, url, version, hline, hm, hu⟩
    have hmspace : 32 ∉ method := fun hin ↦ (hm 32 hin).1 rfl
    have huspace : 32 ∉ url := fun hin ↦ (hu 32 hin).1 rfl
    obtain ⟨hpm, hpu⟩ := h.parse_eq hline hmspace huspace
    refine ⟨fun headers' text' h' hline' ↦ ?_, ?_, ?_⟩
    · obtain ⟨hpm', hpu'⟩ := h'.parse_eq (hline'.trans hline) hmspace huspace
      exact ⟨hpm'.trans hpm.symm, hpu'.trans hpu.symm⟩
    · rw [hpm]
      exact ⟨fun hin ↦ (hm 13 hin).2.1 rfl, fun hin ↦ (hm 10 hin).2.2 rfl⟩
    · rw [hpu]
      exact ⟨fun hin ↦ (hu 13 hin).2.1 rfl, fun hin ↦ (hu 10 hin).2.2 rfl⟩

/-- A request for the welcome page. -/
theorem routedByLine_iff_welcome :
    FramedRequest (lit "GET / HTTP/1.1") (lit "GET / HTTP/1.1\r\n\r\n") ∧
      RoutedByLine (lit "GET / HTTP/1.1\r\n\r\n") := by
  have h : FramedRequest (lit "GET / HTTP/1.1") (lit "GET / HTTP/1.1\r\n\r\n") :=
    framedRequest_iff.mpr ⟨[], by decide, by decide, by decide, by decide⟩
  exact ⟨h, (routedByLine_iff h).mpr
    ⟨lit "GET", lit "/", lit "HTTP/1.1", by decide, by decide +kernel, by decide +kernel⟩⟩

/-- Two requests with the request line `GET` and one header each: the name of the header becomes a
part of the method. -/
theorem not_routed_by_line :
    ¬ ∀ headers text headers' text', FramedRequest headers text → FramedRequest headers' text' →
      firstLine text = firstLine text' →
      (parseMethod text = parseMethod text' ∧ parseUrl text = parseUrl text') ∧
        OnOneLine (parseMethod text) ∧ OnOneLine (parseUrl text) := by
  intro hall
  have h : FramedRequest (lit "GET\r\nHost: a") (lit "GET\r\nHost: a\r\n\r\n") :=
    framedRequest_iff.mpr ⟨[], by decide, by decide, by decide, by decide⟩
  have h' : FramedRequest (lit "GET\r\nAccept: b") (lit "GET\r\nAccept: b\r\n\r\n") :=
    framedRequest_iff.mpr ⟨[], by decide, by decide, by decide, by decide⟩
  have hmethod := (hall _ _ _ _ h h' (by decide)).1.1
  exact absurd hmethod (by decide)

end ReactorServer
