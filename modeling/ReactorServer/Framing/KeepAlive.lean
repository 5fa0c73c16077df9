import ReactorServer.Framing.Routing

/-!
# Keep-alive negotiation

The rule is stated in `Connection.cpp` itself: `HTTP/1.1` persists unless the `Connection` header
says `close`, `HTTP/1.0` closes unless it says `keep-alive`.  `keepAliveRule` is the rule, as a
function of the request line and of the `Connection` header and of nothing else.

`wantKeepAlive` searches for the three words instead of reading the options and the version.  It
finds `close` in `disclosed`, and `HTTP/1.1` in a URL, in another header or in the body.  It also
takes the request line for a header when it has a colon in the right place.  `Misread` lists the
requests where that matters, and `wantKeepAlive_eq_iff` says that the list is complete.
-/

set_option autoImplicit false

namespace ReactorServer

open Search

/-! ## The rule -/

/-- A text without the blanks around it. -/
def trimBlanks (s : Bytes) : Bytes := (s.dropWhile isBlank).rdropWhile isBlank

/-- The options of a `Connection` value: separated by commas, in any letter case. -/
def connectionOptions (value : Bytes) : List Bytes :=
  ((value.map tolower).splitOn 44).map trimBlanks

/-- The value of the first `Connection` header.  The request line is not a header. -/
def connectionHeader (headers : Bytes) : Bytes :=
  ((splitLines headers).tail.findSome? (lineValue (lit "connection"))).getD []

/-- **The rule**, by the request line and the value of the `Connection` header. -/
def keepAliveRule (line connection : Bytes) : Bool :=
  if (connectionOptions connection).contains (lit "close") then false
  else if (connectionOptions connection).contains (lit "keep-alive") then true
  else (lit "HTTP/1.1").isSuffixOf line

/-- The request line ends in one of the two versions the rule knows. -/
def EndsInVersion (line : Bytes) : Prop := lit "HTTP/1.0" <:+ line ∨ lit "HTTP/1.1" <:+ line

instance (line : Bytes) : Decidable (EndsInVersion line) :=
  inferInstanceAs (Decidable (lit "HTTP/1.0" <:+ line ∨ lit "HTTP/1.1" <:+ line))

theorem keepAliveRule_iff {line connection : Bytes} : keepAliveRule line connection = true ↔
    lit "close" ∉ connectionOptions connection ∧
      (lit "keep-alive" ∈ connectionOptions connection ∨ lit "HTTP/1.1" <:+ line) := by
  simp only [keepAliveRule, List.contains_iff_mem]
  split_ifs with hclose hkeep
  · simp [hclose]
  · simp [hclose, hkeep]
  · simp [hclose, hkeep, List.isSuffixOf_iff_suffix]

/-! ## What the code does -/

/-- The text that is searched for the options. -/
def searchedValue (headers : Bytes) : Bytes := (findHeader headers (lit "connection")).map tolower

theorem wantKeepAlive_iff {text headers : Bytes} : wantKeepAlive text headers = true ↔
    ¬ lit "close" <:+: searchedValue headers ∧
      (lit "keep-alive" <:+: searchedValue headers ∨ lit "HTTP/1.1" <:+: text) := by
  rw [← occurs_iff, ← occurs_iff, ← occurs_iff, wantKeepAlive, searchedValue]
  split_ifs with hclose hkeep
  · simp [hclose]
  · simp [hclose, hkeep]
  · simp [hclose, hkeep]

/-- The searched text is the value of the header, unless the request line is taken for one. -/
theorem findHeader_connection_eq {headers : Bytes}
    (h : ¬ IsField (lit "connection") (firstLine headers)) :
    findHeader headers (lit "connection") = connectionHeader headers := by
  rw [firstLine] at h
  rw [findHeader_eq, connectionHeader]
  cases hlines : splitLines headers with
  | nil => rfl
  | cons line lines =>
    rw [hlines, List.headD_cons] at h
    rw [List.findSome?_cons, lineValue_eq_none h, List.tail_cons]

theorem infix_intercalate (sep : Bytes) {s : Bytes} {ss : List Bytes} (h : s ∈ ss) :
    s <:+: sep.intercalate ss := by
  induction ss with
  | nil => exact absurd h List.not_mem_nil
  | cons t ss ih =>
    cases ss with
    | nil =>
      obtain rfl := List.mem_singleton.mp h
      rw [List.intercalate_singleton]
    | cons u ss =>
      rw [List.intercalate_cons_cons]
      rcases List.mem_cons.mp h with rfl | hrest
      · exact ⟨[], _, by rw [List.nil_append, List.append_assoc]⟩
      · exact (ih hrest).trans (List.suffix_append _ _).isInfix

/-- An option is a part of the value. -/
theorem infix_of_mem_connectionOptions {option value : Bytes}
    (h : option ∈ connectionOptions value) : option <:+: value.map tolower := by
  obtain ⟨piece, hpiece, rfl⟩ := List.mem_map.mp h
  have htrim : trimBlanks piece <:+: piece :=
    (List.rdropWhile_prefix _ _).isInfix.trans (List.dropWhile_suffix _).isInfix
  have hin := infix_intercalate [44] hpiece
  rw [List.intercalate_splitOn] at hin
  exact htrim.trans hin

/-! ## Where they differ -/

/-- The requests that are misread. -/
inductive Misread (headers text : Bytes) : Prop
  /-- `close` is found in something that is not that option, and it should have been kept alive. -/
  | strayClose (found : lit "close" <:+: searchedValue headers)
      (notOption : lit "close" ∉ connectionOptions (connectionHeader headers))
      (kept : lit "keep-alive" ∈ connectionOptions (connectionHeader headers) ∨
        lit "HTTP/1.1" <:+ firstLine text)
  /-- `keep-alive` is found in something that is not that option, in a request that does not
  persist by its version. -/
  | strayKeepAlive (notFound : ¬ lit "close" <:+: searchedValue headers)
      (notClose : lit "close" ∉ connectionOptions (connectionHeader headers))
      (found : lit "keep-alive" <:+: searchedValue headers)
      (notOption : lit "keep-alive" ∉ connectionOptions (connectionHeader headers))
      (old : ¬ lit "HTTP/1.1" <:+ firstLine text)
  /-- The version decides, and `HTTP/1.1` is found, but not at the end of the request line. -/
  | strayVersion (notFound : ¬ lit "close" <:+: searchedValue headers)
      (notClose : lit "close" ∉ connectionOptions (connectionHeader headers))
      (notFound' : ¬ lit "keep-alive" <:+: searchedValue headers)
      (notKeepAlive : lit "keep-alive" ∉ connectionOptions (connectionHeader headers))
      (found : lit "HTTP/1.1" <:+: text) (old : ¬ lit "HTTP/1.1" <:+ firstLine text)
  /-- The request line is searched in place of the header, which says `close`. -/
  | hiddenClose (line : IsField (lit "connection") (firstLine text))
      (notFound : ¬ lit "close" <:+: searchedValue headers)
      (option : lit "close" ∈ connectionOptions (connectionHeader headers))
      (kept : lit "keep-alive" <:+: searchedValue headers ∨ lit "HTTP/1.1" <:+: text)
  /-- The request line is searched in place of the header, which says `keep-alive`. -/
  | hiddenKeepAlive (line : IsField (lit "connection") (firstLine text))
      (notFound : ¬ lit "close" <:+: searchedValue headers)
      (notClose : lit "close" ∉ connectionOptions (connectionHeader headers))
      (notFound' : ¬ lit "keep-alive" <:+: searchedValue headers)
      (option : lit "keep-alive" ∈ connectionOptions (connectionHeader headers))
      (old : ¬ lit "HTTP/1.1" <:+: text)

/-- An option that is not found is one the request line hides. -/
theorem FramedRequest.isField_of_hidden {headers text option : Bytes}
    (h : FramedRequest headers text)
    (hoption : option ∈ connectionOptions (connectionHeader headers))
    (hnot : ¬ option <:+: searchedValue headers) :
    IsField (lit "connection") (firstLine text) := by
  by_contra hline
  rw [h.firstLine_eq] at hline
  rw [searchedValue, findHeader_connection_eq hline] at hnot
  exact hnot (infix_of_mem_connectionOptions hoption)

theorem FramedRequest.version_infix {headers text : Bytes} (h : FramedRequest headers text)
    (hversion : lit "HTTP/1.1" <:+ firstLine text) : lit "HTTP/1.1" <:+: text := by
  obtain ⟨t, ht⟩ := h.eq_append
  rw [ht]
  exact hversion.isInfix.trans (List.prefix_append _ _).isInfix

/-- **Keep-alive negotiation follows its rule** in every framed request, whatever its request line
ends in, but for those that are misread. -/
theorem wantKeepAlive_eq_iff {headers text : Bytes} (h : FramedRequest headers text) :
    wantKeepAlive text headers = keepAliveRule (firstLine text) (connectionHeader headers) ↔
      ¬ Misread headers text := by
  rw [Bool.eq_iff_iff, wantKeepAlive_iff, keepAliveRule_iff]
  constructor
  · rintro hiff (⟨found, notOption, kept⟩ | ⟨notFound, notClose, found, notOption, old⟩ |
      ⟨notFound, notClose, notFound', notKeepAlive, found, old⟩ | ⟨-, notFound, option, kept⟩ |
      ⟨-, notFound, notClose, notFound', option, old⟩)
    · exact (hiff.mpr ⟨notOption, kept⟩).1 found
    · rcases (hiff.mp ⟨notFound, .inl found⟩).2 with hkeep | hnew
      · exact notOption hkeep
      · exact old hnew
    · rcases (hiff.mp ⟨notFound, .inr found⟩).2 with hkeep | hnew
      · exact notKeepAlive hkeep
      · exact old hnew
    · exact (hiff.mp ⟨notFound, kept⟩).1 option
    · rcases (hiff.mpr ⟨notClose, .inl option⟩).2 with hkeep | hnew
      · exact notFound' hkeep
      · exact old hnew
  · intro hno
    constructor
    · rintro ⟨notFound, kept⟩
      have notClose : lit "close" ∉ connectionOptions (connectionHeader headers) :=
        fun option ↦ hno (.hiddenClose (h.isField_of_hidden option notFound) notFound option kept)
      refine ⟨notClose, ?_⟩
      by_contra hneither
      rw [not_or] at hneither
      obtain ⟨notKeepAlive, old⟩ := hneither
      by_cases found : lit "keep-alive" <:+: searchedValue headers
      · exact hno (.strayKeepAlive notFound notClose found notKeepAlive old)
      · exact hno (.strayVersion notFound notClose found notKeepAlive (kept.resolve_left found) old)
    · rintro ⟨notClose, kept⟩
      have notFound : ¬ lit "close" <:+: searchedValue headers :=
        fun found ↦ hno (.strayClose found notClose kept)
      refine ⟨notFound, ?_⟩
      by_contra hneither
      rw [not_or] at hneither
      obtain ⟨notFound', old⟩ := hneither
      rcases kept with option | hversion
      · exact hno (.hiddenKeepAlive (h.isField_of_hidden option notFound') notFound notClose
          notFound' option old)
      · exact old (h.version_infix hversion)

/-- A request with two options, one of them `close`. -/
theorem wantKeepAlive_eq_iff_upgrade :
    FramedRequest (lit "GET / HTTP/1.1\r\nConnection: Upgrade, Close")
        (lit "GET / HTTP/1.1\r\nConnection: Upgrade, Close\r\n\r\n") ∧
      wantKeepAlive (lit "GET / HTTP/1.1\r\nConnection: Upgrade, Close\r\n\r\n")
          (lit "GET / HTTP/1.1\r\nConnection: Upgrade, Close") =
        keepAliveRule (firstLine (lit "GET / HTTP/1.1\r\nConnection: Upgrade, Close\r\n\r\n"))
          (connectionHeader (lit "GET / HTTP/1.1\r\nConnection: Upgrade, Close")) := by
  have h : FramedRequest (lit "GET / HTTP/1.1\r\nConnection: Upgrade, Close")
      (lit "GET / HTTP/1.1\r\nConnection: Upgrade, Close\r\n\r\n") :=
    framedRequest_iff.mpr ⟨[], by decide, by decide, by decide, by decide⟩
  have hfound : lit "close" <:+: searchedValue (lit "GET / HTTP/1.1\r\nConnection: Upgrade, Close") :=
    occurs_iff.mp (by decide)
  refine ⟨h, (wantKeepAlive_eq_iff h).mpr ?_⟩
  rintro (⟨-, notOption, -⟩ | ⟨notFound⟩ | ⟨notFound⟩ | ⟨-, notFound⟩ | ⟨-, notFound⟩)
  · exact notOption (by decide)
  all_goals exact notFound hfound

/-- A version 1.0 request for the URL `/HTTP/1.1` is kept alive. -/
theorem keepAlive_misread :
    ¬ ∀ headers text, FramedRequest headers text → EndsInVersion (firstLine text) →
      wantKeepAlive text headers = keepAliveRule (firstLine text) (connectionHeader headers) := by
  intro hall
  have h : FramedRequest (lit "GET /HTTP/1.1 HTTP/1.0") (lit "GET /HTTP/1.1 HTTP/1.0\r\n\r\n") :=
    framedRequest_iff.mpr ⟨[], by decide, by decide, by decide, by decide⟩
  exact absurd (hall _ _ h (by decide)) (by decide)

end ReactorServer
