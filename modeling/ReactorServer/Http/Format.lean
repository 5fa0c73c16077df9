import ReactorServer.Http.Lines

/-!
# Well-formed requests

`HttpRequest` is a request the way a client means it: a method, a URL, header lines and a body,
with the conditions that make its text unambiguous as fields.  `HttpRequest.serialise` is the text.

Five scanners of the server look at that text, each on its own: the search for the blank line, the
lookup of a header, `strtol`, the search for spaces, and the cut after the blank line.  Here they
are shown to agree on what the parts are, whatever bytes the body holds.
-/

set_option autoImplicit false

namespace ReactorServer

open Search

/-! ## Header lines -/

/-- A header line with this name: the name in any letter case, blanks, a colon, and a value. -/
def IsField (lowerName line : Bytes) : Prop :=
  ∃ name blanks value, line = name ++ blanks ++ 58 :: value ∧ name.map tolower = lowerName ∧
    ∀ b ∈ blanks, isBlank b = true

/-- A quick way to see that a line is not one with the given name. -/
theorem not_isField_of_map {lowerName line : Bytes}
    (h : ¬ lowerName <+: line.map tolower) : ¬ IsField lowerName line := by
  rintro ⟨name, blanks, value, rfl, hname, -⟩
  refine h ?_
  rw [List.map_append, List.map_append, hname, List.append_assoc]
  exact List.prefix_append _ _

/-- A `Content-Length` line that states `n`: blanks may precede the colon and the digits. -/
def StatesLength (n : ℕ) (line : Bytes) : Prop :=
  ∃ name blanks blanks' digits, line = name ++ blanks ++ 58 :: (blanks' ++ digits) ∧
    name.map tolower = lit "content-length" ∧ (∀ b ∈ blanks, isBlank b = true) ∧
    (∀ b ∈ blanks', isBlank b = true) ∧ digits ≠ [] ∧ (∀ b ∈ digits, isdigit b = true) ∧
    digitsVal digits = n

theorem isBlank_tolower (b : UInt8) : isBlank (tolower b) = isBlank b := by
  grind [isBlank, tolower]

theorem isspace_of_isBlank {b : UInt8} (h : isBlank b = true) : isspace b = true := by
  grind [isBlank, isspace]

theorem isspace_of_isdigit {b : UInt8} (h : isdigit b = true) : isspace b = false := by
  grind [isdigit, isspace]

/-- A digit is not a sign. -/
theorem splitSign_of_isdigit {d : UInt8} (ds : Bytes) (h : isdigit d = true) :
    splitSign (d :: ds) = (false, d :: ds) := by
  rw [splitSign]
  · rintro s ⟨⟩
    exact absurd h (by decide)
  · rintro s ⟨⟩
    exact absurd h (by decide)

theorem rdropWhile_append_of_forall {p : UInt8 → Bool} (a : Bytes) {b : Bytes}
    (h : ∀ x ∈ b, p x = true) : (a ++ b).rdropWhile p = a.rdropWhile p := by
  induction b using List.reverseRecOn with
  | nil => rw [List.append_nil]
  | append_singleton b x ih =>
    rw [← List.append_assoc, List.rdropWhile_concat_pos _ _ _ (h x (by simp))]
    exact ih fun y hy ↦ h y (List.mem_append_left _ hy)

/-- What `findHeader` takes for a line with the given name is one, with the value it returns. -/
theorem eq_of_lineValue {lowerName line value : Bytes} (h : lineValue lowerName line = some value) :
    ∃ name blanks, line = name ++ blanks ++ 58 :: value ∧ name.map tolower = lowerName ∧
      ∀ b ∈ blanks, isBlank b = true := by
  rw [lineValue] at h
  split at h
  · exact absurd h (by simp)
  · rename_i colon hcolon
    split at h
    · rename_i hname
      have hfirst := indexOf_eq_some_iff.mp hcolon
      have hline : line = line.take colon ++ 58 :: line.drop (colon + 1) := by
        obtain ⟨t, ht⟩ := hfirst.here
        have hdrop : line.drop (colon + 1) = t := by
          rw [← List.drop_drop, ← ht]; rfl
        rw [hdrop, ← List.singleton_append, ht, List.take_append_drop]
      rw [Option.some_inj.mp h] at hline
      -- the name proper is as long as the name looked for, and blanks follow it
      generalize line.take colon = name at hname hline
      have hsplit : name.map tolower =
          lowerName ++ (name.map tolower).rtakeWhile isBlank := by
        rw [← hname, fieldName, List.rdropWhile_append_rtakeWhile]
      obtain ⟨core, blanks, rfl, hcore, hblanks⟩ := List.map_eq_append_iff.mp hsplit
      refine ⟨core, blanks, hline, hcore, fun b hb ↦ ?_⟩
      rw [← isBlank_tolower]
      refine List.mem_rtakeWhile_imp (l := (core ++ blanks).map tolower) ?_
      rw [← hblanks]
      exact List.mem_map_of_mem hb
    · exact absurd h (by simp)

theorem isField_of_lineValue {lowerName line value : Bytes}
    (h : lineValue lowerName line = some value) : IsField lowerName line := by
  obtain ⟨name, blanks, hline, hname, hblanks⟩ := eq_of_lineValue h
  exact ⟨name, blanks, value, hline, hname, hblanks⟩

theorem lineValue_eq_none {lowerName line : Bytes} (h : ¬ IsField lowerName line) :
    lineValue lowerName line = none := by
  cases hv : lineValue lowerName line with
  | none => rfl
  | some value => exact absurd (isField_of_lineValue hv) h

theorem not_mem_of_map_tolower {c : UInt8} (hc : tolower c = c) {name lowerName : Bytes}
    (h : name.map tolower = lowerName) (hmem : c ∉ lowerName) : c ∉ name := by
  rintro hin
  rw [← h, List.mem_map] at hmem
  exact hmem ⟨c, hin, hc⟩

/-- The value of a line with the name that is looked for, which has no colon and no trailing blank
of its own. -/
theorem lineValue_field {lowerName name blanks value : Bytes} (hno : 58 ∉ lowerName)
    (htrim : lowerName.rdropWhile isBlank = lowerName) (hname : name.map tolower = lowerName)
    (hblanks : ∀ b ∈ blanks, isBlank b = true) :
    lineValue lowerName (name ++ blanks ++ 58 :: value) = some value := by
  have hcolon : 58 ∉ name ++ blanks := by
    rw [List.mem_append]
    rintro (h | h)
    · exact not_mem_of_map_tolower (by decide) hname hno h
    · exact absurd (hblanks 58 h) (by decide)
  have hfield : fieldName (name ++ blanks) = lowerName := by
    rw [fieldName, List.map_append, hname, rdropWhile_append_of_forall, htrim]
    intro x hx
    obtain ⟨b, hb, rfl⟩ := List.mem_map.mp hx
    rw [isBlank_tolower]
    exact hblanks b hb
  rw [lineValue, indexOf_singleton_append _ hcolon]
  dsimp only
  rw [List.take_left, if_pos hfield, ← List.drop_drop, List.drop_left]
  rfl

/-- The lookup finds a value in a line exactly when the line has the name. -/
theorem lineValue_eq_none_iff {lowerName line : Bytes} (hno : 58 ∉ lowerName)
    (htrim : lowerName.rdropWhile isBlank = lowerName) :
    lineValue lowerName line = none ↔ ¬ IsField lowerName line := by
  refine ⟨fun h ↦ ?_, lineValue_eq_none⟩
  rintro ⟨name, blanks, value, rfl, hname, hblanks⟩
  rw [lineValue_field hno htrim hname hblanks] at h
  exact absurd h nofun

theorem lineValue_content_length {name blanks value : Bytes}
    (hname : name.map tolower = lit "content-length") (hblanks : ∀ b ∈ blanks, isBlank b = true) :
    lineValue (lit "content-length") (name ++ blanks ++ 58 :: value) = some value :=
  lineValue_field (by decide) (by decide) hname hblanks

/-- `strtol` reads back the digits after the blanks. -/
theorem strtol_digits {blanks digits : Bytes} (hblanks : ∀ b ∈ blanks, isBlank b = true)
    (hne : digits ≠ []) (hdigits : ∀ b ∈ digits, isdigit b = true)
    (hmax : (digitsVal digits : ℤ) ≤ longMax) :
    (strtol (blanks ++ digits)).1 = digitsVal digits := by
  obtain ⟨d, ds, rfl⟩ := List.exists_cons_of_ne_nil hne
  have hd : isdigit d = true := hdigits d List.mem_cons_self
  have hspace : (blanks ++ d :: ds).dropWhile isspace = d :: ds := by
    rw [List.dropWhile_append_of_pos fun b hb ↦ isspace_of_isBlank (hblanks b hb)]
    exact List.dropWhile_cons_of_neg (by simp [isspace_of_isdigit hd])
  rw [strtol, hspace, splitSign_of_isdigit ds hd]
  dsimp only
  rw [List.takeWhile_eq_self_iff.mpr hdigits, if_neg hne]
  have hmin : longMin ≤ 0 := by decide
  simp only [Bool.false_eq_true, if_false]
  omega

/-! ## Header blocks -/

/-- A line that can stand in a header block: not empty, and with no line end in it. -/
def IsLine (line : Bytes) : Prop := line ≠ [] ∧ 13 ∉ line ∧ 10 ∉ line

instance (line : Bytes) : Decidable (IsLine line) :=
  inferInstanceAs (Decidable (line ≠ [] ∧ 13 ∉ line ∧ 10 ∉ line))

/-- The text of a header block: its lines, with line ends between them. -/
def joinLines (lines : List Bytes) : Bytes := crlf.intercalate lines

theorem joinLines_cons_cons (line next : Bytes) (lines : List Bytes) :
    joinLines (line :: next :: lines) = line ++ 13 :: 10 :: joinLines (next :: lines) := by
  rw [joinLines, List.intercalate_cons_cons, List.append_assoc]
  rfl

@[simp] theorem joinLines_singleton (line : Bytes) : joinLines [line] = line :=
  List.intercalate_singleton

theorem IsLine.no_break {line : Bytes} (h : IsLine line) : ¬ crlf <:+: line :=
  fun hin ↦ h.2.1 (hin.subset List.mem_cons_self)

/-- The lines of a block are found again. -/
theorem splitLines_joinLines {lines : List Bytes} (hne : lines ≠ [])
    (h : ∀ line ∈ lines, ¬ crlf <:+: line) : splitLines (joinLines lines) = lines := by
  induction lines with
  | nil => exact absurd rfl hne
  | cons line lines ih =>
    have hno := h line List.mem_cons_self
    cases lines with
    | nil => rw [joinLines_singleton, splitLines_eq, indexOf_eq_none_iff.mpr hno]
    | cons next lines =>
      rw [joinLines_cons_cons, splitLines_append hno,
        ih (List.cons_ne_nil _ _) fun l hl ↦ h l (List.mem_cons_of_mem _ hl)]

/-- **Looking up a header** is looking at the lines one after another. -/
theorem findHeader_joinLines (lowerName : Bytes) {lines : List Bytes}
    (h : ∀ line ∈ lines, ¬ crlf <:+: line) :
    findHeader (joinLines lines) lowerName = (lines.findSome? (lineValue lowerName)).getD [] := by
  by_cases hne : lines = []
  · rw [hne]
    rfl
  · rw [findHeader_eq, splitLines_joinLines hne h]

/-- **The blank line is found where it was put.** -/
theorem indexOf_crlf2_joinLines {lines : List Bytes} (hne : lines ≠ [])
    (h : ∀ line ∈ lines, IsLine line) (rest : Bytes) :
    indexOf crlf2 (joinLines lines ++ (crlf2 ++ rest)) = some (joinLines lines).length := by
  induction lines with
  | nil => exact absurd rfl hne
  | cons line lines ih =>
    obtain ⟨-, hcr, -⟩ := h line List.mem_cons_self
    cases lines with
    | nil =>
      rw [joinLines_singleton, indexOf_crlf2_append _ hcr]
      simp [crlf2, indexOf]
    | cons next lines =>
      have hline := h next (by simp)
      have ih' := ih (by simp) fun l hl ↦ h l (List.mem_cons_of_mem _ hl)
      have hhead : (joinLines (next :: lines) ++ (crlf2 ++ rest)).head? ≠ some 13 := by
        obtain ⟨b, bs, rfl⟩ := List.exists_cons_of_ne_nil hline.1
        intro hb
        have hb' : b = 13 := by
          cases lines with
          | nil => simpa using hb
          | cons _ _ => simpa [joinLines_cons_cons] using hb
        exact hline.2.1 (hb' ▸ List.mem_cons_self)
      rw [joinLines_cons_cons, List.append_assoc, indexOf_crlf2_append _ hcr, List.cons_append,
        List.cons_append, indexOf_crlf2_crlf hhead, ih']
      simp only [Option.map_some, List.length_append, List.length_cons]
      congr 1
      omega

/-! ## Requests -/

theorem parseMethod_append {method : Bytes} (h : 32 ∉ method) (t : Bytes) :
    parseMethod (method ++ 32 :: t) = method := by
  rw [parseMethod, indexOf_singleton_append _ h]
  exact List.take_left

theorem parseUrl_append {method url : Bytes} (h : 32 ∉ method) (h' : 32 ∉ url) (t : Bytes) :
    parseUrl (method ++ 32 :: (url ++ 32 :: t)) = url := by
  have hdrop : (method ++ 32 :: (url ++ 32 :: t)).drop (method.length + 1) = url ++ 32 :: t := by
    rw [← List.drop_drop, List.drop_left]
    rfl
  rw [parseUrl, indexOf_singleton_append _ h]
  dsimp only
  rw [hdrop, indexOf_singleton_append _ h']
  exact List.take_left

/-- The request line. -/
def requestLine (method url : Bytes) : Bytes := method ++ 32 :: (url ++ 32 :: lit "HTTP/1.1")

/-- A well-formed keep-alive request: what a client means to send. -/
structure HttpRequest where
  method : Bytes
  url : Bytes
  lines : List Bytes
  body : Bytes
  method_ne : method ≠ []
  method_ok : ∀ b ∈ method, b ≠ 32 ∧ b ≠ 58 ∧ b ≠ 13 ∧ b ≠ 10
  url_slash : url.head? = some 47
  url_ok : ∀ b ∈ url, b ≠ 32 ∧ b ≠ 13 ∧ b ≠ 10
  lines_ok : ∀ line ∈ lines, IsLine line
  /-- The only `Content-Length` line states the length of the body; an empty body can do without. -/
  length_ok :
    (∃ before line after, lines = before ++ line :: after ∧ StatesLength body.length line ∧
        ∀ l ∈ before ++ after, ¬ IsField (lit "content-length") l) ∨
      body = [] ∧ ∀ l ∈ lines, ¬ IsField (lit "content-length") l
  body_le : body.length ≤ kMaxBodyBytes
  no_connection : ∀ l ∈ lines, ¬ IsField (lit "connection") l
  head_le : (joinLines (requestLine method url :: lines)).length ≤ kMaxHeaderBytes - 3

namespace HttpRequest

variable (r : HttpRequest)

/-- The header block. -/
def head : Bytes := joinLines (requestLine r.method r.url :: r.lines)

/-- The text of a request. -/
def serialise : Bytes := r.head ++ (crlf2 ++ r.body)

theorem isLine_requestLine : IsLine (requestLine r.method r.url) := by
  have key : ∀ b, b = 13 ∨ b = 10 → b ∉ requestLine r.method r.url := by
    rintro b hb hmem
    simp only [requestLine, List.mem_append, List.mem_cons] at hmem
    rcases hmem with h | h | h | h | h
    · have := r.method_ok b h; tauto
    · rcases hb with rfl | rfl <;> exact absurd h (by decide)
    · have := r.url_ok b h; tauto
    · rcases hb with rfl | rfl <;> exact absurd h (by decide)
    · rcases hb with rfl | rfl <;> exact absurd h (by decide)
  exact ⟨by simp [requestLine], key 13 (.inl rfl), key 10 (.inr rfl)⟩

theorem isLine_of_mem {line : Bytes} (h : line ∈ requestLine r.method r.url :: r.lines) :
    IsLine line := by
  rcases List.mem_cons.mp h with rfl | h
  · exact r.isLine_requestLine
  · exact r.lines_ok line h

/-- The request line is not taken for a header, whatever the URL: a colon comes after its slash. -/
theorem not_isField_requestLine {lowerName : Bytes} (hslash : 47 ∉ lowerName) :
    ¬ IsField lowerName (requestLine r.method r.url) := by
  rintro ⟨name, blanks, value, hline, hname, hblanks⟩
  obtain ⟨path, hpath⟩ : ∃ path, r.url = 47 :: path := by
    have h := r.url_slash
    cases hu : r.url with
    | nil => rw [hu] at h; exact absurd h (by simp)
    | cons b path => rw [hu, List.head?_cons, Option.some_inj] at h; exact ⟨path, by rw [h]⟩
  have hnot : 47 ∉ name ++ blanks := by
    rw [List.mem_append]
    rintro (h | h)
    · exact not_mem_of_map_tolower (by decide) hname hslash h
    · exact absurd (hblanks 47 h) (by decide)
  have hcolon : 58 ∉ r.method ++ [32, 47] := by
    rw [List.mem_append]
    rintro (h | h)
    · exact (r.method_ok 58 h).2.1 rfl
    · exact absurd h (by decide)
  have heq : (r.method ++ [32, 47]) ++ (path ++ 32 :: lit "HTTP/1.1") =
      (name ++ blanks) ++ 58 :: value := by
    rw [← hline, requestLine, hpath]
    simp
  rcases List.append_eq_append_iff.mp heq with ⟨t, ht, -⟩ | ⟨t, ht, hrest⟩
  · exact hnot (ht ▸ by simp)
  · cases t with
    | nil => exact hnot (by rw [List.append_nil] at ht; rw [← ht]; simp)
    | cons b t =>
      obtain ⟨rfl, -⟩ := List.cons_eq_cons.mp hrest
      exact hcolon (ht ▸ by simp)

theorem findHeader_connection : findHeader r.head (lit "connection") = [] := by
  rw [head, findHeader_joinLines _ fun _ h ↦ (r.isLine_of_mem h).no_break]
  have hnone : (requestLine r.method r.url :: r.lines).findSome?
      (lineValue (lit "connection")) = none := by
    rw [List.findSome?_eq_none_iff]
    intro line hline
    refine lineValue_eq_none ?_
    rcases List.mem_cons.mp hline with rfl | hline
    · exact r.not_isField_requestLine (by decide)
    · exact r.no_connection line hline
  rw [hnone]
  rfl

/-- **The header block says how long the body is.** -/
theorem requestContentLength_head : requestContentLength r.head = r.body.length := by
  have hrequest : lineValue (lit "content-length") (requestLine r.method r.url) = none :=
    lineValue_eq_none (r.not_isField_requestLine (by decide))
  have hfind : findHeader r.head (lit "content-length") =
      (r.lines.findSome? (lineValue (lit "content-length"))).getD [] := by
    rw [head, findHeader_joinLines _ fun _ h ↦ (r.isLine_of_mem h).no_break,
      List.findSome?_cons, hrequest]
  rw [requestContentLength, hfind]
  rcases r.length_ok with ⟨before, line, after, hlines, hstates, hothers⟩ | ⟨hbody, hnone⟩
  · obtain ⟨name, blanks, blanks', digits, rfl, hname, hblanks, hblanks', hne, hdigits, hval⟩ :=
      hstates
    have hbefore : before.findSome? (lineValue (lit "content-length")) = none := by
      rw [List.findSome?_eq_none_iff]
      exact fun l hl ↦ lineValue_eq_none (hothers l (List.mem_append_left _ hl))
    have hmax : (digitsVal digits : ℤ) ≤ longMax := by
      have hle := r.body_le
      have hb : (kMaxBodyBytes : ℤ) ≤ longMax := by decide
      omega
    rw [hlines, List.findSome?_append, hbefore, Option.none_or, List.findSome?_cons,
      lineValue_content_length hname hblanks, Option.getD_some,
      strtol_digits hblanks' hne hdigits hmax, if_neg (by simp [hne]), hval]
    rfl
  · have hfound : r.lines.findSome? (lineValue (lit "content-length")) = none := by
      rw [List.findSome?_eq_none_iff]
      exact fun l hl ↦ lineValue_eq_none (hnone l hl)
    rw [hfound, hbody]
    rfl

theorem indexOf_crlf2_serialise (rest : Bytes) :
    indexOf crlf2 (r.serialise ++ rest) = some r.head.length := by
  rw [serialise, List.append_assoc, List.append_assoc]
  exact indexOf_crlf2_joinLines (by simp) (fun _ ↦ r.isLine_of_mem) _

/-- The text begins with the request line. -/
theorem serialise_eq : ∃ tail, r.serialise = r.method ++ 32 :: (r.url ++ 32 :: tail) ∧
    lit "HTTP/1.1" <+: tail := by
  obtain ⟨t, ht⟩ : requestLine r.method r.url <+: r.head := by
    rw [head]
    cases r.lines with
    | nil => rw [joinLines_singleton]
    | cons next lines => rw [joinLines_cons_cons]; exact List.prefix_append _ _
  refine ⟨lit "HTTP/1.1" ++ (t ++ (crlf2 ++ r.body)), ?_, List.prefix_append _ _⟩
  rw [serialise, ← ht, requestLine]
  simp

/-- **A well-formed request is kept alive.** -/
theorem wantKeepAlive_serialise : wantKeepAlive r.serialise r.head = true := by
  have hversion : occurs (lit "HTTP/1.1") r.serialise = true := by
    obtain ⟨tail, he, hpre⟩ := r.serialise_eq
    rw [occurs_iff, he]
    refine hpre.isInfix.trans ⟨r.method ++ 32 :: (r.url ++ [32]), [], ?_⟩
    simp
  rw [wantKeepAlive, r.findHeader_connection]
  exact hversion

theorem parseMethod_serialise : parseMethod r.serialise = r.method := by
  obtain ⟨tail, he, -⟩ := r.serialise_eq
  rw [he]
  exact parseMethod_append (fun h ↦ (r.method_ok 32 h).1 rfl) _

theorem parseUrl_serialise : parseUrl r.serialise = r.url := by
  obtain ⟨tail, he, -⟩ := r.serialise_eq
  rw [he]
  exact parseUrl_append (fun h ↦ (r.method_ok 32 h).1 rfl) (fun h ↦ (r.url_ok 32 h).1 rfl) _

theorem parseBody_serialise : parseBody r.serialise = r.body := by
  have hblank := r.indexOf_crlf2_serialise []
  rw [List.append_nil] at hblank
  rw [parseBody, hblank]
  dsimp only
  rw [serialise, ← List.drop_drop, List.drop_left]
  rfl

end HttpRequest

end ReactorServer
