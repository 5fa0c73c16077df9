import ReactorServer.Http.Format

/-!
# The bearer token

`parseBearerToken` trims the blanks in front of the word `bearer` and behind the token, but between
the two it takes off exactly one space.  `parseBearerToken_eq_iff` says when a text is returned: the
first `Authorization` line of the header section has it behind that space.

So a token is read as it was meant when one space separates it from the word, and comes back with a
blank in front when there are more of them.  `bearer_token_iff` puts the two together.
-/

set_option autoImplicit false

namespace ReactorServer

open Search

/-! ## Header section and token -/

/-- The header section of a request, the whole text if there is no blank line. -/
def headerSection (request : Bytes) : Bytes :=
  match indexOf crlf2 request with
  | none => request
  | some headerEnd => request.take headerEnd

/-- What `parseBearerToken` makes of the value of the header. -/
def bearerToken (value : Bytes) : Bytes :=
  if (value.dropWhile isBlank).length < 7 then []
  else if ((value.dropWhile isBlank).take 7).map tolower ≠ lit "bearer " then []
  else if (((value.dropWhile isBlank).drop 7).rdropWhile isBlank).length > kTokenLen * 2 then []
  else ((value.dropWhile isBlank).drop 7).rdropWhile isBlank

theorem parseBearerToken_eq (request : Bytes) :
    parseBearerToken request =
      bearerToken (findHeader (headerSection request) (lit "authorization")) := rfl

/-- The value of a header with a bearer token: blanks, the word in any letter case, spaces, and the
token, with blanks behind it. -/
def BearerValue (spaces : ℕ) (token value : Bytes) : Prop :=
  ∃ blanks scheme blanks', value = blanks ++ (scheme ++ (List.replicate spaces 32 ++
      (token ++ blanks'))) ∧ (∀ b ∈ blanks, isBlank b = true) ∧ scheme.map tolower = lit "bearer" ∧
    ∀ b ∈ blanks', isBlank b = true

/-- An `Authorization` line with a bearer token. -/
def BearerLine (spaces : ℕ) (token line : Bytes) : Prop :=
  ∃ name blanks value, line = name ++ blanks ++ 58 :: value ∧
    name.map tolower = lit "authorization" ∧ (∀ b ∈ blanks, isBlank b = true) ∧
    BearerValue spaces token value

/-- A text that is not cut any further: it is not too long, and no blank is at its end. -/
def Trimmed (t : Bytes) : Prop := t.length ≤ kTokenLen * 2 ∧ t.rdropWhile isBlank = t

/-! ## The value of the header -/

theorem eq_space_of_tolower {b : UInt8} (h : tolower b = 32) : b = 32 := by
  grind [tolower]

/-- The word is not blank, so trimming stops in front of it. -/
theorem dropWhile_scheme {scheme : Bytes} (h : scheme.map tolower = lit "bearer") (t : Bytes) :
    (scheme ++ t).dropWhile isBlank = scheme ++ t := by
  obtain ⟨c, cs, rfl, hc, -⟩ := List.map_eq_cons_iff.mp h
  refine List.dropWhile_cons_of_neg ?_
  rw [← isBlank_tolower, hc]
  decide

/-- What is left of the value without the blanks in front. -/
theorem BearerValue.dropWhile_eq {spaces : ℕ} {token value : Bytes}
    (h : BearerValue spaces token value) :
    ∃ scheme blanks, value.dropWhile isBlank =
        scheme ++ (List.replicate spaces 32 ++ (token ++ blanks)) ∧
      scheme.map tolower = lit "bearer" ∧ scheme.length = 6 ∧ ∀ b ∈ blanks, isBlank b = true := by
  obtain ⟨blanks, scheme, blanks', rfl, hblanks, hscheme, hblanks'⟩ := h
  refine ⟨scheme, blanks', ?_, hscheme, ?_, hblanks'⟩
  · rw [List.dropWhile_append_of_pos hblanks, dropWhile_scheme hscheme]
  · have hlen := congrArg List.length hscheme
    rwa [List.length_map] at hlen

/-- The number of spaces is determined. -/
theorem BearerValue.spaces_eq {spaces spaces' : ℕ} {token value : Bytes}
    (htrim : token.rdropWhile isBlank = token) (hne : token ≠ [])
    (h : BearerValue spaces token value) (h' : BearerValue spaces' token value) :
    spaces = spaces' := by
  have key : ∀ n, BearerValue n token value →
      (((value.dropWhile isBlank).drop 6).rdropWhile isBlank).length = n + token.length := by
    intro n hn
    obtain ⟨scheme, blanks, hvalue, -, hlen, hblanks⟩ := hn.dropWhile_eq
    have hlast : (List.replicate n 32 ++ token).rdropWhile isBlank = List.replicate n 32 ++ token := by
      rw [List.rdropWhile_eq_self_iff]
      intro hl
      rw [List.getLast_append_of_ne_nil _ hne]
      exact List.rdropWhile_eq_self_iff.mp htrim hne
    rw [hvalue, ← hlen, List.drop_left, ← List.append_assoc, rdropWhile_append_of_forall _ hblanks,
      hlast, List.length_append, List.length_replicate]
  have hlen := (key spaces h).symm.trans (key spaces' h')
  omega

/-- **When a value yields a text**: it has it behind the word and one space. -/
theorem bearerToken_eq_iff {t value : Bytes} (hne : t ≠ []) :
    bearerToken value = t ↔ Trimmed t ∧ BearerValue 1 t value := by
  constructor
  · intro h
    rw [bearerToken] at h
    split_ifs at h with hlen hscheme hcap
    · exact absurd h.symm hne
    · exact absurd h.symm hne
    · exact absurd h.symm hne
    · rw [not_not, show lit "bearer " = lit "bearer" ++ [32] from rfl] at hscheme
      obtain ⟨scheme, last, htake, hscheme, hlast⟩ := List.map_eq_append_iff.mp hscheme
      obtain ⟨space, rfl, hspace⟩ := List.map_eq_singleton_iff.mp hlast
      obtain rfl := eq_space_of_tolower hspace
      refine ⟨⟨by rw [← h]; omega, by rw [← h, List.rdropWhile_idempotent]⟩,
        value.takeWhile isBlank, scheme, ((value.dropWhile isBlank).drop 7).rtakeWhile isBlank, ?_,
        fun b hb ↦ List.mem_takeWhile_imp hb, hscheme, fun b hb ↦ List.mem_rtakeWhile_imp hb⟩
      rw [← h, List.rdropWhile_append_rtakeWhile, List.replicate_one, ← List.append_assoc scheme,
        ← htake, List.take_append_drop, List.takeWhile_append_dropWhile]
  · rintro ⟨⟨hcap, htrim⟩, hvalue⟩
    obtain ⟨scheme, blanks, hvalue, hscheme, hlen, hblanks⟩ := hvalue.dropWhile_eq
    have hseven : (scheme ++ [32]).length = 7 := by
      rw [List.length_append, hlen]
      rfl
    rw [List.replicate_one, ← List.append_assoc] at hvalue
    have hword : (scheme ++ [32]).map tolower = lit "bearer " := by
      rw [List.map_append, hscheme]
      rfl
    rw [bearerToken, hvalue, ← hseven, List.take_left, List.drop_left,
      rdropWhile_append_of_forall _ hblanks, htrim, if_neg (by rw [List.length_append]; omega),
      if_neg (not_not.mpr hword), if_neg (by omega)]

/-! ## The line it is on -/

/-- The first `Authorization` line among these. -/
def FirstAuthorization (lines : List Bytes) (line : Bytes) : Prop :=
  IsField (lit "authorization") line ∧ ∃ before after, lines = before ++ line :: after ∧
    ∀ l ∈ before, ¬ IsField (lit "authorization") l

theorem bearerLine_iff {spaces : ℕ} {token line : Bytes} : BearerLine spaces token line ↔
    ∃ value, lineValue (lit "authorization") line = some value ∧
      BearerValue spaces token value := by
  constructor
  · rintro ⟨name, blanks, value, rfl, hname, hblanks, hvalue⟩
    exact ⟨value, lineValue_field (by decide) (by decide) hname hblanks, hvalue⟩
  · rintro ⟨value, hline, hvalue⟩
    obtain ⟨name, blanks, rfl, hname, hblanks⟩ := eq_of_lineValue hline
    exact ⟨name, blanks, value, rfl, hname, hblanks, hvalue⟩

/-- **The lookup returns the value of the first line with the name**, and nothing if there is
none. -/
theorem findHeader_authorization {headers value : Bytes} (hne : value ≠ []) :
    findHeader headers (lit "authorization") = value ↔
      ∃ line, FirstAuthorization (splitLines headers) line ∧
        lineValue (lit "authorization") line = some value := by
  have hfield : ∀ l, lineValue (lit "authorization") l = none ↔ ¬ IsField (lit "authorization") l :=
    fun l ↦ lineValue_eq_none_iff (by decide) (by decide)
  rw [findHeader_eq]
  constructor
  · intro h
    cases hfound : (splitLines headers).findSome? (lineValue (lit "authorization")) with
    | none =>
      rw [hfound] at h
      exact absurd h.symm hne
    | some value' =>
      rw [hfound, Option.getD_some] at h
      subst h
      obtain ⟨before, line, after, hlines, hline, hbefore⟩ := List.findSome?_eq_some_iff.mp hfound
      exact ⟨line, ⟨isField_of_lineValue hline, before, after, hlines,
        fun l hl ↦ (hfield l).mp (hbefore l hl)⟩, hline⟩
  · rintro ⟨line, ⟨-, before, after, hlines, hbefore⟩, hline⟩
    rw [List.findSome?_eq_some_iff.mpr
      ⟨before, line, after, hlines, hline, fun l hl ↦ (hfield l).mpr (hbefore l hl)⟩]
    rfl

theorem BearerValue.ne_nil {spaces : ℕ} {token value : Bytes} (h : BearerValue spaces token value)
    (hne : token ≠ []) : value ≠ [] := by
  rintro rfl
  obtain ⟨blanks, scheme, blanks', hnil, -⟩ := h
  simp [hne] at hnil

/-- **When a text is returned**: the first `Authorization` line of the header section has it behind
the word and one space, and there is nothing to trim. -/
theorem parseBearerToken_eq_iff {request t : Bytes} (hne : t ≠ []) :
    parseBearerToken request = t ↔ Trimmed t ∧
      ∃ line, FirstAuthorization (splitLines (headerSection request)) line ∧ BearerLine 1 t line := by
  rw [parseBearerToken_eq, bearerToken_eq_iff hne]
  refine and_congr_right fun _ ↦ ?_
  constructor
  · intro hvalue
    obtain ⟨line, hfirst, hline⟩ := (findHeader_authorization (hvalue.ne_nil hne)).mp rfl
    exact ⟨line, hfirst, bearerLine_iff.mpr ⟨_, hline, hvalue⟩⟩
  · rintro ⟨line, hfirst, hbearer⟩
    obtain ⟨value, hline, hvalue⟩ := bearerLine_iff.mp hbearer
    rwa [(findHeader_authorization (hvalue.ne_nil hne)).mpr ⟨line, hfirst, hline⟩]

/-- There is only one first line. -/
theorem FirstAuthorization.unique {lines : List Bytes} {line line' : Bytes}
    (h : FirstAuthorization lines line) (h' : FirstAuthorization lines line') : line = line' := by
  obtain ⟨hfield, before, after, rfl, hbefore⟩ := h
  obtain ⟨hfield', before', after', heq, hbefore'⟩ := h'
  rcases List.append_eq_append_iff.mp heq with ⟨t, rfl, ht⟩ | ⟨t, rfl, ht⟩
  · rcases List.cons_eq_append_iff.mp ht with ⟨-, ht⟩ | ⟨t', rfl, -⟩
    · exact (List.cons.inj ht).1.symm
    · exact absurd hfield (hbefore' line (by simp))
  · rcases List.cons_eq_append_iff.mp ht with ⟨-, ht⟩ | ⟨t', rfl, -⟩
    · exact (List.cons.inj ht).1
    · exact absurd hfield' (hbefore line' (by simp))

/-- The request line comes before the headers. -/
theorem firstAuthorization_cons {first line : Bytes} {lines : List Bytes}
    (h : FirstAuthorization lines line) :
    FirstAuthorization (first :: lines) first ∧ IsField (lit "authorization") first ∨
      FirstAuthorization (first :: lines) line ∧ ¬ IsField (lit "authorization") first := by
  obtain ⟨hfield, before, after, rfl, hbefore⟩ := h
  by_cases hfirst : IsField (lit "authorization") first
  · exact .inl ⟨⟨hfirst, [], _, rfl, by simp⟩, hfirst⟩
  · refine .inr ⟨⟨hfield, first :: before, after, rfl, ?_⟩, hfirst⟩
    rw [List.forall_mem_cons]
    exact ⟨hfirst, hbefore⟩

/-! ## The result -/

/-- A token as it is issued and sent: not empty, not too long, and without blanks or line ends. -/
def IsToken (t : Bytes) : Prop :=
  t ≠ [] ∧ t.length ≤ kTokenLen * 2 ∧ ∀ b ∈ t, b ≠ 32 ∧ b ≠ 9 ∧ b ≠ 13 ∧ b ≠ 10

/-- What `parseBearerToken` means to return: nothing, or a text within the limit and without blanks
at either end. -/
def Normalised (r : Bytes) : Prop :=
  r = [] ∨ r.length ≤ kTokenLen * 2 ∧ r.dropWhile isBlank = r ∧ r.rdropWhile isBlank = r

theorem IsToken.trimmed {t : Bytes} (h : IsToken t) : Trimmed t := by
  obtain ⟨hne, hlen, hbytes⟩ := h
  refine ⟨hlen, List.rdropWhile_eq_self_iff.mpr fun hl hblank ↦ ?_⟩
  obtain ⟨hspace, htab, -⟩ := hbytes _ (List.getLast_mem hl)
  simp [isBlank, hspace, htab] at hblank

theorem BearerLine.isField {spaces : ℕ} {token line : Bytes} (h : BearerLine spaces token line) :
    IsField (lit "authorization") line := by
  obtain ⟨name, blanks, value, hline, hname, hblanks, -⟩ := h
  exact ⟨name, blanks, value, hline, hname, hblanks⟩

theorem BearerLine.spaces_eq {spaces spaces' : ℕ} {token line : Bytes} (htoken : IsToken token)
    (h : BearerLine spaces token line) (h' : BearerLine spaces' token line) : spaces = spaces' := by
  obtain ⟨value, hline, hvalue⟩ := bearerLine_iff.mp h
  obtain ⟨value', hline', hvalue'⟩ := bearerLine_iff.mp h'
  obtain rfl : value = value' := Option.some_inj.mp (hline.symm.trans hline')
  exact hvalue.spaces_eq htoken.trimmed.2 htoken.1 hvalue'

/-- A token that was meant is read when one space is in front of it. -/
theorem parseBearerToken_eq_token_iff {request line t : Bytes} {spaces : ℕ}
    (hheader : FirstAuthorization (splitLines (headerSection request)).tail line)
    (hline : BearerLine spaces t line) (htoken : IsToken t) :
    parseBearerToken request = t ↔
      (¬ IsField (lit "authorization") (firstLine (headerSection request)) ∧ spaces = 1 ∨
        BearerLine 1 t (firstLine (headerSection request))) := by
  rw [parseBearerToken_eq_iff htoken.1, splitLines_eq_cons, and_iff_right htoken.trimmed]
  generalize firstLine (headerSection request) = first
  rcases firstAuthorization_cons hheader with ⟨hread, hfirst⟩ | ⟨hread, hfirst⟩
  · -- the request line is read
    constructor
    · rintro ⟨line', hread', hline'⟩
      obtain rfl := hread.unique hread'
      exact .inr hline'
    · rintro (⟨hno, -⟩ | hline')
      · exact absurd hfirst hno
      · exact ⟨first, hread, hline'⟩
  · -- the header is read
    constructor
    · rintro ⟨line', hread', hline'⟩
      obtain rfl := hread.unique hread'
      exact .inl ⟨hfirst, hline.spaces_eq htoken hline'⟩
    · rintro (⟨-, rfl⟩ | hline')
      · exact ⟨line, hread, hline⟩
      · exact absurd hline'.isField hfirst

/-- The result is normalised but for a second blank. -/
theorem normalised_parseBearerToken_iff (request : Bytes) :
    Normalised (parseBearerToken request) ↔
      ¬ ∃ line blank t, FirstAuthorization (splitLines (headerSection request)) line ∧
        BearerLine 1 (blank :: t) line ∧ isBlank blank = true ∧ Trimmed (blank :: t) := by
  constructor
  · rintro hnorm ⟨line, blank, t, hfirst, hline, hblank, htrim⟩
    have hresult : parseBearerToken request = blank :: t :=
      (parseBearerToken_eq_iff (List.cons_ne_nil _ _)).mpr ⟨htrim, line, hfirst, hline⟩
    rw [hresult] at hnorm
    rcases hnorm with hnil | ⟨-, hdrop, -⟩
    · exact absurd hnil (List.cons_ne_nil _ _)
    · exact List.dropWhile_eq_self_iff.mp hdrop (Nat.succ_pos _) hblank
  · intro hno
    by_cases hnil : parseBearerToken request = []
    · exact .inl hnil
    · obtain ⟨htrim, line, hfirst, hline⟩ := (parseBearerToken_eq_iff hnil).mp rfl
      obtain ⟨blank, t, hresult⟩ := List.exists_cons_of_ne_nil hnil
      rw [hresult] at htrim hline ⊢
      refine .inr ⟨htrim.1, List.dropWhile_eq_self_iff.mpr fun _ hblank ↦ ?_, htrim.2⟩
      exact hno ⟨line, blank, t, hfirst, hline, hblank, htrim⟩

/-- **Extracting the bearer token.**

* If the first `Authorization` header of the request has a token behind the word and some spaces,
  the result is the token if and only if there is exactly one space; if the request line is itself
  taken for an `Authorization` line, that is the one that counts.
* Whatever the request, the result is normalised, unless the first `Authorization` line has a
  second blank behind the word, in front of something that is within the limit. -/
theorem bearer_token_iff (request : Bytes) :
    (∀ line spaces t, FirstAuthorization (splitLines (headerSection request)).tail line →
      BearerLine spaces t line → IsToken t →
      (parseBearerToken request = t ↔
        (¬ IsField (lit "authorization") (firstLine (headerSection request)) ∧ spaces = 1 ∨
          BearerLine 1 t (firstLine (headerSection request))))) ∧
    (Normalised (parseBearerToken request) ↔
      ¬ ∃ line blank t, FirstAuthorization (splitLines (headerSection request)) line ∧
        BearerLine 1 (blank :: t) line ∧ isBlank blank = true ∧ Trimmed (blank :: t)) :=
  ⟨fun _ _ _ hheader hline htoken ↦ parseBearerToken_eq_token_iff hheader hline htoken,
    normalised_parseBearerToken_iff request⟩

/-- A request for the profile, with the token `abc`. -/
def profileRequest (spaces : ℕ) : Bytes :=
  lit "GET /profile HTTP/1.1\r\nAuthorization: Bearer" ++ List.replicate spaces 32 ++
    lit "abc\r\n\r\n"

theorem profileRequest_header {spaces : ℕ} (h : spaces = 1 ∨ spaces = 2) :
    FirstAuthorization (splitLines (headerSection (profileRequest spaces))).tail
        (lit "Authorization: Bearer" ++ List.replicate spaces 32 ++ lit "abc") ∧
      BearerLine spaces (lit "abc")
        (lit "Authorization: Bearer" ++ List.replicate spaces 32 ++ lit "abc") := by
  have hline : BearerLine spaces (lit "abc")
      (lit "Authorization: Bearer" ++ List.replicate spaces 32 ++ lit "abc") := by
    refine ⟨lit "Authorization", [], lit " Bearer" ++ List.replicate spaces 32 ++ lit "abc", ?_,
      by decide, by simp, [32], lit "Bearer", [], ?_, by decide +kernel, by decide, by simp⟩
    · rw [List.append_assoc, List.append_assoc]
      rfl
    · rw [List.append_assoc, List.append_nil]
      rfl
  refine ⟨⟨hline.isField, [], [], ?_, by simp⟩, hline⟩
  rcases h with rfl | rfl
  · decide
  · decide

theorem isToken_abc : IsToken (lit "abc") := ⟨by decide, by decide, by decide +kernel⟩

/-- With one space the token is read. -/
theorem bearer_token_iff_oneSpace : parseBearerToken (profileRequest 1) = lit "abc" := by
  obtain ⟨hheader, hline⟩ := profileRequest_header (.inl rfl)
  refine ((bearer_token_iff (profileRequest 1)).1 _ 1 _ hheader hline isToken_abc).mpr
    (.inl ⟨?_, rfl⟩)
  exact not_isField_of_map (by decide)

/-- With two spaces the result begins with a space. -/
theorem bearer_token_misread :
    ¬ ((∀ request line spaces t, FirstAuthorization (splitLines (headerSection request)).tail line →
        BearerLine spaces t line → 1 ≤ spaces → IsToken t → parseBearerToken request = t) ∧
      ∀ request, Normalised (parseBearerToken request)) := by
  rintro ⟨hall, -⟩
  obtain ⟨hheader, hline⟩ := profileRequest_header (.inr rfl)
  exact absurd (hall _ _ 2 _ hheader hline (by decide) isToken_abc) (by decide)

end ReactorServer
