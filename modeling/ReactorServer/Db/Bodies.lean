import ReactorServer.Db.Tasks
import ReactorServer.Http.Request

/-!
# The bodies that come in and go out

Two JSON texts pass between the front end and the server: the credentials, which
`static/index.html` writes with `JSON.stringify` and the server reads with `getJsonValue`, and the
profile, which the server writes with `jsonEscape`.

On the way out every username is written so that a JSON reader gets it back
(`profileJson_faithful`).  On the way in the server does not undo the escapes, and a value ends for
it at the first quote, escaped or not.  So it reads what was written exactly when there was nothing
to escape (`getJsonValue_credentials_iff`).

A string of the front end is a list of characters here, so it is one that has UTF-8 bytes: there is
no half of a surrogate pair in it.
-/

set_option autoImplicit false

namespace ReactorServer

open Search
open JsonText (decodeString decodeObject bareQuote object quote utf8 Plain)

/-! ## The profile -/

theorem profileJson_eq (username : Bytes) :
    profileJson username = object [(lit "username", jsonEscape username)] := by
  simp only [profileJson, object, JsonText.member, List.map_singleton, List.intercalate_singleton,
    List.append_assoc, List.cons_append, List.nil_append]
  rfl

/-- The keys stand for themselves. -/
theorem reads_key {key : Bytes} (h : key = lit "username" ∨ key = lit "password") :
    JsonText.Reads key key := by
  refine JsonText.reads_of_plain ?_
  rcases h with rfl | rfl
  · decide +kernel
  · decide +kernel

/-- **The profile is written faithfully.**  An escaped string has no control character and no
unescaped quote, and a JSON reader gets the string back and stops at the closing quote.  So the body
is an object with the username as its only member, and no other username has the same body. -/
theorem profileJson_faithful (username : Bytes) :
    ((∀ b ∈ jsonEscape username, 32 ≤ b) ∧ bareQuote (jsonEscape username) = false ∧
      ∀ rest, decodeString (jsonEscape username ++ 34 :: rest) = some (username, rest)) ∧
    decodeObject (profileJson username) = some [(lit "username", username)] ∧
    ∀ other, profileJson other = profileJson username ↔ other = username := by
  refine ⟨⟨fun b hb ↦ le_of_mem_jsonEscape hb, bareQuote_jsonEscape username,
    reads_jsonEscape username⟩, ?_, fun other ↦ ⟨fun h ↦ ?_, congrArg profileJson⟩⟩
  · rw [profileJson_eq]
    exact JsonText.decodeObject_object (.cons ⟨reads_key (.inl rfl), reads_jsonEscape username⟩ .nil)
  · rw [profileJson, profileJson, List.append_cancel_right_eq, List.append_cancel_left_eq] at h
    exact jsonEscape_injective h

/-! ## The credentials -/

/-- The body `submitAuth` sends: `JSON.stringify` of a username and a password. -/
def credentialsJson (username password : List Char) : Bytes :=
  object [(lit "username", quote username), (lit "password", quote password)]

/-- It is an object with these two members, for a JSON reader. -/
theorem decodeObject_credentialsJson (username password : List Char) :
    decodeObject (credentialsJson username password) =
      some [(lit "username", utf8 username), (lit "password", utf8 password)] :=
  JsonText.decodeObject_object (.cons ⟨reads_key (.inl rfl), JsonText.reads_quote username⟩
    (.cons ⟨reads_key (.inr rfl), JsonText.reads_quote password⟩ .nil))

/-- What `getJsonValue` searches for. -/
def keyPattern (key : Bytes) : Bytes := lit "\"" ++ key ++ lit "\":\""

/-- The value found behind a key ends at the first quote. -/
theorem getJsonValue_eq {front key value t : Bytes}
    (hfirst : indexOf (keyPattern key) (front ++ (keyPattern key ++ (value ++ 34 :: t))) =
      some front.length) (hvalue : 34 ∉ value) :
    getJsonValue (front ++ (keyPattern key ++ (value ++ 34 :: t))) key = value := by
  have hdrop : (front ++ (keyPattern key ++ (value ++ 34 :: t))).drop
      (front.length + (keyPattern key).length) = value ++ 34 :: t := by
    rw [← List.drop_drop, List.drop_left, List.drop_left]
  have hquote : indexOf (lit "\"") (value ++ 34 :: t) = some value.length :=
    indexOf_singleton_append t hvalue
  rw [getJsonValue, ← keyPattern]
  dsimp only
  rw [hfirst]
  dsimp only
  rw [hdrop, hquote]
  exact List.take_left

theorem credentialsJson_eq (username password : List Char) :
    credentialsJson username password = [123] ++ (keyPattern (lit "username") ++
      (quote username ++ 34 :: ([44] ++ (keyPattern (lit "password") ++
        (quote password ++ 34 :: [125]))))) := by
  simp only [credentialsJson, object, JsonText.member, List.map_cons, List.map_nil,
    List.intercalate_cons_cons, List.intercalate_singleton, keyPattern, List.append_assoc,
    List.cons_append, List.nil_append]
  rfl

/-- **A value is cut off where it should be** exactly when there is nothing to escape in it. -/
theorem value_eq_utf8_iff {s : List Char} {value t t' : Bytes}
    (h : quote s ++ 34 :: t' = value ++ 34 :: t) (hvalue : 34 ∉ value) :
    value = utf8 s ↔ ∀ c ∈ s, Plain c := by
  constructor
  · rintro rfl
    -- a quote would be among the bytes, and the value ends before the first one
    have hno : '"' ∉ s := fun hin ↦ hvalue (JsonText.mem_utf8_iff.mpr hin)
    have hquote : 34 ∉ quote s := fun hin ↦ hno (JsonText.quote_mem_of_mem_quote hin)
    exact JsonText.quote_eq_utf8_iff.mp (append_cons_inj hquote hvalue h).1
  · intro hplain
    rw [JsonText.quote_eq_utf8_iff.mpr hplain] at h
    have hno : 34 ∉ utf8 s := fun hin ↦ (hplain _ (JsonText.mem_utf8_iff.mp hin)).1 rfl
    exact (append_cons_inj hno hvalue h).1.symm

/-- The lookup of a key in a text that was found to have it at this place. -/
theorem getJsonValue_eq_utf8_iff {front key t : Bytes} {s : List Char}
    (hfirst : indexOf (keyPattern key) (front ++ (keyPattern key ++ (quote s ++ 34 :: t))) =
      some front.length) :
    getJsonValue (front ++ (keyPattern key ++ (quote s ++ 34 :: t))) key = utf8 s ↔
      ∀ c ∈ s, Plain c := by
  have hmem : 34 ∈ quote s ++ 34 :: t := List.mem_append_right _ List.mem_cons_self
  obtain ⟨value, t', hcut, hvalue⟩ := List.eq_append_cons_of_mem hmem
  rw [hcut] at hfirst
  rw [← value_eq_utf8_iff hcut hvalue, hcut, getJsonValue_eq hfirst hvalue]

/-- Text without a quote is skipped in the search for a key. -/
theorem indexOf_keyPattern_append {key a : Bytes} (h : 34 ∉ a) (t : Bytes) :
    indexOf (keyPattern key) (a ++ t) = (indexOf (keyPattern key) t).map (· + a.length) :=
  indexOf_cons_append (key ++ lit "\":\"") t h

/-- A quote that no `p` follows does not begin the key `"password"`. -/
theorem indexOf_password_cons {b : UInt8} (h : b ≠ 112) (t : Bytes) :
    indexOf (keyPattern (lit "password")) (34 :: b :: t) =
      (indexOf (keyPattern (lit "password")) (b :: t)).map (· + 1) := by
  refine indexOf_cons_skip ?_
  rintro ⟨t', ht⟩
  obtain ⟨-, htail⟩ := List.cons.inj ht
  exact h (List.cons.inj htail).1.symm

/-- Nor does a quote in front of a value without quotes: a comma follows the value, not a colon. -/
theorem indexOf_password_value {value : Bytes} (h : 34 ∉ value) (t : Bytes) :
    indexOf (keyPattern (lit "password")) (34 :: (value ++ 34 :: 44 :: t)) =
      (indexOf (keyPattern (lit "password")) (34 :: 44 :: t)).map (· + (value.length + 1)) := by
  have hnot : ¬ keyPattern (lit "password") <+: 34 :: (value ++ 34 :: 44 :: t) := by
    rintro ⟨t', ht⟩
    have hcut : lit "password" ++ 34 :: (58 :: 34 :: t') = value ++ 34 :: (44 :: t) :=
      (List.cons.inj ht).2
    have htail := (append_cons_inj (by decide) h hcut).2
    exact absurd (List.cons.inj htail).1 (by decide)
  rw [indexOf_cons_skip hnot, indexOf_keyPattern_append h, Option.map_map]
  rfl

/-- **The key `"password"` is found in its place**, behind a username without quotes. -/
theorem indexOf_password {value : Bytes} (h : 34 ∉ value) (t : Bytes) :
    indexOf (keyPattern (lit "password")) (([123] ++ (keyPattern (lit "username") ++
        (value ++ [34, 44]))) ++ (keyPattern (lit "password") ++ t)) =
      some ([123] ++ (keyPattern (lit "username") ++ (value ++ [34, 44]))).length := by
  set rest := keyPattern (lit "password") ++ t
  have htext : ([123] ++ (keyPattern (lit "username") ++ (value ++ [34, 44]))) ++ rest =
      [123] ++ 34 :: (lit "username" ++ 34 :: ([58] ++ 34 :: (value ++ 34 :: 44 :: rest))) := by
    simp only [List.append_assoc, List.cons_append, List.nil_append]
    rfl
  have hopen : indexOf (keyPattern (lit "password")) (34 :: (lit "username" ++
      34 :: ([58] ++ 34 :: (value ++ 34 :: 44 :: rest)))) =
      (indexOf (keyPattern (lit "password")) (lit "username" ++
        34 :: ([58] ++ 34 :: (value ++ 34 :: 44 :: rest)))).map (· + 1) :=
    indexOf_password_cons (by decide) _
  have hcolon : indexOf (keyPattern (lit "password"))
      (34 :: ([58] ++ 34 :: (value ++ 34 :: 44 :: rest))) =
      (indexOf (keyPattern (lit "password"))
        ([58] ++ 34 :: (value ++ 34 :: 44 :: rest))).map (· + 1) :=
    indexOf_password_cons (by decide) _
  have hcomma : indexOf (keyPattern (lit "password")) (34 :: 44 :: rest) = some 2 := by
    rw [indexOf_password_cons (by decide), ← List.singleton_append,
      indexOf_keyPattern_append (by decide), indexOf_self_append]
    rfl
  rw [htext, indexOf_keyPattern_append (by decide), hopen, indexOf_keyPattern_append (by decide),
    hcolon, indexOf_keyPattern_append (by decide), indexOf_password_value h, hcomma]
  have hpattern : (keyPattern (lit "username")).length = 12 := rfl
  have hname : (lit "username").length = 8 := rfl
  simp only [Option.map_some, List.length_append, List.length_cons, List.length_nil, hpattern, hname]
  congr 1
  omega

/-- **The server reads what its front end writes** exactly when neither the username nor the password
has a quote, a backslash or a control character in it. -/
theorem getJsonValue_credentials_iff (username password : List Char) :
    (getJsonValue (credentialsJson username password) (lit "username") = utf8 username ∧
      getJsonValue (credentialsJson username password) (lit "password") = utf8 password) ↔
    (∀ c ∈ username, Plain c) ∧ ∀ c ∈ password, Plain c := by
  have husername : getJsonValue (credentialsJson username password) (lit "username") =
      utf8 username ↔ ∀ c ∈ username, Plain c := by
    rw [credentialsJson_eq]
    refine getJsonValue_eq_utf8_iff ?_
    rw [indexOf_keyPattern_append (by decide), indexOf_self_append]
    rfl
  rw [husername]
  refine and_congr_right fun hplain ↦ ?_
  have hno : 34 ∉ quote username := by
    rw [JsonText.quote_eq_utf8_iff.mpr hplain]
    exact fun hin ↦ (hplain _ (JsonText.mem_utf8_iff.mp hin)).1 rfl
  have htext : credentialsJson username password =
      ([123] ++ (keyPattern (lit "username") ++ (quote username ++ [34, 44]))) ++
        (keyPattern (lit "password") ++ (quote password ++ 34 :: [125])) := by
    rw [credentialsJson_eq]
    simp only [List.append_assoc, List.cons_append, List.nil_append]
  rw [htext]
  exact getJsonValue_eq_utf8_iff (indexOf_password hno _)

/-- The username `a"b` is read as `a\`. -/
theorem credentials_misread :
    ¬ ∀ username password : List Char,
      getJsonValue (credentialsJson username password) (lit "username") = utf8 username ∧
        getJsonValue (credentialsJson username password) (lit "password") = utf8 password := by
  intro hall
  exact absurd (hall ['a', '"', 'b'] ['x']).1 (by decide)

end ReactorServer
