import ReactorServer.Bytes

/-!
# The SQL texts

`handleRegister` and `handleLogin` paste credentials into SQL texts, between single quotes and after
`mysql_real_escape_string`.  What the database makes of such a text is for its lexer to say, so the
lexer is here too, as far as string literals go: backslash sequences, doubled quotes, and the quote
that ends the literal.  The three statements the server uses are told apart by the text around their
literals, and a text that is none of them is not a statement (`parseSql`).

The point of the exercise is `sqlTokens_selectPassword` and its two siblings: whatever bytes the
credentials hold, the database sees the text that was meant, with literals that denote exactly those
bytes.
-/

set_option autoImplicit false

namespace ReactorServer

open Search

/-! ## Escaping -/

/-- What `mysql_real_escape_string` writes for a byte. -/
def mysqlEscapeByte (b : UInt8) : Bytes :=
  if b = 0 then [92, 48]
  else if b = 10 then [92, 110]
  else if b = 13 then [92, 114]
  else if b = 92 then [92, 92]
  else if b = 39 then [92, 39]
  else if b = 34 then [92, 34]
  else if b = 26 then [92, 90]
  else [b]

/-- `mysql_real_escape_string`, without the NUL it appends. -/
def mysqlEscape (s : Bytes) : Bytes := s.flatMap mysqlEscapeByte

theorem zero_not_mem_mysqlEscape (s : Bytes) : 0 ∉ mysqlEscape s := by
  rw [mysqlEscape, List.mem_flatMap]
  rintro ⟨b, -, hb⟩
  unfold mysqlEscapeByte at hb
  split_ifs at hb with h₀ <;> simp_all

theorem length_mysqlEscapeByte_le (b : UInt8) : (mysqlEscapeByte b).length ≤ 2 := by
  unfold mysqlEscapeByte
  split_ifs <;> simp

/-- Escaping at most doubles the length. -/
theorem length_mysqlEscape_le (s : Bytes) : (mysqlEscape s).length ≤ 2 * s.length := by
  induction s with
  | nil => simp [mysqlEscape]
  | cons b s ih =>
    have hb := length_mysqlEscapeByte_le b
    rw [mysqlEscape] at ih ⊢
    rw [List.flatMap_cons, List.length_append, List.length_cons]
    omega

/-- The `SELECT` of `handleRegister`. -/
def selectExistsSql (user : Bytes) : Bytes :=
  lit "SELECT 1 FROM users WHERE username=" ++ 39 :: (user ++ 39 :: lit " LIMIT 1")

/-- The `SELECT` of `handleLogin`. -/
def selectPasswordSql (user : Bytes) : Bytes :=
  lit "SELECT password FROM users WHERE username=" ++ 39 :: (user ++ 39 :: lit " LIMIT 1")

/-- The `INSERT` of `handleRegister`. -/
def insertSql (user pass : Bytes) : Bytes :=
  lit "INSERT INTO users(username, password) VALUES(" ++
    39 :: (user ++ 39 :: (lit "," ++ 39 :: (pass ++ 39 :: lit ")")))

/-! ## Lexing -/

/-- What a backslash and this byte stand for in a literal. -/
def unescapeByte (b : UInt8) : Bytes :=
  if b = 48 then [0]
  else if b = 98 then [8]
  else if b = 110 then [10]
  else if b = 114 then [13]
  else if b = 116 then [9]
  else if b = 90 then [26]
  else if b = 37 then [92, 37]
  else if b = 95 then [92, 95]
  else [b]

/-- The rest of a string literal, after its opening quote: what it denotes, and what follows it. -/
def lexString : Bytes → Option (Bytes × Bytes)
  | [] => none
  | [b] => if b = 39 then some ([], []) else none
  | b :: c :: s =>
    if b = 92 then (lexString s).map fun r ↦ (unescapeByte c ++ r.1, r.2)
    else if b = 39 then
      if c = 39 then (lexString s).map fun r ↦ (39 :: r.1, r.2) else some ([], c :: s)
    else (lexString (c :: s)).map fun r ↦ (b :: r.1, r.2)

/-- A piece of an SQL text: a string literal, or what stands between literals. -/
inductive Token where
  | text (bs : Bytes)
  | str (bs : Bytes)
  deriving DecidableEq, Repr

/-- Cut an SQL text at its string literals. -/
def lexSql : ℕ → Bytes → Option (List Token)
  | 0, _ => none
  | fuel + 1, s =>
    match indexOf [39] s with
    | none => some [.text s]
    | some i =>
      (lexString (s.drop (i + 1))).bind fun r ↦
        (lexSql fuel r.2).map fun ts ↦ .text (s.take i) :: .str r.1 :: ts

/-- The statements the server uses. -/
inductive Stmt where
  | selectExists (user : Bytes)
  | selectPassword (user : Bytes)
  | insert (user pass : Bytes)
  deriving DecidableEq, Repr

/-- The statement with these tokens. -/
def stmtOf : List Token → Option Stmt
  | [.text a, .str user, .text b] =>
    if b = lit " LIMIT 1" then
      if a = lit "SELECT 1 FROM users WHERE username=" then some (.selectExists user)
      else if a = lit "SELECT password FROM users WHERE username=" then some (.selectPassword user)
      else none
    else none
  | [.text a, .str user, .text b, .str pass, .text c] =>
    if a = lit "INSERT INTO users(username, password) VALUES(" ∧ b = lit "," ∧ c = lit ")" then
      some (.insert user pass)
    else none
  | _ => none

/-- What the database makes of an SQL text. -/
def parseSql (sql : Bytes) : Option Stmt := (lexSql (sql.length + 1) sql).bind stmtOf

/-! ## Credentials cannot change a statement -/

theorem lexString_escapeByte (b : UInt8) (s : Bytes) :
    lexString (mysqlEscapeByte b ++ s) = (lexString s).map fun r ↦ (b :: r.1, r.2) := by
  unfold mysqlEscapeByte
  split_ifs with h₀ h₁ h₂ hslash hquote h₃ h₄
  -- the seven bytes that are written with a backslash
  · subst h₀; rfl
  · subst h₁; rfl
  · subst h₂; rfl
  · subst hslash; rfl
  · subst hquote; rfl
  · subst h₃; rfl
  · subst h₄; rfl
  -- and one that stands for itself
  · cases s with
    | nil => simp [lexString, hquote]
    | cons c s => simp [lexString, hquote, hslash]

/-- **An escaped literal denotes what was escaped**, and ends where it was closed. -/
theorem lexString_mysqlEscape (s : Bytes) {rest : Bytes} (h : rest.head? ≠ some 39) :
    lexString (mysqlEscape s ++ 39 :: rest) = some (s, rest) := by
  induction s with
  | nil =>
    cases rest with
    | nil => rfl
    | cons c rest =>
      have hc : c ≠ 39 := fun e ↦ h (by rw [e]; rfl)
      simp [mysqlEscape, lexString, hc]
  | cons b s ih =>
    rw [mysqlEscape, List.flatMap_cons, List.append_assoc, lexString_escapeByte, ← mysqlEscape, ih]
    rfl

theorem lexSql_text {a : Bytes} (h : 39 ∉ a) (fuel : ℕ) : lexSql (fuel + 1) a = some [.text a] := by
  rw [lexSql, indexOf_singleton_eq_none_iff.mpr h]

theorem lexSql_literal {a rest : Bytes} (h : 39 ∉ a) (s : Bytes) (hrest : rest.head? ≠ some 39)
    (fuel : ℕ) :
    lexSql (fuel + 1) (a ++ 39 :: (mysqlEscape s ++ 39 :: rest)) =
      (lexSql fuel rest).map fun ts ↦ .text a :: .str s :: ts := by
  have hdrop : (a ++ 39 :: (mysqlEscape s ++ 39 :: rest)).drop (a.length + 1) =
      mysqlEscape s ++ 39 :: rest := by
    rw [← List.drop_drop, List.drop_left]
    rfl
  rw [lexSql, indexOf_singleton_append _ h]
  dsimp only
  rw [hdrop, lexString_mysqlEscape s hrest, List.take_left]
  rfl

/-- The tokens of an SQL text. -/
def sqlTokens (sql : Bytes) : Option (List Token) := lexSql (sql.length + 1) sql

/-- The tokens of the `SELECT` of `handleRegister`. -/
def selectExistsTokens (user : Bytes) : List Token :=
  [.text (lit "SELECT 1 FROM users WHERE username="), .str user, .text (lit " LIMIT 1")]

/-- The tokens of the `SELECT` of `handleLogin`. -/
def selectPasswordTokens (user : Bytes) : List Token :=
  [.text (lit "SELECT password FROM users WHERE username="), .str user, .text (lit " LIMIT 1")]

/-- The tokens of the `INSERT` of `handleRegister`. -/
def insertTokens (user pass : Bytes) : List Token :=
  [.text (lit "INSERT INTO users(username, password) VALUES("), .str user, .text (lit ","),
    .str pass, .text (lit ")")]

/-- A text with one literal in it. -/
theorem sqlTokens_literal {a b : Bytes} (ha : 39 ∉ a) (hb : 39 ∉ b) (s : Bytes) :
    sqlTokens (a ++ 39 :: (mysqlEscape s ++ 39 :: b)) = some [.text a, .str s, .text b] := by
  have hhead : b.head? ≠ some 39 := fun h ↦ hb (List.mem_of_mem_head? h)
  obtain ⟨n, hn⟩ : ∃ n, (a ++ 39 :: (mysqlEscape s ++ 39 :: b)).length = n + 1 :=
    ⟨_, by rw [List.length_append, List.length_cons, ← Nat.add_assoc]⟩
  rw [sqlTokens, hn, lexSql_literal ha s hhead, lexSql_text hb]
  rfl

theorem sqlTokens_selectExists (user : Bytes) :
    sqlTokens (selectExistsSql (mysqlEscape user)) = some (selectExistsTokens user) :=
  sqlTokens_literal (by decide) (by decide) user

theorem sqlTokens_selectPassword (user : Bytes) :
    sqlTokens (selectPasswordSql (mysqlEscape user)) = some (selectPasswordTokens user) :=
  sqlTokens_literal (by decide) (by decide) user

theorem sqlTokens_insert (user pass : Bytes) :
    sqlTokens (insertSql (mysqlEscape user) (mysqlEscape pass)) = some (insertTokens user pass) := by
  obtain ⟨n, hn⟩ : ∃ n, (insertSql (mysqlEscape user) (mysqlEscape pass)).length = n + 2 :=
    ⟨(insertSql (mysqlEscape user) (mysqlEscape pass)).length - 2, by
      rw [insertSql, List.length_append, List.length_cons, List.length_append, List.length_cons]
      omega⟩
  have hcomma : (lit "," ++ 39 :: (mysqlEscape pass ++ 39 :: lit ")")).head? ≠ some 39 := by
    rw [show lit "," = [44] from by decide]
    simp
  rw [sqlTokens, hn, insertSql, lexSql_literal (by decide) user hcomma,
    lexSql_literal (by decide) pass (by decide), lexSql_text (by decide)]
  rfl

/-! ## The texts as they are sent

An escaped string holds no NUL, so `std::string(esc_user)` is all of it, and `query.c_str()` all of
the query. -/

theorem cstr_mysqlEscape (s : Bytes) : cstr (mysqlEscape s) = mysqlEscape s :=
  cstr_eq_self (zero_not_mem_mysqlEscape s)

theorem cstr_selectExistsSql (user : Bytes) :
    cstr (selectExistsSql (cstr (mysqlEscape user))) = selectExistsSql (mysqlEscape user) := by
  rw [cstr_mysqlEscape]
  refine cstr_eq_self ?_
  simp only [selectExistsSql, List.mem_append, List.mem_cons, not_or]
  exact ⟨by decide, by decide, zero_not_mem_mysqlEscape user, by decide, by decide⟩

theorem cstr_selectPasswordSql (user : Bytes) :
    cstr (selectPasswordSql (cstr (mysqlEscape user))) = selectPasswordSql (mysqlEscape user) := by
  rw [cstr_mysqlEscape]
  refine cstr_eq_self ?_
  simp only [selectPasswordSql, List.mem_append, List.mem_cons, not_or]
  exact ⟨by decide, by decide, zero_not_mem_mysqlEscape user, by decide, by decide⟩

theorem cstr_insertSql (user pass : Bytes) :
    cstr (insertSql (cstr (mysqlEscape user)) (cstr (mysqlEscape pass))) =
      insertSql (mysqlEscape user) (mysqlEscape pass) := by
  rw [cstr_mysqlEscape, cstr_mysqlEscape]
  refine cstr_eq_self ?_
  simp only [insertSql, List.mem_append, List.mem_cons, not_or]
  exact ⟨by decide, by decide, zero_not_mem_mysqlEscape user, by decide, by decide, by decide,
    zero_not_mem_mysqlEscape pass, by decide, by decide⟩

theorem parseSql_cstr_selectExists (user : Bytes) :
    parseSql (cstr (selectExistsSql (cstr (mysqlEscape user)))) = some (.selectExists user) := by
  rw [cstr_selectExistsSql, parseSql, ← sqlTokens, sqlTokens_selectExists]
  rfl

theorem parseSql_cstr_selectPassword (user : Bytes) :
    parseSql (cstr (selectPasswordSql (cstr (mysqlEscape user)))) =
      some (.selectPassword user) := by
  rw [cstr_selectPasswordSql, parseSql, ← sqlTokens, sqlTokens_selectPassword]
  rfl

theorem parseSql_cstr_insert (user pass : Bytes) :
    parseSql (cstr (insertSql (cstr (mysqlEscape user)) (cstr (mysqlEscape pass)))) =
      some (.insert user pass) := by
  rw [cstr_insertSql, parseSql, ← sqlTokens, sqlTokens_insert]
  rfl

end ReactorServer
