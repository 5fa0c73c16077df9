import ReactorServer.Db.Tasks
import ReactorServer.Connection.Process

/-!
# Credentials cannot change the SQL

`Db/Sql.lean` says what the database makes of a text with an escaped string in it.  What is left is
the way there: `mysql_real_escape_string` writes into `esc_user[129]` and `esc_pass[257]`, arrays
whose sizes depend on the limits of `checkCredentials`, the text is built from what is in front of
the terminator there, and the tasks send no other text than the three of them (`registerWork_asks`,
`loginWork_asks`).
-/

set_option autoImplicit false

namespace ReactorServer

open Program

/-! ## The buffers -/

/-- What `mysql_real_escape_string` leaves in its buffer: the escaped string and a NUL. -/
def escapeBuffer (s : Bytes) : Bytes := mysqlEscape s ++ [0]

/-- `char esc_user[129]`. -/
def escUserSize : ℕ := 129

/-- `char esc_pass[257]`. -/
def escPassSize : ℕ := 257

theorem length_escapeBuffer_le (s : Bytes) : (escapeBuffer s).length ≤ 2 * s.length + 1 := by
  have h := length_mysqlEscape_le s
  rw [escapeBuffer, List.length_append, List.length_singleton]
  omega

/-- Whatever the rest of the array holds, the string in it ends at the NUL. -/
theorem cstr_escapeBuffer (s rest : Bytes) : cstr (escapeBuffer s ++ rest) = mysqlEscape s := by
  rw [escapeBuffer, List.append_assoc, cstr_append (zero_not_mem_mysqlEscape s)]
  exact List.append_nil _

theorem length_le_of_checkCredentials {username password : Bytes}
    (h : checkCredentials username password = none) :
    username.length ≤ kMaxUsernameLen ∧ password.length ≤ kMaxPasswordLen := by
  unfold checkCredentials at h
  split_ifs at h with hempty hlong
  omega

/-! ## The queries of a task -/

/-- The call is not a query, or its text is one of these. -/
def Asks (texts : List Bytes) : Call → Prop
  | .mysqlQuery _ sql => sql ∈ texts
  | _ => True

theorem asks_of_redisCall {texts : List Bytes} {cmd : RedisCommand} {α : Type} {p : Job α}
    (hp : Calls (RedisCall cmd) p) : Calls (Asks texts) p := by
  refine calls_imp (fun o ho ↦ ?_) hp
  cases o with
  | mysqlQuery conn sql => exact absurd ho id
  | _ => trivial

theorem asks_withGuard {texts : List Bytes} {α : Type} {body : Option ℕ → Job α}
    (hbody : ∀ conn, Calls (Asks texts) (body conn)) : Calls (Asks texts) (withGuard body) := by
  refine calls_bind (calls_perform trivial) fun conn ↦ calls_protect (hbody conn) ?_
  cases conn with
  | none => trivial
  | some conn => exact calls_perform trivial

/-- The task of `handleRegister` sends its `SELECT` and its `INSERT`. -/
theorem registerWork_asks (username password : Bytes) :
    Calls (Asks [cstr (selectExistsSql (cstr (mysqlEscape username))),
      cstr (insertSql (cstr (mysqlEscape username)) (cstr (mysqlEscape password)))])
      (registerWork username password) := by
  refine asks_withGuard fun conn ↦ ?_
  cases conn with
  | none => exact calls_perform trivial
  | some conn =>
    refine calls_bind (calls_perform (by simp [Asks])) fun r ↦ ?_
    rcases r with _ | (_ | _ | _)
    case failed | done.some.cons => exact calls_perform trivial
    case done.none | done.some.nil =>
      refine calls_bind (calls_perform (by simp [Asks])) fun r ↦ ?_
      cases r
      all_goals exact calls_perform trivial

/-- The task of `handleLogin` sends its `SELECT`. -/
theorem loginWork_asks (username password : Bytes) :
    Calls (Asks [cstr (selectPasswordSql (cstr (mysqlEscape username)))])
      (loginWork username password) := by
  have hlookup : Calls (Asks [cstr (selectPasswordSql (cstr (mysqlEscape username)))])
      (mysqlLookup username) := by
    refine asks_withGuard fun conn ↦ ?_
    cases conn with
    | none => exact calls_bind (calls_perform trivial) fun _ ↦ trivial
    | some conn =>
      refine calls_bind (calls_perform (by simp [Asks])) fun r ↦ ?_
      rcases r with _ | (_ | _ | _)
      · exact calls_bind (calls_perform trivial) fun _ ↦ trivial
      · trivial
      · trivial
      · exact calls_bind (asks_of_redisCall (redisSetex_calls _ _ _)) fun _ ↦ trivial
  refine calls_bind (calls_bind (asks_of_redisCall (redisGet_calls _)) fun r ↦ ?_) fun l ↦ ?_
  · show Calls _ (if r.2 = .Ok ∧ r.1 ≠ [] then pure (.found r.1) else mysqlLookup username)
    split
    · trivial
    · exact hlookup
  · rcases l with _ | _ | dbPassword
    · trivial
    · exact calls_perform trivial
    · show Calls _ (if password ≠ dbPassword then _ else _)
      split
      · exact calls_perform trivial
      · refine calls_bind (calls_perform trivial) fun token ↦
          calls_bind (asks_of_redisCall (redisSetex_calls _ _ _)) fun stored ↦ ?_
        cases stored
        all_goals exact calls_perform trivial

/-! ## The texts -/

/-- **Credentials cannot change the SQL.**  Accepted credentials fit the buffers when they are
escaped, terminator included, and are read from there without loss; every text the two tasks send is
one of three, and these have the tokens of the templates, with literals that denote the credentials. -/
theorem credentials_stay_literals (username password : Bytes)
    (h : checkCredentials username password = none) :
    ((escapeBuffer username).length ≤ escUserSize ∧
        (escapeBuffer password).length ≤ escPassSize) ∧
      (∀ rest, cstr (escapeBuffer username ++ rest) = mysqlEscape username ∧
        cstr (escapeBuffer password ++ rest) = mysqlEscape password) ∧
      Calls (Asks [cstr (selectExistsSql (cstr (escapeBuffer username))),
        cstr (insertSql (cstr (escapeBuffer username)) (cstr (escapeBuffer password)))])
        (registerWork username password) ∧
      Calls (Asks [cstr (selectPasswordSql (cstr (escapeBuffer username)))])
        (loginWork username password) ∧
      sqlTokens (cstr (selectExistsSql (cstr (escapeBuffer username)))) =
        some (selectExistsTokens username) ∧
      sqlTokens (cstr (insertSql (cstr (escapeBuffer username)) (cstr (escapeBuffer password)))) =
        some (insertTokens username password) ∧
      sqlTokens (cstr (selectPasswordSql (cstr (escapeBuffer username)))) =
        some (selectPasswordTokens username) := by
  obtain ⟨huser, hpass⟩ := length_le_of_checkCredentials h
  have hcstr : ∀ s, cstr (escapeBuffer s) = cstr (mysqlEscape s) := by
    intro s
    have := cstr_escapeBuffer s []
    rwa [List.append_nil, ← cstr_mysqlEscape] at this
  refine ⟨⟨?_, ?_⟩, fun rest ↦ ⟨cstr_escapeBuffer _ _, cstr_escapeBuffer _ _⟩, ?_⟩
  · calc (escapeBuffer username).length ≤ 2 * username.length + 1 := length_escapeBuffer_le username
      _ ≤ 2 * kMaxUsernameLen + 1 := by omega
      _ ≤ escUserSize := by decide
  · calc (escapeBuffer password).length ≤ 2 * password.length + 1 := length_escapeBuffer_le password
      _ ≤ 2 * kMaxPasswordLen + 1 := by omega
      _ ≤ escPassSize := by decide
  rw [hcstr, hcstr, cstr_selectExistsSql, cstr_insertSql, cstr_selectPasswordSql]
  exact ⟨cstr_selectExistsSql username ▸ cstr_insertSql username password ▸
      registerWork_asks username password,
    cstr_selectPasswordSql username ▸ loginWork_asks username password,
    sqlTokens_selectExists username, sqlTokens_insert username password,
    sqlTokens_selectPassword username⟩

/-- The longest credentials there are, made of nothing but bytes that are escaped; the name ends in
a backslash. -/
theorem credentials_stay_literals_longest :
    (escapeBuffer (List.replicate 63 39 ++ [92])).length ≤ 129 ∧
      sqlTokens (cstr (insertSql (cstr (escapeBuffer (List.replicate 63 39 ++ [92])))
        (cstr (escapeBuffer (List.replicate 128 0))))) =
        some (insertTokens (List.replicate 63 39 ++ [92]) (List.replicate 128 0)) :=
  have h := credentials_stay_literals (List.replicate 63 39 ++ [92]) (List.replicate 128 0)
    (by simp [checkCredentials, kMaxUsernameLen, kMaxPasswordLen])
  ⟨h.1.1, h.2.2.2.2.2.1⟩

end ReactorServer
