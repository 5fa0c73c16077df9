import ReactorServer.Db.Tasks

/-!
# What the calls of a task do

The two stores behind the pools, and how they answer.  The users table is a map keyed by the exact
bytes of the username, with the `UNIQUE` constraint on it; Redis is a map from keys to values.  A
call can come out in many ways, and `Outcome` says in which: a pool can be exhausted, a command can
be answered with an error, a reply can be lost after the command has taken effect, and so on.
`Store.exec` is the answer to a call, and what becomes of the stores, for every outcome that is
possible for it.
-/

set_option autoImplicit false

namespace ReactorServer

/-- The users table, the contents of Redis, and the tokens that have been drawn. -/
structure Store where
  users : Bytes → Option Bytes
  redis : Bytes → Option Bytes
  drawn : List Bytes

/-- How a call comes out. -/
inductive Outcome where
  /-- It is served. -/
  | served
  /-- A pool gives out this connection. -/
  | handle (n : ℕ)
  /-- The random draws give this token. -/
  | token (t : Bytes)
  /-- It is refused, and nothing has happened: a pool times out, Redis replies with an error, a
  query fails. -/
  | refused
  /-- The reply is lost, and the caller sees a failure. -/
  | lost (executed : Bool)
  /-- The query succeeds, and `mysql_store_result` returns no result set. -/
  | noResult
  /-- It throws. -/
  | throws
  deriving DecidableEq, Repr

namespace Store

/-- Nothing stored and nothing drawn. -/
def empty : Store := ⟨fun _ ↦ none, fun _ ↦ none, []⟩

/-- A Redis command. -/
def redisRun (s : Store) : RedisCommand → Store × RedisReply
  | .get key => (s, (s.redis key).elim .nil .string)
  | .setex key _ value => ({ s with redis := Function.update s.redis key (some value) }, .status)
  | .del key =>
    ({ s with redis := Function.update s.redis key none },
      .integer (if (s.redis key).isSome then 1 else 0))

/-- An SQL statement. -/
def mysqlRun (s : Store) : Stmt → Store × QueryResult
  | .selectExists user =>
    (s, .done (some (if (s.users user).isSome then [lit "1"] else [])))
  | .selectPassword user => (s, .done (some (s.users user).toList))
  | .insert user pass =>
    if (s.users user).isSome then (s, .failed)
    else ({ s with users := Function.update s.users user (some pass) }, .done none)

/-- An SQL text. -/
def mysqlQuery (s : Store) (sql : Bytes) : Store × QueryResult :=
  (parseSql sql).elim (s, .failed) s.mysqlRun

/-- The alphabet of tokens. -/
def charset : Bytes := lit "abcdefghijklmnopqrstuvwxyz0123456789"

/-- What `generateToken` can return: a new token. -/
def canDraw (s : Store) (t : Bytes) : Bool :=
  decide (t.length = kTokenLen) && t.all (· ∈ charset) && decide (t ∉ s.drawn)

/-- **A call and its outcome**: the stores afterwards, and what the caller gets, `none` for an
exception.  Not every outcome is possible for every call; `sendJson` does not throw, nor does a
destructor. -/
def exec (s : Store) : (o : Call) → Outcome → Option (Store × Option o.Res)
  | .redisGetConn, .handle n => some (s, some (some n))
  | .redisGetConn, .refused => some (s, some none)
  | .redisGetConn, .throws => some (s, none)
  | .redisCommand _ cmd, .served => some ((s.redisRun cmd).1, some (some (s.redisRun cmd).2))
  | .redisCommand _ _, .refused => some (s, some (some .error))
  | .redisCommand _ cmd, .lost executed =>
    some (if executed then (s.redisRun cmd).1 else s, some none)
  | .redisCommand _ _, .throws => some (s, none)
  | .redisRelease _, .served => some (s, some ⟨⟩)
  | .redisRelease _, .throws => some (s, none)
  | .redisDiscard _, .served => some (s, some ⟨⟩)
  | .redisDiscard _, .throws => some (s, none)
  | .mysqlGetConn, .handle n => some (s, some (some n))
  | .mysqlGetConn, .refused => some (s, some none)
  | .mysqlGetConn, .throws => some (s, none)
  | .mysqlQuery _ sql, .served => some ((s.mysqlQuery sql).1, some (s.mysqlQuery sql).2)
  | .mysqlQuery _ _, .refused => some (s, some .failed)
  | .mysqlQuery _ sql, .lost executed =>
    some (if executed then (s.mysqlQuery sql).1 else s, some .failed)
  | .mysqlQuery _ sql, .noResult =>
    match s.mysqlQuery sql with
    | (s', .failed) => some (s', some .failed)
    | (s', .done _) => some (s', some (.done none))
  | .mysqlQuery _ _, .throws => some (s, none)
  | .mysqlRelease _, .served => some (s, some ⟨⟩)
  | .generateToken, .token t =>
    if s.canDraw t then some ({ s with drawn := t :: s.drawn }, some t) else none
  | .generateToken, .throws => some (s, none)
  | .send .., .served => some (s, some ⟨⟩)
  | _, _ => none

variable {s s' : Store} {out : Outcome}

/-- **What a call can do to the stores**: nothing, or what its command or its statement does, or a
token is drawn. -/
theorem exec_store {o : Call} {r : Option o.Res} (h : s.exec o out = some (s', r)) :
    s' = s ∨ (∃ conn cmd, o = .redisCommand conn cmd ∧ s' = (s.redisRun cmd).1) ∨
      (∃ conn sql, o = .mysqlQuery conn sql ∧ s' = (s.mysqlQuery sql).1) ∨
      ∃ token, o = .generateToken ∧ s.canDraw token = true ∧ s' = { s with drawn := token :: s.drawn } := by
  cases o with
  | redisCommand conn cmd =>
    cases out with
    | served =>
      cases h
      exact .inr (.inl ⟨conn, cmd, rfl, rfl⟩)
    | lost executed =>
      cases h
      cases executed with
      | false => exact .inl rfl
      | true => exact .inr (.inl ⟨conn, cmd, rfl, rfl⟩)
    | refused =>
      cases h
      exact .inl rfl
    | throws =>
      cases h
      exact .inl rfl
    | _ => cases h
  | mysqlQuery conn sql =>
    cases out with
    | served =>
      cases h
      exact .inr (.inr (.inl ⟨conn, sql, rfl, rfl⟩))
    | lost executed =>
      cases h
      cases executed with
      | false => exact .inl rfl
      | true => exact .inr (.inr (.inl ⟨conn, sql, rfl, rfl⟩))
    | noResult =>
      rw [exec] at h
      refine .inr (.inr (.inl ⟨conn, sql, rfl, ?_⟩))
      cases hresult : s.mysqlQuery sql with
      | mk s₁ result =>
        rw [hresult] at h
        cases result with
        | failed =>
          cases h
          rfl
        | done rows =>
          cases h
          rfl
    | refused =>
      cases h
      exact .inl rfl
    | throws =>
      cases h
      exact .inl rfl
    | _ => cases h
  | generateToken =>
    cases out with
    | token token =>
      rw [exec] at h
      by_cases hdraw : s.canDraw token = true
      · rw [if_pos hdraw] at h
        cases h
        exact .inr (.inr (.inr ⟨token, rfl, hdraw, rfl⟩))
      · rw [if_neg hdraw] at h
        cases h
    | throws =>
      cases h
      exact .inl rfl
    | _ => cases h
  | _ => cases out <;> cases h <;> exact .inl rfl

theorem mysqlQuery_of_parse {sql : Bytes} {stmt : Stmt} (h : parseSql sql = some stmt) :
    s.mysqlQuery sql = s.mysqlRun stmt := by
  rw [mysqlQuery, h]
  rfl

/-- What an SQL text can do to the users table: add a row for a user who has none. -/
theorem mysqlQuery_cases (s : Store) (sql : Bytes) :
    (s.mysqlQuery sql).1 = s ∨
      ∃ user pass, parseSql sql = some (.insert user pass) ∧ s.users user = none ∧
        s.mysqlQuery sql = ({ s with users := Function.update s.users user (some pass) }, .done none) := by
  cases hstmt : parseSql sql with
  | none =>
    rw [mysqlQuery, hstmt]
    exact .inl rfl
  | some stmt =>
    rw [mysqlQuery, hstmt]
    cases stmt with
    | selectExists user => exact .inl rfl
    | selectPassword user => exact .inl rfl
    | insert user pass =>
      show (s.mysqlRun (.insert user pass)).1 = s ∨ ∃ user' pass', _ ∧ _ ∧ s.mysqlRun (.insert user pass) = _
      rw [mysqlRun]
      by_cases huser : (s.users user).isSome
      · rw [if_pos huser]
        exact .inl rfl
      · rw [if_neg huser]
        exact .inr ⟨user, pass, rfl, by simpa using huser, rfl⟩

/-- An `INSERT` that succeeds puts the row there. -/
theorem users_of_insert {sql user pass : Bytes} {rows : Option (List Bytes)}
    (hsql : parseSql sql = some (.insert user pass)) (h : (s.mysqlQuery sql).2 = .done rows) :
    (s.mysqlQuery sql).1.users user = some pass := by
  rw [mysqlQuery, hsql] at h ⊢
  change (s.mysqlRun (.insert user pass)).2 = .done rows at h
  show (s.mysqlRun (.insert user pass)).1.users user = some pass
  rw [mysqlRun] at h ⊢
  by_cases huser : (s.users user).isSome
  · rw [if_pos huser] at h
    cases h
  · rw [if_neg huser]
    exact Function.update_self ..

/-- A row of the users table stays. -/
theorem exec_users {o : Call} {r : Option o.Res} (h : s.exec o out = some (s', r)) {user pass : Bytes}
    (hrow : s.users user = some pass) : s'.users user = some pass := by
  rcases exec_store h with rfl | ⟨conn, cmd, -, rfl⟩ | ⟨conn, sql, -, rfl⟩ | ⟨token, -, -, rfl⟩
  · exact hrow
  · cases cmd <;> exact hrow
  · rcases s.mysqlQuery_cases sql with e | ⟨user', pass', -, hnone, e⟩
    · rw [e]
      exact hrow
    · have hne : user ≠ user' := by
        rintro rfl
        exact absurd (hnone.symm.trans hrow) (by simp)
      rw [e]
      exact (Function.update_of_ne hne ..).trans hrow
  · exact hrow

/-- A value that Redis returns is the one it has. -/
theorem exec_get {conn : ℕ} {key value : Bytes}
    (h : s.exec (.redisCommand conn (.get key)) out = some (s', some (some (.string value)))) :
    s.redis key = some value := by
  cases out with
  | served =>
    have hreply : (s.redis key).elim RedisReply.nil .string = .string value := by
      simpa [exec, redisRun] using (Prod.ext_iff.mp (Option.some.inj h)).2
    cases hvalue : s.redis key with
    | none => simp [hvalue] at hreply
    | some value' => simpa [hvalue] using hreply
  | _ => cases h

/-- A `DEL` that is answered, and not with an error, has been executed. -/
theorem exec_del {conn : ℕ} {key : Bytes} {reply : RedisReply}
    (h : s.exec (.redisCommand conn (.del key)) out = some (s', some (some reply)))
    (hout : out ≠ .refused) : s'.redis key = none := by
  cases out with
  | served =>
    cases h
    exact Function.update_self ..
  | refused => exact absurd rfl hout
  | _ => cases h

/-- A token that is drawn is a new one, of letters and digits. -/
theorem exec_token {token : Bytes} (h : s.exec .generateToken out = some (s', some token)) :
    token ∉ s.drawn ∧ 0 ∉ token ∧ s'.drawn = token :: s.drawn := by
  cases out with
  | token token' =>
    rw [exec] at h
    by_cases hdraw : s.canDraw token' = true
    · rw [if_pos hdraw] at h
      cases h
      rw [canDraw, Bool.and_eq_true, Bool.and_eq_true, List.all_eq_true] at hdraw
      refine ⟨by simpa using hdraw.2, fun h0 ↦ ?_, rfl⟩
      exact absurd (hdraw.1.2 0 h0) (by decide)
    · rw [if_neg hdraw] at h
      cases h
  | _ => cases h

/-- Tokens that have been drawn stay drawn. -/
theorem exec_drawn {o : Call} {r : Option o.Res} (h : s.exec o out = some (s', r)) {token : Bytes}
    (hdrawn : token ∈ s.drawn) : token ∈ s'.drawn := by
  rcases exec_store h with rfl | ⟨conn, cmd, -, rfl⟩ | ⟨conn, sql, -, rfl⟩ | ⟨token', -, -, rfl⟩
  · exact hdrawn
  · cases cmd <;> exact hdrawn
  · rcases s.mysqlQuery_cases sql with e | ⟨user, pass, -, -, e⟩
    · rwa [e]
    · rwa [e]
  · exact List.mem_cons_of_mem _ hdrawn

/-- A statement that succeeds has been executed. -/
theorem exec_done {conn : ℕ} {sql : Bytes} {rows : Option (List Bytes)}
    (h : s.exec (.mysqlQuery conn sql) out = some (s', some (.done rows))) :
    s' = (s.mysqlQuery sql).1 ∧
      ∃ rows', (s.mysqlQuery sql).2 = .done rows' ∧ (rows = rows' ∨ rows = none ∧ out = .noResult) := by
  cases out with
  | served =>
    obtain ⟨e, hresult⟩ := Prod.ext_iff.mp (Option.some.inj h)
    exact ⟨e.symm, rows, Option.some.inj hresult, .inl rfl⟩
  | noResult =>
    rw [exec] at h
    cases hresult : s.mysqlQuery sql with
    | mk s₁ result =>
      rw [hresult] at h
      cases result with
      | failed => cases h
      | done rows' =>
        cases h
        exact ⟨rfl, rows', rfl, .inr ⟨rfl, rfl⟩⟩
  | _ => cases h

end Store

end ReactorServer
