import ReactorServer.Connection.Defs
import ReactorServer.Http.Json
import ReactorServer.Db.Sql
import ReactorServer.Lib.Program

/-!
# The tasks of the database pool

What a worker does for `/register`, `/login`, `/profile` and `/logout`: the closures that the
handlers submit, and the functions of `RedisPool` and `MysqlPool` they call.  Each is a `Program`
over the calls that leave the process or touch a pool, so that nothing is assumed about how they
come out.  The build defines `USE_REDIS`.

Strings go to Redis through `redisCommand` with `%s` and come back from MySQL as `row[0]`, so they
pass through `cstr` on the way.
-/

set_option autoImplicit false

namespace ReactorServer

/-! ## Calls -/

/-- A Redis command, with the arguments as they reach the server. -/
inductive RedisCommand where
  | get (key : Bytes)
  | setex (key : Bytes) (ttl : ℕ) (value : Bytes)
  | del (key : Bytes)
  deriving DecidableEq, Repr

/-- A Redis reply. -/
inductive RedisReply where
  | string (value : Bytes)
  | nil
  | integer (n : ℕ)
  | status
  | error
  deriving DecidableEq, Repr

/-- The result of `mysql_query`, and of `mysql_store_result` behind it: the first column of the
rows, or `none` when there is no result set. -/
inductive QueryResult where
  | failed
  | done (rows : Option (List Bytes))
  deriving DecidableEq, Repr

/-- The calls of a task. -/
inductive Call where
  /-- `RedisPool::getConn` -/
  | redisGetConn
  /-- `redisCommand` -/
  | redisCommand (conn : ℕ) (cmd : RedisCommand)
  /-- `RedisPool::releaseConn` -/
  | redisRelease (conn : ℕ)
  /-- `RedisPool::discardBrokenConn` -/
  | redisDiscard (conn : ℕ)
  /-- `MysqlPool::getConn` -/
  | mysqlGetConn
  /-- `mysql_query`, and `mysql_store_result` -/
  | mysqlQuery (conn : ℕ) (sql : Bytes)
  /-- `MysqlPool::releaseConn` -/
  | mysqlRelease (conn : ℕ)
  /-- The draws of `generateToken` from its random number generator -/
  | generateToken
  /-- `sendJson`, with the descriptor and the keep-alive flag of the task -/
  | send (statusCode : ℕ) (body : Bytes)
  deriving DecidableEq, Repr

/-- What a call returns when it does not throw. -/
@[reducible] def Call.Res : Call → Type
  | .redisGetConn => Option ℕ
  | .redisCommand .. => Option RedisReply
  | .mysqlGetConn => Option ℕ
  | .mysqlQuery .. => QueryResult
  | .generateToken => Bytes
  | .redisRelease _ | .redisDiscard _ | .mysqlRelease _ | .send .. => PUnit

/-- A task or a part of one. -/
abbrev Job (α : Type) := Program Call Call.Res α

/-- Make a call. -/
abbrev perform (o : Call) : Job o.Res := Program.perform o

/-! ## `RedisPool` -/

/-- `enum class RedisStatus`. -/
inductive RedisStatus where
  | Ok
  | NotFound
  | Error
  deriving DecidableEq, Repr

/-- `RedisPool::get`. -/
def redisGet (key : Bytes) : Job (Bytes × RedisStatus) := do
  match ← perform .redisGetConn with
  | none => return ([], .Error)
  | some conn =>
    match ← perform (.redisCommand conn (.get (cstr key))) with
    | none =>
      perform (.redisDiscard conn)
      return ([], .Error)
    | some (.string value) =>
      perform (.redisRelease conn)
      return (value, .Ok)
    | some _ =>
      perform (.redisRelease conn)
      return ([], .NotFound)

/-- `RedisPool::setex`. -/
def redisSetex (key : Bytes) (ttl : ℕ) (value : Bytes) : Job Bool := do
  match ← perform .redisGetConn with
  | none => return false
  | some conn =>
    match ← perform (.redisCommand conn (.setex (cstr key) ttl (cstr value))) with
    | none =>
      perform (.redisDiscard conn)
      return false
    | some reply =>
      perform (.redisRelease conn)
      return reply != .error

/-- `RedisPool::del`. -/
def redisDel (key : Bytes) : Job RedisStatus := do
  match ← perform .redisGetConn with
  | none => return .Error
  | some conn =>
    match ← perform (.redisCommand conn (.del (cstr key))) with
    | none =>
      perform (.redisDiscard conn)
      return .Error
    | some (.integer (_ + 1)) =>
      perform (.redisRelease conn)
      return .Ok
    | some _ =>
      perform (.redisRelease conn)
      return .NotFound

/-- The calls of these functions: they lease a connection, give it back or discard it, and send one
command in between. -/
def RedisCall (cmd : RedisCommand) : Call → Prop
  | .redisGetConn => True
  | .redisRelease _ => True
  | .redisDiscard _ => True
  | .redisCommand _ cmd' => cmd' = cmd
  | _ => False

theorem redisGet_calls (key : Bytes) :
    Program.Calls (RedisCall (.get (cstr key))) (redisGet key) := by
  refine Program.calls_bind (Program.calls_perform trivial) fun conn ↦ ?_
  cases conn with
  | none => trivial
  | some conn =>
    refine Program.calls_bind (Program.calls_perform rfl) fun reply ↦ ?_
    rcases reply with _ | (_ | _ | _ | _ | _)
    all_goals exact Program.calls_bind (Program.calls_perform trivial) fun _ ↦ trivial

theorem redisSetex_calls (key : Bytes) (ttl : ℕ) (value : Bytes) :
    Program.Calls (RedisCall (.setex (cstr key) ttl (cstr value))) (redisSetex key ttl value) := by
  refine Program.calls_bind (Program.calls_perform trivial) fun conn ↦ ?_
  cases conn with
  | none => trivial
  | some conn =>
    refine Program.calls_bind (Program.calls_perform rfl) fun reply ↦ ?_
    cases reply
    all_goals exact Program.calls_bind (Program.calls_perform trivial) fun _ ↦ trivial

theorem redisDel_calls (key : Bytes) :
    Program.Calls (RedisCall (.del (cstr key))) (redisDel key) := by
  refine Program.calls_bind (Program.calls_perform trivial) fun conn ↦ ?_
  cases conn with
  | none => trivial
  | some conn =>
    refine Program.calls_bind (Program.calls_perform rfl) fun reply ↦ ?_
    rcases reply with _ | (_ | _ | (_ | _) | _ | _)
    all_goals exact Program.calls_bind (Program.calls_perform trivial) fun _ ↦ trivial

/-! ## `MysqlGuard` -/

/-- The destructor of `MysqlGuard`. -/
def releaseGuard : Option ℕ → Job PUnit
  | none => pure ⟨⟩
  | some conn => perform (.mysqlRelease conn)

/-- A block with a `MysqlGuard` in it. -/
def withGuard {α : Type} (body : Option ℕ → Job α) : Job α := do
  let conn ← perform .mysqlGetConn
  Program.protect (releaseGuard conn) (body conn)

/-! ## The closures -/

/-- `sendJson` of an error object. -/
def sendError (statusCode : ℕ) (message : String) : Job PUnit :=
  perform (.send statusCode (errorJson message))

/-- `sendJson` of a message object. -/
def sendMessage (statusCode : ℕ) (message : String) : Job PUnit :=
  perform (.send statusCode (messageJson message))

/-- The closure of `handleRegister`. -/
def registerWork (username password : Bytes) : Job PUnit :=
  withGuard fun
    | none => sendError 503 "service unavailable"
    | some conn => do
      let escUser := cstr (mysqlEscape username)
      let escPass := cstr (mysqlEscape password)
      match ← perform (.mysqlQuery conn (cstr (selectExistsSql escUser))) with
      | .failed => sendError 500 "database error"
      | .done (some (_ :: _)) => sendError 409 "user already exists"
      | .done _ =>
        match ← perform (.mysqlQuery conn (cstr (insertSql escUser escPass))) with
        | .failed => sendError 500 "database error"
        | .done _ => sendMessage 200 "register success"

/-- What the lookup of a password comes to. -/
inductive Lookup where
  /-- An error has been answered. -/
  | answered
  | notFound
  | found (dbPassword : Bytes)
  deriving DecidableEq, Repr

/-- The part of `handleLogin` that asks MySQL. -/
def mysqlLookup (username : Bytes) : Job Lookup :=
  withGuard fun
    | none => do
      sendError 503 "service unavailable"
      return .answered
    | some conn => do
      let escUser := cstr (mysqlEscape username)
      match ← perform (.mysqlQuery conn (cstr (selectPasswordSql escUser))) with
      | .failed =>
        sendError 500 "database error"
        return .answered
      | .done (some (row :: _)) =>
        let dbPassword := cstr row
        let _ ← redisSetex (lit "user:" ++ username) kUserCacheTtlSec dbPassword
        return .found dbPassword
      | .done _ => return .notFound

/-- The part of `handleLogin` that finds the password: the cache, and MySQL when it misses. -/
def lookupPassword (username : Bytes) : Job Lookup := do
  let (cached, st) ← redisGet (lit "user:" ++ username)
  if st = .Ok ∧ cached ≠ [] then return .found cached else mysqlLookup username

/-- The JSON text of a successful login. -/
def loginJson (token : Bytes) : Bytes :=
  lit "\x7b\"message\":\"login success\",\"token\":\"" ++ token ++ lit "\"\x7d"

/-- The end of `handleLogin`, with the password checked. -/
def openSession (username : Bytes) : Job PUnit := do
  let token ← perform .generateToken
  if ← redisSetex (lit "session:" ++ token) kSessionTtlSec username then
    perform (.send 200 (loginJson token))
  else sendError 503 "service unavailable"

/-- The closure of `handleLogin`. -/
def loginWork (username password : Bytes) : Job PUnit := do
  match ← lookupPassword username with
  | .answered => return ⟨⟩
  | .notFound => sendError 401 "user not found"
  | .found dbPassword =>
    if password ≠ dbPassword then sendError 401 "wrong password" else openSession username

/-- The JSON text of a profile. -/
def profileJson (username : Bytes) : Bytes :=
  lit "\x7b\"username\":\"" ++ jsonEscape username ++ lit "\"\x7d"

/-- The closure of `handleProfile`. -/
def profileWork (token : Bytes) : Job PUnit := do
  let (username, st) ← redisGet (lit "session:" ++ token)
  if st = .Error then sendError 503 "service unavailable"
  else if st = .NotFound ∨ username = [] then sendError 401 "invalid or expired token"
  else perform (.send 200 (profileJson username))

/-- The closure of `handleLogout`. -/
def logoutWork (token : Bytes) : Job PUnit := do
  match ← redisDel (lit "session:" ++ token) with
  | .Error => sendError 503 "service unavailable"
  | .NotFound => sendError 401 "invalid or expired token"
  | .Ok => sendMessage 200 "logout success"

/-- `runDbTask`: an exception is answered with 500. -/
def runDbTask (work : Job PUnit) : Job PUnit :=
  work.handle (sendError 500 "internal error")

/-- What a worker runs for a task. -/
def Task.work : Task → Job PUnit
  | .register _ _ username password => runDbTask (registerWork username password)
  | .login _ _ username password => runDbTask (loginWork username password)
  | .profile _ _ token => runDbTask (profileWork token)
  | .logout _ _ token => runDbTask (logoutWork token)

end ReactorServer
