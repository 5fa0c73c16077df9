import ReactorServer.Db.Pool
import ReactorServer.Lib.History
import Mathlib.Data.Set.Insert

/-!
# What the four routes are for

`/register`, `/login`, `/profile` and `/logout`, without pools, caches, statements and commands: a
`Service` knows its users, the sessions that are open and the tokens it has issued, and carries out
one operation at a time.  `Service.Answers` says what it answers and what it knows afterwards.  An
operation may also fail, and whoever gets an error does not learn whether it has been carried out
(`Service.Does`).  A session may go away at any time.

`Auth.history` is what the clients of the database pool see: tasks are submitted and answered.
`Db/Linear` relates the two.
-/

set_option autoImplicit false

namespace ReactorServer

open Machine Concurrent

/-! ## Operations and their answers -/

/-- A request to one of the four routes. -/
inductive Operation where
  | register (username password : Bytes)
  | login (username password : Bytes)
  | profile (token : Bytes)
  | logout (token : Bytes)
  deriving DecidableEq, Repr

/-- What is sent back. -/
structure Result where
  statusCode : ℕ
  body : Bytes
  deriving DecidableEq, Repr

/-- An error object. -/
def Result.error (statusCode : ℕ) (message : String) : Result := ⟨statusCode, errorJson message⟩

/-- A message object. -/
def Result.message (statusCode : ℕ) (message : String) : Result :=
  ⟨statusCode, messageJson message⟩

/-- The answers that say that something went wrong. -/
def Result.failures : List Result :=
  [.error 503 "service unavailable", .error 500 "database error", .error 500 "internal error"]

/-- The users and their passwords, the open sessions and the users they are of, and the tokens that
have been issued at some time. -/
@[ext]
structure Service where
  users : Bytes → Option Bytes
  sessions : Bytes → Option Bytes
  issued : Set Bytes

namespace Service

/-- Nobody has been here. -/
def empty : Service := ⟨fun _ ↦ none, fun _ ↦ none, ∅⟩

/-- **What an operation does when it is carried out.** -/
inductive Answers (s : Service) : Operation → Result → Service → Prop where
  | registered {u p : Bytes} (hnew : s.users u = none) :
      Answers s (.register u p) (.message 200 "register success")
        { s with users := Function.update s.users u (some p) }
  | taken {u p q : Bytes} (huser : s.users u = some q) :
      Answers s (.register u p) (.error 409 "user already exists") s
  | loggedIn {u p t : Bytes} (huser : s.users u = some p) (hnew : t ∉ s.issued) :
      Answers s (.login u p) ⟨200, loginJson t⟩
        { s with sessions := Function.update s.sessions t (some u), issued := insert t s.issued }
  | unknown {u p : Bytes} (huser : s.users u = none) :
      Answers s (.login u p) (.error 401 "user not found") s
  | wrong {u p q : Bytes} (huser : s.users u = some q) (hne : q ≠ p) :
      Answers s (.login u p) (.error 401 "wrong password") s
  | shown {t u : Bytes} (hsession : s.sessions t = some u) :
      Answers s (.profile t) ⟨200, profileJson u⟩ s
  | notShown {t : Bytes} (hsession : s.sessions t = none) :
      Answers s (.profile t) (.error 401 "invalid or expired token") s
  | loggedOut {t u : Bytes} (hsession : s.sessions t = some u) :
      Answers s (.logout t) (.message 200 "logout success")
        { s with sessions := Function.update s.sessions t none }
  | notLoggedOut {t : Bytes} (hsession : s.sessions t = none) :
      Answers s (.logout t) (.error 401 "invalid or expired token") s

/-- An operation is carried out and answered, or it fails, and then it may have been carried out. -/
def Does (s : Service) (op : Operation) (r : Result) (s' : Service) : Prop :=
  s.Answers op r s' ∨ r ∈ Result.failures ∧ (s' = s ∨ ∃ r', s.Answers op r' s')

/-- A session goes away. -/
def Expires (s s' : Service) : Prop :=
  ∃ t, s' = { s with sessions := Function.update s.sessions t none }

end Service

/-- The service, as a sequential specification. -/
def service : Object Service Operation Result := ⟨Service.Does, Service.Expires⟩

/-- Whatever has been carried out can be answered with a failure. -/
theorem covers_failure {r r' : Result} (h : r' ∈ Result.failures) : service.Covers r r' := by
  rintro s op s' (hanswers | ⟨-, hdone⟩)
  · exact .inr ⟨h, .inr ⟨r, hanswers⟩⟩
  · exact .inr ⟨h, hdone⟩

theorem does_failure {r : Result} (h : r ∈ Result.failures) (s : Service) (op : Operation) :
    service.does s op r s :=
  .inr ⟨h, .inl rfl⟩

/-! ## What the clients see -/

/-- The operation that a task is for. -/
def Task.operation : Task → Operation
  | .register _ _ username password => .register username password
  | .login _ _ username password => .login username password
  | .profile _ _ token => .profile token
  | .logout _ _ token => .logout token

/-- As it is seen from outside. -/
def Reply.seen (r : Reply) : Seen Operation Result := .respond r.worker ⟨r.statusCode, r.body⟩

namespace Auth

/-- What is seen of a move: a task is submitted, or it is answered. -/
def seen (s : Auth) : Move → List (Seen Operation Result)
  | .start t => [.invoke s.running.length t.operation]
  | m => (s.reply m).map Reply.seen

/-- What is seen of a run. -/
def history (s : Auth) (ms : List Move) : List (Seen Operation Result) := trace step seen s ms

end Auth

/-! ## Where the routes do what they are for -/

/-- No byte string of a task is cut short on its way to a store, and there is a name to log in
under. -/
def Task.Exact : Task → Prop
  | .register _ _ _ password => 0 ∉ password
  | .login _ _ username _ => 0 ∉ username ∧ username ≠ []
  | .profile _ _ token => 0 ∉ token
  | .logout _ _ token => 0 ∉ token

instance : ∀ t : Task, Decidable t.Exact
  | .register _ _ _ password => inferInstanceAs (Decidable (0 ∉ password))
  | .login _ _ username _ => inferInstanceAs (Decidable (0 ∉ username ∧ username ≠ []))
  | .profile _ _ token => inferInstanceAs (Decidable (0 ∉ token))
  | .logout _ _ token => inferInstanceAs (Decidable (0 ∉ token))

theorem Task.Exact.clean {t : Task} (h : t.Exact) : t.Clean := by
  cases t with
  | register fd keepAlive username password => exact h
  | login fd keepAlive username password => exact h.1
  | profile fd keepAlive token => exact h
  | logout fd keepAlive token => trivial

/-- A failure that the caller takes for something else: an error that Redis replies to a `GET` or a
`DEL` of a session is read as "no such session", and a missing result set of the `SELECT` of a
password as "no such user". -/
def Call.isMisread : Call → Outcome → Bool
  | .redisCommand _ (.get key), .refused => (lit "session:").isPrefixOf key
  | .redisCommand _ (.del _), .refused => true
  | .mysqlQuery _ sql, .noResult =>
    match parseSql sql with
    | some (.selectPassword _) => true
    | _ => false
  | _, _ => false

/-- The condition on a move: a task that is started is exact, and no failure is misread. -/
def Auth.Legible (s : Auth) : Move → Prop
  | .start t => t.Exact
  | .call i out => ∀ o ∈ s.nextCall i, o.isMisread out = false
  | .expire _ => True

instance (s : Auth) : ∀ m : Move, Decidable (s.Legible m)
  | .start t => inferInstanceAs (Decidable t.Exact)
  | .call i out => inferInstanceAs (Decidable (∀ o ∈ s.nextCall i, o.isMisread out = false))
  | .expire _ => inferInstanceAs (Decidable True)

theorem Auth.Legible.clean {s : Auth} {m : Move} (h : s.Legible m) : m.Clean := by
  cases m with
  | start t => exact Task.Exact.clean h
  | call i out => trivial
  | expire key => trivial

end ReactorServer
