import ReactorServer.Connection.Send

/-!
# The request loop

`processRequests` cuts complete requests off `inputBuffer_` and sends each to its route, and
`handleMessage` fills the buffer from the socket first.  What one turn of the loop finds in the
buffer is a question about bytes alone, `nextFrame`; the rest of the turn is `serve`, which
answers the request on this thread or hands it to the database pool.

`Session` puts calls in sequence.  It is the life of one connection: events are delivered to it
one after another until its delete callback has been called.
-/

set_option autoImplicit false

namespace ReactorServer

open Search

/-! ## What is in the buffer -/

/-- What a turn of the request loop finds in the input buffer. -/
inductive Frame where
  /-- Not yet a complete request. -/
  | incomplete
  /-- No header block in sight and already too many bytes. -/
  | headerTooLarge
  /-- The header block announces a body that is too large. -/
  | bodyTooLarge
  /-- A complete request: its header block, its text, and what comes after it. -/
  | request (headers text rest : Bytes)
  deriving DecidableEq, Repr

/-- The head of the loop of `processRequests`: look for the blank line, check the sizes, and cut. -/
def nextFrame (buf : Bytes) : Frame :=
  match indexOf crlf2 buf with
  | none =>
    if kMaxHeaderBytes > 0 ∧ buf.length > kMaxHeaderBytes then .headerTooLarge else .incomplete
  | some headerEnd =>
    let headers := buf.take headerEnd
    let bodyLen := requestContentLength headers
    if kMaxBodyBytes > 0 ∧ bodyLen > kMaxBodyBytes then .bodyTooLarge
    else
      let total := headerEnd + 4 + bodyLen
      if buf.length < total then .incomplete
      else .request headers (buf.take total) (buf.drop total)

/-! ## The routes -/

/-- `Connection::checkCredentials`: the error it answers with, if it does not accept. -/
def checkCredentials (username password : Bytes) : Option Bytes :=
  if username = [] ∨ password = [] then some (errorJson "missing username or password")
  else if username.length > kMaxUsernameLen ∨ password.length > kMaxPasswordLen then
    some (errorJson "username or password too long")
  else none

/-- The part `handleRegister` and `handleLogin` share: check the credentials, answer 400 or submit
the task. -/
def handleCredentials (task : Bytes → Bytes → Task) (c : Conn) (k : Kernel) (request : Bytes)
    (keepAlive : Bool) : Run :=
  let body := parseBody request
  let username := getJsonValue body (lit "username")
  let password := getJsonValue body (lit "password")
  match checkCredentials username password with
  | some error => sendJson c k 400 error keepAlive
  | none => ⟨c, k, [.submit (task username password)]⟩

/-- `Connection::handleRegister`, up to the submission of its task. -/
def handleRegister (c : Conn) (k : Kernel) (request : Bytes) (keepAlive : Bool) : Run :=
  handleCredentials (.register c.fd keepAlive) c k request keepAlive

/-- `Connection::handleLogin`, up to the submission of its task. -/
def handleLogin (c : Conn) (k : Kernel) (request : Bytes) (keepAlive : Bool) : Run :=
  handleCredentials (.login c.fd keepAlive) c k request keepAlive

/-- The part `handleProfile` and `handleLogout` share: answer 401 without a token, or submit the
task. -/
def handleToken (task : Bytes → Task) (c : Conn) (k : Kernel) (request : Bytes)
    (keepAlive : Bool) : Run :=
  let token := parseBearerToken request
  if token = [] then sendJson c k 401 (errorJson "missing token") keepAlive
  else ⟨c, k, [.submit (task token)]⟩

/-- `Connection::handleProfile`, up to the submission of its task. -/
def handleProfile (c : Conn) (k : Kernel) (request : Bytes) (keepAlive : Bool) : Run :=
  handleToken (.profile c.fd keepAlive) c k request keepAlive

/-- `Connection::handleLogout`, up to the submission of its task. -/
def handleLogout (c : Conn) (k : Kernel) (request : Bytes) (keepAlive : Bool) : Run :=
  handleToken (.logout c.fd keepAlive) c k request keepAlive

/-- The member function pointer `dbHandler`. -/
def dbHandler (method url : Bytes) : Option (Conn → Kernel → Bytes → Bool → Run) :=
  if method = lit "POST" ∧ url = lit "/register" then some handleRegister
  else if method = lit "POST" ∧ url = lit "/login" then some handleLogin
  else if method = lit "POST" ∧ url = lit "/logout" then some handleLogout
  else if method = lit "GET" ∧ url = lit "/profile" then some handleProfile
  else none

/-- The inline page of a URL, through `sendResponse`. -/
def servePage (c : Conn) (k : Kernel) (url : Bytes) (keepAlive : Bool) : Run :=
  let statusCode := if url = lit "/" ∨ url = lit "/hello" then 200 else 404
  sendResponse c k statusCode (lit "text/html") (getResponse url) keepAlive

/-- The answer to one request: 429 if the rate limiter says no, otherwise its route.  `file` is the
static page, if it could be opened. -/
def serve (file : Option Bytes) (c : Conn) (k : Kernel) (request : Bytes)
    (keepAlive allowed : Bool) : Run :=
  let method := parseMethod request
  let url := parseUrl request
  if !allowed then
    sendResponse c k 429 (lit "application/json") (errorJson "too many requests") keepAlive
  else
    match dbHandler method url with
    | some handler => handler c k request keepAlive
    | none =>
      if url = lit "/" then
        match file with
        | some content => sendFile c k 200 (lit "text/html") content keepAlive
        | none => servePage c k url keepAlive
      else servePage c k url keepAlive

/-! ## The loop -/

/-- `allowRequest`: the next verdict. -/
def allowRequest (k : Kernel) : Bool × Kernel :=
  match k.verdicts with
  | [] => (true, k)
  | v :: vs => (v, { k with verdicts := vs })

/-- A rejection: the buffer is cleared and a closing response is sent. -/
def rejectInput (c : Conn) (k : Kernel) (status : ℕ) (message : String) : Run :=
  (sendResponse { c with inputBuffer := [] } k status (lit "application/json") (errorJson message)
    false).after [.frame, .reject status]

/-- A turn of the loop that has found a complete request. -/
def turn (file : Option Bytes) (c : Conn) (k : Kernel) (headers text rest : Bytes) : Run :=
  let keepAlive := wantKeepAlive text headers
  let (allowed, k') := allowRequest k
  (serve file { c with inputBuffer := rest } k' text keepAlive allowed).after
    [.frame, .dispatch ⟨text, keepAlive, allowed, c.outputPending⟩]

/-- The loop of `processRequests`.  Every turn that goes round again has cut off at least the blank
line, so the length of the buffer bounds the number of turns. -/
def processLoop (file : Option Bytes) : ℕ → Conn → Kernel → Run
  | 0, c, k => ⟨c, k, []⟩
  | fuel + 1, c, k =>
    match nextFrame c.inputBuffer with
    | .incomplete => ⟨c, k, [.frame]⟩
    | .headerTooLarge => rejectInput c k 400 "request header too large"
    | .bodyTooLarge => rejectInput c k 413 "request body too large"
    | .request headers text rest =>
      let r := turn file c k headers text rest
      if wantKeepAlive text headers then r.andThen (processLoop file fuel) else r

/-- `Connection::processRequests`. -/
def processRequests (file : Option Bytes) (c : Conn) (k : Kernel) : Run :=
  processLoop file (c.inputBuffer.length + 1) c k

/-- The loop of `handleMessage`: read until `EAGAIN`, which is what an exhausted list stands for.
The flag says that the loop ended that way; otherwise the peer has closed, or `read` failed. -/
def readLoop (c : Conn) : List ReadResult → Conn × List Act × Bool
  | [] => (c, [.read (.fail .EAGAIN)], true)
  | .got [] :: _ => (c, [.read (.got [])], false)
  | .got (b :: bs) :: rs =>
    let (c', acts, drained) := readLoop { c with inputBuffer := c.inputBuffer ++ b :: bs } rs
    (c', .read (.got (b :: bs)) :: .touch :: acts, drained)
  | .fail .EINTR :: rs =>
    let (c', acts, drained) := readLoop c rs
    (c', .read (.fail .EINTR) :: acts, drained)
  | .fail .EAGAIN :: _ => (c, [.read (.fail .EAGAIN)], true)
  | .fail .other :: _ => (c, [.read (.fail .other)], false)

/-- `Connection::handleMessage`. -/
def handleMessage (file : Option Bytes) (c : Conn) (now : ℕ) (reads : List ReadResult)
    (k : Kernel) : Run :=
  let (c', acts, drained) := readLoop { c with lastActiveSec := now } reads
  if drained then (processRequests file c' k).after (.touch :: acts)
  else ⟨c', k, .touch :: acts ++ [.delete]⟩

/-! ## The life of a connection -/

/-- An event delivered to a connection, with the answers its handler is going to get. -/
inductive Event where
  /-- `handleMessage`, at a time, with the results of `read`. -/
  | readable (now : ℕ) (reads : List ReadResult) (k : Kernel)
  /-- `handleWrite`. -/
  | writable (k : Kernel)
  deriving DecidableEq, Repr

/-- The answers an event's handler gets to its writes. -/
def Event.kernel : Event → Kernel
  | .readable _ _ k => k
  | .writable k => k

/-- The handler of an event. -/
def handle (file : Option Bytes) (c : Conn) : Event → Run
  | .readable now reads k => handleMessage file c now reads k
  | .writable k => handleWrite c k

/-- A connection and everything it has done so far. -/
structure Session where
  /-- The connection. -/
  conn : Conn
  /-- Its actions, oldest first. -/
  trace : List Act
  deriving DecidableEq, Repr

namespace Session

/-- A connection that has just been accepted. -/
def start (fd now : ℕ) : Session := ⟨(newConn fd now).1, (newConn fd now).2⟩

/-- Its delete callback has not been called. -/
def alive (s : Session) : Bool := decide (.delete ∉ s.trace)

/-- Deliver an event; a connection that has been deleted gets none. -/
def step (file : Option Bytes) (s : Session) (e : Event) : Session :=
  if s.alive then
    let r := handle file s.conn e
    ⟨r.conn, s.trace ++ r.acts⟩
  else s

/-- Deliver events one after another. -/
def run (file : Option Bytes) (s : Session) (es : List Event) : Session := es.foldl (step file) s

end Session

end ReactorServer
