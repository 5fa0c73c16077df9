import ReactorServer.Config

/-!
# Building a response

`buildHttpResponse` and the pages and JSON texts the routes answer with.  A response is one flat
byte string; `fileHeader` is the part of the static page's response that is not the file itself.
-/

set_option autoImplicit false

namespace ReactorServer

/-- `statusText`: the reason phrase of a status code. -/
def statusText : ℤ → Bytes
  | 200 => lit "OK"
  | 400 => lit "Bad Request"
  | 401 => lit "Unauthorized"
  | 409 => lit "Conflict"
  | 413 => lit "Payload Too Large"
  | 429 => lit "Too Many Requests"
  | 500 => lit "Internal Server Error"
  | 503 => lit "Service Unavailable"
  | _ => lit "Not Found"

/-- The value of the `Connection` header of a response. -/
def connectionValue (keepAlive : Bool) : Bytes :=
  if keepAlive then lit "keep-alive" else lit "close"

/-- The header block of a response, up to and including the blank line. -/
def responseHeader (statusCode : ℤ) (reason contentType : Bytes) (length : ℕ) (keepAlive : Bool) :
    Bytes :=
  lit "HTTP/1.1 " ++ intDecimal statusCode ++ lit " " ++ reason ++ crlf ++
    lit "Content-Type: " ++ contentType ++ crlf ++
    lit "Content-Length: " ++ decimal length ++ crlf ++
    lit "Connection: " ++ connectionValue keepAlive ++ crlf2

/-- `Connection::buildHttpResponse`. -/
def buildHttpResponse (statusCode : ℤ) (contentType body : Bytes) (keepAlive : Bool) : Bytes :=
  responseHeader statusCode (statusText statusCode) contentType body.length keepAlive ++ body

/-- What `sendFile` puts in front of a file of the given size.  It writes the reason phrase `OK`
whatever the status code. -/
def fileHeader (statusCode : ℕ) (contentType : Bytes) (size : ℕ) (keepAlive : Bool) : Bytes :=
  responseHeader statusCode (lit "OK") contentType size keepAlive

/-- The response `sendJson` writes. -/
def jsonResponse (statusCode : ℕ) (body : Bytes) (keepAlive : Bool) : Bytes :=
  buildHttpResponse statusCode (lit "application/json") body keepAlive

/-- A JSON error object. -/
def errorJson (message : String) : Bytes :=
  lit "\x7b\"error\":\"" ++ lit message ++ lit "\"\x7d"

/-- A JSON message object. -/
def messageJson (message : String) : Bytes :=
  lit "\x7b\"message\":\"" ++ lit message ++ lit "\"\x7d"

/-- `Connection::getResponse`: the inline page of a URL. -/
def getResponse (url : Bytes) : Bytes :=
  if url = lit "/" then
    lit "<html><body><h1>Welcome to My HTTP Server</h1>" ++
      lit "<p>This is a simple HTTP server built with epoll reactor pattern.</p>" ++
      lit "<p>Try: <a href=\"/hello\">/hello</a></p>" ++
      lit "<p>API: POST /register, POST /login, GET /profile, POST /logout</p>" ++
      lit "</body></html>"
  else if url = lit "/hello" then
    lit "<html><body><h1>Hello!</h1></body></html>"
  else
    lit "<html><body><h1>404 Not Found</h1></body></html>"

end ReactorServer
