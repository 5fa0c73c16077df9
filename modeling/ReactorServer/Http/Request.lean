import ReactorServer.Config

/-!
# Reading a request

The parsers of `Connection.cpp`, which all work on the flat text of one request: `parseMethod`,
`parseUrl`, `parseBody`, `getJsonValue`, `findHeader`, `parseBearerToken`, and the two questions
the request loop asks of a header block, `requestContentLength` and `wantKeepAlive`.

None of them shares a tokenizer with another: the method is whatever stands before the first
space, a header is a line with a colon, and the request line is just the first of the lines
`findHeader` walks over.  That they agree on well-formed input is therefore something to prove,
not something to read off.
-/

set_option autoImplicit false

namespace ReactorServer

open Search

/-- `Connection::parseMethod`: the text before the first space, `GET` if there is none. -/
def parseMethod (request : Bytes) : Bytes :=
  match indexOf [32] request with
  | none => lit "GET"
  | some pos => request.take pos

/-- `Connection::parseUrl`: the text between the first two spaces, `/` if there are fewer. -/
def parseUrl (request : Bytes) : Bytes :=
  match indexOf [32] request with
  | none => lit "/"
  | some pos1 =>
    match indexOf [32] (request.drop (pos1 + 1)) with
    | none => lit "/"
    | some len => (request.drop (pos1 + 1)).take len

/-- `Connection::parseBody`: everything after the first blank line. -/
def parseBody (request : Bytes) : Bytes :=
  match indexOf crlf2 request with
  | none => []
  | some pos => request.drop (pos + 4)

/-- `Connection::getJsonValue`: the text from the first occurrence of `"key":"` to the next
quote. -/
def getJsonValue (json key : Bytes) : Bytes :=
  let search := lit "\"" ++ key ++ lit "\":\""
  match indexOf search json with
  | none => []
  | some pos =>
    let rest := json.drop (pos + search.length)
    match indexOf (lit "\"") rest with
    | none => []
    | some len => rest.take len

/-! ## Header lines -/

/-- The name of a header field as `findHeader` compares it: lower-cased, without trailing
blanks. -/
def fieldName (name : Bytes) : Bytes := (name.map tolower).rdropWhile isBlank

/-- The value of a header line, if its name is `lowerName`: the raw text after the first colon. -/
def lineValue (lowerName line : Bytes) : Option Bytes :=
  match indexOf [58] line with
  | none => none
  | some colon =>
    if fieldName (line.take colon) = lowerName then some (line.drop (colon + 1)) else none

/-- The loop of `findHeader`.  The cursor `p` is the text from `p` on; every turn but the last
moves it by at least two bytes, so the length of the text is fuel enough. -/
def findHeaderFrom (lowerName : Bytes) : ℕ → Bytes → Bytes
  | 0, _ => []
  | fuel + 1, text =>
    if text = [] then []
    else
      let e := (indexOf crlf text).getD text.length
      match lineValue lowerName (text.take e) with
      | some value => value
      | none => findHeaderFrom lowerName fuel (text.drop (e + 2))

/-- `findHeader`: the value of the first line with the given name, empty if there is none. -/
def findHeader (headers lowerName : Bytes) : Bytes :=
  findHeaderFrom lowerName headers.length headers

/-- `requestContentLength`: what the `Content-Length` line of a header block says, zero if it is
absent or not positive. -/
def requestContentLength (headers : Bytes) : ℕ :=
  let value := findHeader headers (lit "content-length")
  if value = [] then 0
  else (strtol value).1.toNat

/-- `wantKeepAlive`: the `Connection` header decides if it says `close` or `keep-alive`; otherwise
the connection persists when `HTTP/1.1` occurs in the request. -/
def wantKeepAlive (request headers : Bytes) : Bool :=
  let connVal := (findHeader headers (lit "connection")).map tolower
  if occurs (lit "close") connVal then false
  else if occurs (lit "keep-alive") connVal then true
  else occurs (lit "HTTP/1.1") request

/-- `Connection::parseBearerToken`: the token of the `Authorization` header, trimmed and capped,
empty if there is none. -/
def parseBearerToken (request : Bytes) : Bytes :=
  let headers := match indexOf crlf2 request with
    | none => request
    | some headerEnd => request.take headerEnd
  let value := (findHeader headers (lit "authorization")).dropWhile isBlank
  let scheme := lit "bearer "
  if value.length < scheme.length then []
  else if (value.take scheme.length).map tolower ≠ scheme then []
  else
    let token := (value.drop scheme.length).rdropWhile isBlank
    if token.length > kTokenLen * 2 then [] else token

end ReactorServer
