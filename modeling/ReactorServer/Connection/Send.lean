import ReactorServer.Connection.Defs

/-!
# Sending a response

The two ways a response leaves the server.  `sendResponse` and `sendFile` make it the pending
output of the connection and drain it with `writeFromBuffer`; what the socket does not take at
once stays in the buffer, `EPOLLOUT` is armed, and `handleWrite` goes on when it fires.
`sendJson` writes straight to the descriptor, keeps nothing, and stops at the first `EAGAIN`.

The source has three loops that push bytes into the socket, two in `writeFromBuffer` and one in
`sendHttpResponse`.  They differ in the call they make and in what they do when it fails, not in
how they go round, so there is one loop here, `drain`: a recursion over the results the kernel is
going to give.  With the list used up, the rest is taken whole.
-/

set_option autoImplicit false

namespace ReactorServer

/-! ## The channel -/

/-- `Epoll::updateChannel`: `ADD` the first time, `MOD` afterwards.  `inEpoll_` is set whatever
`epoll_ctl` returned. -/
def updateChannel (ch : Channel) : Channel × Act :=
  ({ ch with inEpoll := true }, .ctl (!ch.inEpoll) ch.events)

/-- `Channel::enableReadingET`. -/
def enableReadingET (ch : Channel) : Channel × Act :=
  updateChannel { ch with events :=
    { ch.events with epollin := true, epollpri := true, epollrdhup := true, epollet := true } }

/-- `Channel::enableWriting`. -/
def enableWriting (ch : Channel) : Channel × Act :=
  updateChannel { ch with events := { ch.events with epollout := true } }

/-- `Channel::disableWriting`. -/
def disableWriting (ch : Channel) : Channel × Act :=
  updateChannel { ch with events := { ch.events with epollout := false } }

/-- The constructor of `Connection`: the channel is registered for reading. -/
def newConn (fd now : ℕ) : Conn × List Act :=
  let (ch, a) := enableReadingET { events := {}, inEpoll := false }
  ({ fd := fd, channel := ch, writeBuf := [], writeIndex := 0, inputBuffer := [],
     closeAfterWrite := false, lastActiveSec := now, fileFd := none }, [a])

/-! ## The send loop -/

/-- How a send loop ends: with everything sent, at `EAGAIN`, or at an error or a count of zero. -/
inductive Exit where
  | sent
  | blocked
  | failed
  deriving DecidableEq, Repr

/-- What a send loop leaves behind: the number of bytes taken, the results it did not use, the
actions it performed, and how it ended. -/
structure Drain where
  taken : ℕ
  io : List WriteResult
  acts : List Act
  exit : Exit
  deriving DecidableEq, Repr

/-- One more call in front of the rest of a send loop, with which `n` bytes were taken. -/
def Drain.after (acts : List Act) (n : ℕ) (d : Drain) : Drain :=
  ⟨n + d.taken, d.io, acts ++ d.acts, d.exit⟩

/-- A send loop with `data` still to go.  `look` is what its test does, `call r bs` a call that
returned `r` and got rid of `bs`. -/
def drain (look : List Act) (call : WriteResult → Bytes → Act) (data : Bytes) :
    List WriteResult → Drain
  | [] =>
    if data = [] then ⟨0, [], look, .sent⟩
    else ⟨data.length, [], look ++ call (.took data.length) data :: look, .sent⟩
  | r :: rs =>
    if data = [] then ⟨0, r :: rs, look, .sent⟩
    else
      match r with
      | .took 0 => ⟨0, rs, look ++ [call r []], .failed⟩
      | .took (n + 1) =>
        (drain look call (data.drop (n + 1)) rs).after (look ++ [call r (data.take (n + 1))])
          (data.take (n + 1)).length
      | .fail .EINTR => (drain look call data rs).after (look ++ [call r []]) 0
      | .fail .EAGAIN => ⟨0, rs, look ++ [call r []], .blocked⟩
      | .fail .other => ⟨0, rs, look ++ [call r []], .failed⟩

/-! ## `writeFromBuffer` -/

/-- The first loop of `writeFromBuffer`: `write` until `writeBuf_` is empty. -/
def writeLoop (c : Conn) (io : List WriteResult) : Drain :=
  drain [.touch] (.io !c.closeAfterWrite) c.unwritten io

/-- The second loop: `sendfile` from `fileOffset_` until nothing of the file remains. -/
def fileLoop (c : Conn) (io : List WriteResult) : Drain :=
  drain [.touch] (.io !c.closeAfterWrite) c.unsentFile io

/-- `writeIndex_` after `n` more bytes. -/
def Conn.wrote (c : Conn) (n : ℕ) : Conn := { c with writeIndex := c.writeIndex + n }

/-- `fileOffset_` and `fileRemaining_` after `n` more bytes. -/
def Conn.wroteFile (c : Conn) (n : ℕ) : Conn :=
  { c with fileFd := c.fileFd.map fun f ↦ f.advance n }

/-- The end of `writeFromBuffer`, with everything sent: forget the output, disarm `EPOLLOUT`, and
close if that was announced. -/
def finishWrite (c : Conn) (k : Kernel) : Run :=
  let (ch, a) := disableWriting c.channel
  ⟨{ c with fileFd := none, writeBuf := [], writeIndex := 0, channel := ch }, k,
    [.complete, a, .touch] ++ if c.closeAfterWrite then [.delete] else []⟩

/-- A loop of `writeFromBuffer` that ended early: at an error the connection is deleted, at
`EAGAIN` the rest waits for `EPOLLOUT`. -/
def stopWrite (c : Conn) (k : Kernel) (exit : Exit) : Run :=
  if exit = .failed then ⟨c, k, [.delete]⟩
  else
    let (ch, a) := enableWriting c.channel
    ⟨{ c with channel := ch }, k, [a]⟩

/-- `Connection::writeFromBuffer`. -/
def writeFromBuffer (c : Conn) (k : Kernel) : Run :=
  let d₁ := writeLoop c k.io
  let c₁ := c.wrote d₁.taken
  if d₁.exit ≠ .sent then (stopWrite c₁ { k with io := d₁.io } d₁.exit).after d₁.acts
  else
    let d₂ := fileLoop c₁ d₁.io
    let c₂ := c₁.wroteFile d₂.taken
    if d₂.exit ≠ .sent then
      (stopWrite c₂ { k with io := d₂.io } d₂.exit).after (d₁.acts ++ d₂.acts)
    else (finishWrite c₂ { k with io := d₂.io }).after (d₁.acts ++ d₂.acts)

/-- `Connection::sendResponse`. -/
def sendResponse (c : Conn) (k : Kernel) (statusCode : ℕ) (contentType body : Bytes)
    (keepAlive : Bool) : Run :=
  let reply := buildHttpResponse statusCode contentType body keepAlive
  (writeFromBuffer { c with writeBuf := reply, writeIndex := 0, closeAfterWrite := !keepAlive }
    k).after [.issue keepAlive reply]

/-- `Connection::sendFile`, once `getStaticFd` has found the file. -/
def sendFile (c : Conn) (k : Kernel) (statusCode : ℕ) (contentType content : Bytes)
    (keepAlive : Bool) : Run :=
  let header := fileHeader statusCode contentType content.length keepAlive
  (writeFromBuffer { c with writeBuf := header, writeIndex := 0, closeAfterWrite := !keepAlive,
                            fileFd := some (.whole content) } k).after
    [.issue keepAlive (header ++ content)]

/-- `Connection::handleWrite`. -/
def handleWrite (c : Conn) (k : Kernel) : Run :=
  if c.outputPending then (writeFromBuffer c k).after [.touch]
  else
    let (ch, a) := disableWriting c.channel
    ⟨{ c with channel := ch }, k, [.touch, a]⟩

/-! ## `sendJson` -/

/-- `Connection::sendJson`, called on the reactor thread with the connection's own descriptor.  The
loop of `sendHttpResponse` gives up at `EAGAIN` as it does at an error, and nothing remembers what
was left. -/
def sendJson (c : Conn) (k : Kernel) (statusCode : ℕ) (body : Bytes) (keepAlive : Bool) : Run :=
  let reply := jsonResponse statusCode body keepAlive
  let d := drain [] .jsonIo reply k.io
  ⟨c, { k with io := d.io },
    .json reply :: d.acts ++ if d.exit = .sent then [.complete] else []⟩

end ReactorServer
