import ReactorServer.Http.Request
import ReactorServer.Http.Response

/-!
# A connection, and what its handlers do

The data of `class Connection` and of the `Channel` it owns, and the vocabulary in which the
member functions are described.

A member function talks to the outside through system calls, and what it does next depends on what
they return.  So a call of a member function is modelled as a function of the connection and of
the answers the kernel is going to give, and its result is a `Run`: the connection it leaves
behind, the answers it has not used, and the list of the *actions* it performed, in order.  The
list of actions is what all the properties are about.  Since the functions do not read anything
another thread writes (the rate limiter's verdict is one of the answers), the actions of a call
can be computed first and interleaved with what other threads do afterwards.

`Conn` keeps no flag that says whether the object still exists.  The code does not have one either:
after `deleteConnectionCallback_` has destroyed the object a function that goes on running simply
goes on running, and the model lets it, so that one can see what it does.
-/

set_option autoImplicit false

namespace ReactorServer

/-! ## What the kernel answers -/

/-- The values of `errno` the code tells apart; `EAGAIN` stands for `EWOULDBLOCK` too. -/
inductive Errno where
  | EINTR
  | EAGAIN
  | other
  deriving DecidableEq, Repr

/-- The result of `read`.  `got []` is the return value zero, the end of the input. -/
inductive ReadResult where
  | got (bs : Bytes)
  | fail (e : Errno)
  deriving DecidableEq, Repr

/-- The result of `write` or `sendfile`.  A kernel that is willing to take `n` bytes of a shorter
request takes all of it. -/
inductive WriteResult where
  | took (n : ℕ)
  | fail (e : Errno)
  deriving DecidableEq, Repr

/-- A result on which the send loops give up: an error that is neither `EINTR` nor `EAGAIN`, or a
count of zero. -/
def WriteResult.hard : WriteResult → Bool
  | .took n => n == 0
  | .fail e => e == .other

/-- The answers a call of a member function is going to get, apart from `read`: the results of
`write` and `sendfile` in the order of the calls, and the verdicts of `allowRequest`.  Once a list
is used up every further write is taken whole and every further request is allowed. -/
structure Kernel where
  io : List WriteResult
  verdicts : List Bool
  deriving DecidableEq, Repr

/-! ## The connection -/

/-- A set of epoll flags. -/
structure Events where
  epollin : Bool := false
  epollpri : Bool := false
  epollrdhup : Bool := false
  epollout : Bool := false
  epollhup : Bool := false
  epollerr : Bool := false
  epollet : Bool := false
  deriving DecidableEq, Repr

/-- `class Channel`: the interest mask `events_`, and `inEpoll_`, which says whether the descriptor
has been added to epoll. -/
structure Channel where
  events : Events
  inEpoll : Bool
  deriving DecidableEq, Repr

/-- A file on its way through `sendfile`: what `fileFd_` reads, `fileOffset_` and
`fileRemaining_`.  The two numbers only ever change together, and never point past the end. -/
structure OpenFile where
  content : Bytes
  offset : ℕ
  remaining : ℕ
  fits : offset + remaining ≤ content.length
  deriving DecidableEq, Repr

namespace OpenFile

/-- The bytes still to be sent. -/
def unsent (f : OpenFile) : Bytes := (f.content.drop f.offset).take f.remaining

/-- The position after `n` more bytes, or at the end of what remains. -/
def advance (f : OpenFile) (n : ℕ) : OpenFile where
  content := f.content
  offset := f.offset + min n f.remaining
  remaining := f.remaining - min n f.remaining
  fits := by have := f.fits; omega

/-- All of a file, from its start. -/
def whole (content : Bytes) : OpenFile := ⟨content, 0, content.length, by simp⟩

@[simp] theorem length_unsent (f : OpenFile) : f.unsent.length = f.remaining := by
  have := f.fits
  rw [unsent, List.length_take, List.length_drop]
  omega

theorem unsent_advance {f : OpenFile} {n : ℕ} (h : n ≤ f.remaining) :
    (f.advance n).unsent = f.unsent.drop n := by
  show ((f.content.drop (f.offset + min n f.remaining)).take (f.remaining - min n f.remaining)) = _
  rw [Nat.min_eq_left h, unsent, List.drop_take, List.drop_drop]

@[simp] theorem unsent_whole (content : Bytes) : (whole content).unsent = content := by
  simp [unsent, whole]

end OpenFile

/-- `class Connection`, member by member.  `fileFd_`, when it is not `-1`, is the shared descriptor
of the static file together with the position in it. -/
structure Conn where
  fd : ℕ
  channel : Channel
  writeBuf : Bytes
  writeIndex : ℕ
  inputBuffer : Bytes
  closeAfterWrite : Bool
  lastActiveSec : ℕ
  fileFd : Option OpenFile
  deriving DecidableEq, Repr

namespace Conn

/-- The bytes of `writeBuf_` still to be written. -/
def unwritten (c : Conn) : Bytes := c.writeBuf.drop c.writeIndex

/-- The bytes of the file still to be sent. -/
def unsentFile (c : Conn) : Bytes := (c.fileFd.map OpenFile.unsent).getD []

/-- The test of `handleWrite`: is part of a response still to be sent? -/
def outputPending (c : Conn) : Bool :=
  decide (c.writeIndex < c.writeBuf.length) || c.fileFd.any fun f ↦ decide (0 < f.remaining)

/-- `handleWrite` asks whether there is anything left to send. -/
theorem outputPending_eq_false_iff {c : Conn} :
    c.outputPending = false ↔ c.unwritten = [] ∧ c.unsentFile = [] := by
  rw [outputPending, Bool.or_eq_false_iff, decide_eq_false_iff_not, unwritten,
    List.drop_eq_nil_iff, Nat.not_lt, unsentFile]
  refine and_congr_right fun _ ↦ ?_
  cases c.fileFd with
  | none => simp
  | some f => simp [← List.length_eq_zero_iff]

end Conn

/-- A job for the database pool, with what its closure captures. -/
inductive Task where
  | register (fd : ℕ) (keepAlive : Bool) (username password : Bytes)
  | login (fd : ℕ) (keepAlive : Bool) (username password : Bytes)
  | profile (fd : ℕ) (keepAlive : Bool) (token : Bytes)
  | logout (fd : ℕ) (keepAlive : Bool) (token : Bytes)
  deriving DecidableEq, Repr

/-- The descriptor number a task writes its response to. -/
def Task.fd : Task → ℕ
  | .register fd .. => fd
  | .login fd .. => fd
  | .profile fd .. => fd
  | .logout fd .. => fd

/-! ## Actions -/

/-- A request cut off the input buffer, as it goes to its route: its text (header block, blank line
and body), what `wantKeepAlive` and `allowRequest` said about it, and whether an earlier response
was still pending at that moment. -/
structure Dispatch where
  request : Bytes
  keepAlive : Bool
  allowed : Bool
  pending : Bool
  deriving DecidableEq, Repr

/-- What a member function does. -/
inductive Act where
  /-- Members are read or written, with no effect outside the object. -/
  | touch
  /-- A `read` of the socket. -/
  | read (r : ReadResult)
  /-- The request loop searches the input buffer for the next request. -/
  | frame
  /-- A complete request is cut off and goes to its route. -/
  | dispatch (d : Dispatch)
  /-- The input is rejected with this status. -/
  | reject (status : ℕ)
  /-- `sendResponse` or `sendFile` makes this the response to be sent. -/
  | issue (keepAlive : Bool) (reply : Bytes)
  /-- A `write` or `sendfile` on behalf of that response, and the bytes it got rid of. -/
  | io (keepAlive : Bool) (r : WriteResult) (bs : Bytes)
  /-- `sendJson` starts to write this response. -/
  | json (reply : Bytes)
  /-- A `write` on behalf of that response. -/
  | jsonIo (r : WriteResult) (bs : Bytes)
  /-- The last byte of a response has been taken. -/
  | complete
  /-- An `epoll_ctl`: `EPOLL_CTL_ADD` or `EPOLL_CTL_MOD`, with this mask. -/
  | ctl (add : Bool) (events : Events)
  /-- A task is handed to the database pool. -/
  | submit (t : Task)
  /-- `deleteConnectionCallback_` is called. -/
  | delete
  deriving DecidableEq, Repr

/-- What a call of a member function leaves behind: the connection afterwards, the answers it did
not use, and the actions it performed. -/
structure Run where
  conn : Conn
  kernel : Kernel
  acts : List Act
  deriving DecidableEq, Repr

namespace Run

/-- Some actions, and then a call. -/
def after (acts : List Act) (r : Run) : Run := { r with acts := acts ++ r.acts }

/-- A call, and then another one where the first one left off. -/
def andThen (r : Run) (f : Conn → Kernel → Run) : Run := (f r.conn r.kernel).after r.acts

@[simp] theorem after_conn (acts : List Act) (r : Run) : (r.after acts).conn = r.conn := rfl
@[simp] theorem after_kernel (acts : List Act) (r : Run) : (r.after acts).kernel = r.kernel := rfl
@[simp] theorem after_acts (acts : List Act) (r : Run) :
    (r.after acts).acts = acts ++ r.acts := rfl
@[simp] theorem andThen_conn (r : Run) (f : Conn → Kernel → Run) :
    (r.andThen f).conn = (f r.conn r.kernel).conn := rfl
@[simp] theorem andThen_kernel (r : Run) (f : Conn → Kernel → Run) :
    (r.andThen f).kernel = (f r.conn r.kernel).kernel := rfl
@[simp] theorem andThen_acts (r : Run) (f : Conn → Kernel → Run) :
    (r.andThen f).acts = r.acts ++ (f r.conn r.kernel).acts := rfl

end Run

end ReactorServer
