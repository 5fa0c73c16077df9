import ReactorServer.Connection.Process
import ReactorServer.Db.Answer

/-!
# The whole server

Everything that runs at once: the main reactor, which accepts connections and puts them in the
table `connections_`; the sub-reactors, which run the handlers; and the threads of `dbPool_`, which
take tasks off a queue in order and run them.  `Sys.step` lets any of them make its next move, so
that a list of labels is an interleaving.

A connection is known here by the position at which it was accepted, which is never used twice.  The
code has no such name: all it has is the descriptor, and the kernel hands out a number again as
soon as it is closed.  `sockets` is the kernel's side of that, and a task writes to whoever owns
its number at the time.

The actions of a handler are computed when it is called (`Connection/Defs`) and performed one by
one, and a handler goes on after its connection has been destroyed, as the code does.

Some fields only keep count, and nothing reads them: the number of a request among those of its
connection, and which request a response belongs to.
-/

set_option autoImplicit false

namespace ReactorServer

/-- The keep-alive flag a task was submitted with. -/
def Task.keepAlive : Task → Bool
  | .register _ keepAlive .. => keepAlive
  | .login _ keepAlive .. => keepAlive
  | .profile _ keepAlive _ => keepAlive
  | .logout _ keepAlive _ => keepAlive

/-! ## Connections -/

/-- A connection that has been accepted. -/
structure Client where
  conn : Conn
  /-- What the handler that is running has still to do. -/
  todo : List Act
  /-- How many requests have been dispatched or rejected. -/
  asked : ℕ
  /-- The request that the response in `writeBuf_` answers. -/
  buffered : ℕ
  /-- The request that `sendJson` is answering. -/
  direct : Option ℕ
  /-- The complete responses that have been written to the socket: for each, the connection and the
  number of the request it answers. -/
  answered : List (ℕ × ℕ)
  deriving DecidableEq, Repr

namespace Client

/-- A connection that has just been accepted. -/
def accepted (fd now : ℕ) : Client := ⟨(newConn fd now).1, [], 0, 0, none, []⟩

/-- The request that a response belongs to which is complete now. -/
def replyNumber (c : Client) : ℕ := c.direct.getD c.buffered

/-- Keep count of the requests, and of which of them is being answered. -/
def note (c : Client) : Act → Client
  | .frame => { c with direct := none }
  | .dispatch _ => { c with asked := c.asked + 1 }
  | .reject _ => { c with asked := c.asked + 1 }
  | .issue .. => { c with buffered := c.asked, direct := none }
  | .json _ => { c with direct := some c.asked }
  | .complete => { c with direct := none }
  | _ => c

/-- A complete response has been written to the socket. -/
def addReply (c : Client) (a : ℕ × ℕ) : Client := { c with answered := c.answered ++ [a] }

end Client

/-! ## Tasks -/

/-- A task in the pool, and the request it was submitted for. -/
structure Ticket where
  origin : ℕ
  number : ℕ
  task : Task
  deriving DecidableEq, Repr

/-- A task at a thread: what the thread has still to do, how much of the response it has written,
and whether it is through with that. -/
structure Running where
  ticket : Ticket
  rest : Job PUnit
  written : ℕ
  sent : Bool

/-- The thread, if the task is not over. -/
def Running.settle (k : Running) : Option Running :=
  match k.rest with
  | .call .. => some k
  | _ => none

/-- The task that a thread has not answered. -/
def Running.owed (k : Running) : Option Ticket := if k.sent then none else some k.ticket

/-- A `write` of a task that has got rid of some bytes. -/
structure Delivery where
  origin : ℕ
  receiver : ℕ
  bytes : Bytes
  deriving DecidableEq, Repr

/-! ## The server -/

/-- The state of the server and of the kernel. -/
structure Sys where
  /-- The connections accepted so far. -/
  clients : List Client
  /-- The open descriptors, and whose they are. -/
  sockets : ℕ → Option ℕ
  /-- `connections_` -/
  connections : ℕ → Option ℕ
  /-- The descriptor and the connection that `newConnection` is about to put in the table. -/
  arriving : Option (ℕ × ℕ)
  /-- The queue of `dbPool_`. -/
  queue : List Ticket
  /-- The threads of `dbPool_`, each with the task it is at. -/
  threads : List (Option Running)
  store : Store
  /-- What tasks have written. -/
  wire : List Delivery

/-- The moves. -/
inductive Label where
  /-- `accept` returns a descriptor, and the `Connection` is constructed. -/
  | accept (fd now : ℕ)
  /-- `newConnection` puts it in the table. -/
  | insert
  /-- A handler of a connection is called. -/
  | event (i : ℕ) (e : Event)
  /-- The handler that is running on a connection performs its next action. -/
  | act (i : ℕ)
  /-- A thread of the pool takes a task. -/
  | take (w : ℕ)
  /-- A thread makes the next call of its task, other than `sendJson`. -/
  | call (w : ℕ) (out : Outcome)
  /-- A thread calls `write` in `sendJson`. -/
  | write (w : ℕ) (r : WriteResult)
  /-- A Redis entry expires. -/
  | expire (key : Bytes)
  deriving DecidableEq, Repr

namespace Sys

/-- The server before its first connection. -/
def start : Sys where
  clients := []
  sockets _ := none
  connections _ := none
  arriving := none
  queue := []
  threads := List.replicate kDbThreads none
  store := .empty
  wire := []

/-- `deleteConnection`: the connection under this number is destroyed, and its socket closed. -/
def deleteConnection (s : Sys) (fd : ℕ) : Sys :=
  if (s.connections fd).isSome then
    { s with connections := Function.update s.connections fd none
             sockets := Function.update s.sockets fd none }
  else s

/-- The last byte of a response has been written to a descriptor. -/
def logReply (s : Sys) (fd : ℕ) (a : ℕ × ℕ) : Sys :=
  match s.sockets fd with
  | none => s
  | some j => { s with clients := s.clients.modify j (·.addReply a) }

/-- What an action does outside its connection. -/
def effect (s : Sys) (i : ℕ) (c : Client) : Act → Sys
  | .submit t => { s with queue := s.queue ++ [⟨i, c.asked, t⟩] }
  | .delete => s.deleteConnection c.conn.fd
  | .complete => s.logReply c.conn.fd (i, c.replyNumber)
  | _ => s

/-- The next action of the handler that is running on a connection. -/
def act (s : Sys) (i : ℕ) : Sys :=
  match s.clients[i]? with
  | none => s
  | some c =>
    match c.todo with
    | [] => s
    | a :: todo =>
      effect { s with clients := s.clients.set i { c.note a with todo := todo } } i c a

/-- A turn of the loop of `sendHttpResponse` on a thread of the pool, with `next` to follow when the
loop is over. -/
def sendStep (s : Sys) (w : ℕ) (k : Running) (reply : Bytes) (next : Job PUnit)
    (r : WriteResult) : Sys :=
  let ended := s.threads.set w (Running.settle ⟨k.ticket, next, 0, true⟩)
  match s.sockets k.ticket.task.fd with
  | none => { s with threads := ended }  -- `EBADF`
  | some j =>
    match r with
    | .took (n + 1) =>
      let data := (reply.drop k.written).take (n + 1)
      let wire := s.wire ++ [⟨k.ticket.origin, j, data⟩]
      if k.written + data.length < reply.length then
        { s with wire := wire
                 threads := s.threads.set w (some { k with written := k.written + data.length }) }
      else
        { s with wire := wire, threads := ended
                 clients := s.clients.modify j (·.addReply (k.ticket.origin, k.ticket.number)) }
    | .fail .EINTR => s
    | _ => { s with threads := ended }

/-- One move; one that is not possible changes nothing. -/
def step (file : Option Bytes) (s : Sys) : Label → Sys
  | .accept fd now =>
    if s.sockets fd = none ∧ s.arriving = none then
      { s with clients := s.clients ++ [.accepted fd now]
               sockets := Function.update s.sockets fd (some s.clients.length)
               arriving := some (fd, s.clients.length) }
    else s
  | .insert =>
    match s.arriving with
    | none => s
    | some (fd, i) =>
      -- an entry that is overwritten is destroyed
      { s with sockets := if (s.connections fd).isSome then Function.update s.sockets fd none
                          else s.sockets
               connections := Function.update s.connections fd (some i)
               arriving := none }
  | .event i e =>
    match s.clients[i]? with
    | none => s
    | some c =>
      if c.todo = [] ∧ s.sockets c.conn.fd = some i then
        let r := handle file c.conn e
        { s with clients := s.clients.set i { c with conn := r.conn, todo := r.acts, direct := none } }
      else s
  | .act i => s.act i
  | .take w =>
    match s.threads[w]?, s.queue with
    | some none, t :: queue =>
      { s with queue := queue, threads := s.threads.set w (Running.settle ⟨t, t.task.work, 0, false⟩) }
    | _, _ => s
  | .call w out =>
    match s.threads[w]? with
    | some (some ⟨t, .call o next, written, sent⟩) =>
      if o.isSend then s
      else
        match s.store.exec o out with
        | some (store, r) =>
          { s with store := store, threads := s.threads.set w (Running.settle ⟨t, next r, written, sent⟩) }
        | none => s
    | _ => s
  | .write w r =>
    match s.threads[w]? with
    | some (some ⟨t, .call (.send statusCode body) next, written, sent⟩) =>
      s.sendStep w ⟨t, .call (.send statusCode body) next, written, sent⟩
        (jsonResponse statusCode body t.task.keepAlive) (next (some ⟨⟩)) r
    | _ => s
  | .expire key => { s with store := { s.store with
      redis := Function.update s.store.redis key none } }

/-- Some moves, one after another. -/
def run (file : Option Bytes) (s : Sys) (ls : List Label) : Sys := ls.foldl (step file) s

/-- The tasks that have not been answered: those in the queue, and those at a thread that is not
through with its response. -/
def unanswered (s : Sys) : List Ticket :=
  s.queue ++ s.threads.filterMap (·.bind Running.owed)

end Sys

end ReactorServer
