import ReactorServer.Connection.Cases
import Mathlib.Data.List.Basic

/-!
# No lost read edge

Connections are registered edge-triggered: `epoll_wait` takes a descriptor off the ready list when
it reports it, and only news puts it back.  A handler that returns with bytes still unread, on a
descriptor that is not on the ready list, leaves the client hanging.  And there is a handler that
does not read: `handleEvent` calls only the write callback when `EPOLLOUT` is in the mask, whatever
else is in it.

What saves the day is that an `epoll_ctl` puts the descriptor back on the ready list when a
condition of its mask holds, and that every path through the write callback ends in one, or in the
deletion of the connection.  The read callback does not need it: it reads until `EAGAIN`.

The kernel's side is `Watch`: the socket, the interest mask, the ready list and the current batch,
together with the actions that the running handler has still to perform.  Data may arrive between
any two of them.
-/

set_option autoImplicit false

namespace ReactorServer

/-! ## Channel and kernel -/

namespace Events

/-- Two sets of flags have one in common (`EPOLLET` is not a condition). -/
def meets (a b : Events) : Bool :=
  a.epollin && b.epollin || a.epollpri && b.epollpri || a.epollrdhup && b.epollrdhup ||
    a.epollout && b.epollout || a.epollhup && b.epollhup || a.epollerr && b.epollerr

/-- The flags of a set that are in an interest mask, and some more. -/
def report (a interest extra : Events) : Events where
  epollin := a.epollin && interest.epollin || extra.epollin
  epollpri := a.epollpri && interest.epollpri || extra.epollpri
  epollrdhup := a.epollrdhup && interest.epollrdhup || extra.epollrdhup
  epollout := a.epollout && interest.epollout || extra.epollout
  epollhup := a.epollhup && interest.epollhup || extra.epollhup
  epollerr := a.epollerr && interest.epollerr || extra.epollerr

/-- The flags on which `handleEvent` calls the read callback. -/
def wantsRead (a : Events) : Bool :=
  a.epollin || a.epollpri || a.epollrdhup || a.epollhup || a.epollerr

end Events

/-- `Channel::handleEvent`: the write callback, or else the read callback. -/
def handleEvent (file : Option Bytes) (revent : Events) (c : Conn) (now : ℕ)
    (reads : List ReadResult) (k : Kernel) : Run :=
  if revent.epollout then handleWrite c k
  else if revent.wantsRead then handleMessage file c now reads k
  else ⟨c, k, []⟩

/-- A connection and what the kernel knows about its descriptor. -/
structure Watch where
  conn : Conn
  /-- The number of bytes in the socket that have not been read. -/
  unread : ℕ
  /-- The peer has closed its side. -/
  eof : Bool
  /-- The socket has room for output. -/
  writable : Bool
  /-- The interest mask, once the descriptor has been added. -/
  interest : Option Events
  /-- The descriptor is on the ready list. -/
  ready : Bool
  /-- The mask with which it was reported in the current batch, until it is handled. -/
  reported : Option Events
  /-- What the running handler has still to do. -/
  todo : List Act
  /-- The delete callback has been called. -/
  deleted : Bool
  deriving DecidableEq, Repr

namespace Watch

/-- The conditions that hold of the socket. -/
def poll (w : Watch) : Events :=
  { epollin := decide (0 < w.unread) || w.eof, epollrdhup := w.eof, epollout := w.writable }

/-- There is something to read. -/
def Readable (w : Watch) : Prop := 0 < w.unread ∨ w.eof = true

/-- Something has happened: put the descriptor on the ready list if the interest mask has one of
these flags. -/
def wake (w : Watch) (ev : Events) : Watch :=
  { w with ready := w.ready || w.interest.any ev.meets }

/-- An accepted descriptor, with the constructor of its connection about to register it. -/
def accepted (fd now unread : ℕ) (eof writable : Bool) : Watch where
  conn := (newConn fd now).1
  unread := unread
  eof := eof
  writable := writable
  interest := none
  ready := false
  reported := none
  todo := (newConn fd now).2
  deleted := false

/-- Perform an action.  A `read` can only return what the socket has; everything that does not
concern the descriptor's readiness passes. -/
def perform (w : Watch) : Act → Option Watch
  | .read (.got []) => if w.unread = 0 ∧ w.eof = true then some w else none
  | .read (.got (b :: bs)) =>
    if (b :: bs).length ≤ w.unread then some { w with unread := w.unread - (b :: bs).length } else none
  | .read (.fail .EAGAIN) => if w.unread = 0 ∧ w.eof = false then some w else none
  | .ctl _ ev =>
    some { w with interest := some ev, ready := w.ready || w.poll.meets ev }
  | .delete => some { w with deleted := true }
  | _ => some w

/-- What can happen next. -/
inductive Stimulus where
  /-- More bytes arrive. -/
  | arrive (n : ℕ)
  /-- The peer closes its side. -/
  | peerCloses
  /-- The socket becomes writable, or ceases to be. -/
  | writable (b : Bool)
  /-- `epoll_wait` looks at the ready list; `extra` are flags it reports besides. -/
  | epollWait (extra : Events)
  /-- `handleEvent` is called for a reported descriptor. -/
  | dispatch (now : ℕ) (reads : List ReadResult) (k : Kernel)
  /-- The running handler performs its next action. -/
  | act
  deriving DecidableEq, Repr

/-- One step.  A stimulus that is not possible in a state leaves it alone. -/
def step (file : Option Bytes) (w : Watch) : Stimulus → Watch
  | .arrive n => ({ w with unread := w.unread + n + 1 } : Watch).wake { epollin := true }
  | .peerCloses => ({ w with eof := true } : Watch).wake { epollin := true, epollrdhup := true }
  | .writable b => ({ w with writable := b } : Watch).wake { epollout := b }
  | .epollWait extra =>
    match w.interest with
    | some interest =>
      if w.ready = true ∧ w.reported = none ∧ w.todo = [] ∧ w.deleted = false then
        let mask := w.poll.report interest extra
        -- a descriptor none of whose conditions holds is dropped without a report
        { w with ready := false,
                 reported := if mask.epollout || mask.wantsRead then some mask else none }
      else w
    | none => w
  | .dispatch now reads k =>
    match w.reported with
    | some mask =>
      if w.todo = [] ∧ w.deleted = false then
        let r := handleEvent file mask w.conn now reads k
        { w with conn := r.conn, reported := none, todo := r.acts }
      else w
    | none => w
  | .act =>
    match w.todo with
    | [] => w
    | a :: todo => (w.perform a).elim w fun w' ↦ { w' with todo := todo }

end Watch

/-! ## The handlers keep the descriptor watched -/

/-- An action after which no unread input can go unnoticed. -/
def Act.rearms : Act → Bool
  | .ctl .. => true
  | .read (.fail .EAGAIN) => true
  | .delete => true
  | _ => false

/-- Some action does. -/
def Rearms (acts : List Act) : Prop := ∃ a ∈ acts, a.rearms = true

theorem Rearms.left {as : List Act} (h : Rearms as) (bs : List Act) : Rearms (as ++ bs) := by
  obtain ⟨a, ha, hr⟩ := h
  exact ⟨a, List.mem_append_left _ ha, hr⟩

theorem Rearms.right {bs : List Act} (h : Rearms bs) (as : List Act) : Rearms (as ++ bs) := by
  obtain ⟨a, ha, hr⟩ := h
  exact ⟨a, List.mem_append_right _ ha, hr⟩

/-- **Every drain of the output ends in an `epoll_ctl` or in deletion.** -/
theorem writeFromBuffer_rearms (c : Conn) (k : Kernel) : Rearms (writeFromBuffer c k).acts := by
  obtain ⟨c', ios, io', -, -, ⟨h, -⟩ | ⟨h, -⟩ | ⟨h, -⟩⟩ := writeFromBuffer_cases c k
  · rw [h]
    exact Rearms.right ⟨.ctl (!c'.channel.inEpoll) { c'.channel.events with epollout := true },
      by simp [stopWrite, enableWriting, updateChannel], rfl⟩ ios
  · rw [h]
    exact Rearms.right ⟨.delete, by simp [stopWrite], rfl⟩ ios
  · rw [h]
    exact Rearms.right ⟨.ctl (!c'.channel.inEpoll) { c'.channel.events with epollout := false },
      by simp [finishWrite, disableWriting, updateChannel], rfl⟩ ios

theorem handleWrite_rearms (c : Conn) (k : Kernel) : Rearms (handleWrite c k).acts := by
  rw [handleWrite]
  split
  · exact (writeFromBuffer_rearms c k).right [.touch]
  · exact ⟨.ctl (!c.channel.inEpoll) { c.channel.events with epollout := false },
      by simp [disableWriting, updateChannel], rfl⟩

/-- The read callback reads until `EAGAIN` or deletes the connection. -/
theorem handleMessage_rearms (file : Option Bytes) (c : Conn) (now : ℕ) (reads : List ReadResult)
    (k : Kernel) : Rearms (handleMessage file c now reads k).acts := by
  obtain ⟨acts, -, ⟨-, hread, h⟩ | ⟨-, h⟩⟩ := handleMessage_cases file c now reads k
  · rw [h]
    exact Rearms.left ⟨_, hread, rfl⟩ _
  · rw [h]
    exact Rearms.right ⟨.delete, List.mem_singleton.mpr rfl, rfl⟩ acts

theorem handleEvent_rearms (file : Option Bytes) {revent : Events} (c : Conn) (now : ℕ)
    (reads : List ReadResult) (k : Kernel) (h : (revent.epollout || revent.wantsRead) = true) :
    Rearms (handleEvent file revent c now reads k).acts := by
  rw [handleEvent]
  split
  · exact handleWrite_rearms c k
  · rename_i hout
    rw [if_pos (by simpa [hout] using h)]
    exact handleMessage_rearms file c now reads k

/-- An action does not stop watching for input. -/
def Act.watches : Act → Bool
  | .ctl _ ev => ev.epollin
  | _ => true

/-- A connection is watched for input, and stays so. -/
structure Watches (c : Conn) (acts : List Act) : Prop where
  conn : c.channel.events.epollin = true
  acts : ∀ a ∈ acts, a.watches = true

theorem Watches.trans {c c' : Conn} {as bs : List Act} (h : Watches c as) (h' : Watches c' bs) :
    Watches c' (as ++ bs) :=
  ⟨h'.conn, List.forall_mem_append.mpr ⟨h.acts, h'.acts⟩⟩

theorem SameInput.epollin {c c' : Conn} (h : SameInput c c') :
    c'.channel.events.epollin = c.channel.events.epollin := by rw [h.events]

theorem Drained.watches {c c' : Conn} {ios : List Act} (h : Drained c c' ios)
    (hc : c.channel.events.epollin = true) : Watches c' ios := by
  refine ⟨h.sameInput.epollin.trans hc, fun a ha ↦ ?_⟩
  rcases h.acts a ha with rfl | ⟨r, bs, rfl⟩
  · rfl
  · rfl

theorem writeFromBuffer_watches {c : Conn} (hc : c.channel.events.epollin = true) (k : Kernel) :
    Watches (writeFromBuffer c k).conn (writeFromBuffer c k).acts := by
  obtain ⟨c', ios, io', hd, -, hcases⟩ := writeFromBuffer_cases c k
  have hw := hd.watches hc
  have hc' := hw.conn
  rcases hcases with ⟨h, -⟩ | ⟨h, -⟩ | ⟨h, -⟩
  · rw [h]
    refine hw.trans ⟨hc', ?_⟩
    simp [stopWrite, enableWriting, updateChannel, Act.watches, hc']
  · rw [h]
    refine hw.trans ⟨hc', ?_⟩
    simp [stopWrite, Act.watches]
  · rw [h]
    refine hw.trans ⟨hc', ?_⟩
    cases hclose : c'.closeAfterWrite <;>
      simp [finishWrite, disableWriting, updateChannel, Act.watches, hc', hclose]

theorem handleWrite_watches {c : Conn} (hc : c.channel.events.epollin = true) (k : Kernel) :
    Watches (handleWrite c k).conn (handleWrite c k).acts := by
  rw [handleWrite]
  split
  · have htouch : Watches c [.touch] := ⟨hc, by simp [Act.watches]⟩
    exact htouch.trans (writeFromBuffer_watches hc k)
  · exact ⟨hc, by simp [disableWriting, updateChannel, Act.watches, hc]⟩

theorem Loaded.watches {c c' : Conn} {ka : Bool} {reply : Bytes} (h : Loaded c c' ka reply)
    (hc : c.channel.events.epollin = true) (k : Kernel) :
    Watches (writeFromBuffer c' k).conn
      ([.issue ka reply] ++ (writeFromBuffer c' k).acts) := by
  have hissue : Watches c [.issue ka reply] := ⟨hc, by simp [Act.watches]⟩
  exact hissue.trans (writeFromBuffer_watches (h.sameInput.epollin.trans hc) k)

theorem serve_watches {c : Conn} (hc : c.channel.events.epollin = true) (file : Option Bytes)
    (k : Kernel) (request : Bytes) (ka allowed : Bool) :
    Watches (serve file c k request ka allowed).conn (serve file c k request ka allowed).acts := by
  rcases serve_cases file c k request ka allowed with
    ⟨c', reply, -, hl, h⟩ | ⟨status, body, -, h⟩ | ⟨t, -, -, h⟩
  · rw [h]
    exact hl.watches hc k
  · rw [h]
    refine ⟨hc, fun a ha ↦ ?_⟩
    rcases sendJson_acts ha with ⟨_, rfl⟩ | ⟨_, _, rfl⟩ | rfl
    · rfl
    · rfl
    · rfl
  · rw [h]
    exact ⟨hc, by simp [Act.watches]⟩

theorem turn_watches {c : Conn} (hc : c.channel.events.epollin = true) (file : Option Bytes)
    (k : Kernel) (headers text rest : Bytes) :
    Watches (turn file c k headers text rest).conn (turn file c k headers text rest).acts := by
  have hhead : Watches c [.frame, .dispatch ⟨text, wantKeepAlive text headers,
    (allowRequest k).1, c.outputPending⟩] := ⟨hc, by simp [Act.watches]⟩
  exact hhead.trans (serve_watches (c := { c with inputBuffer := rest }) hc file _ _ _ _)

theorem rejectInput_watches {c : Conn} (hc : c.channel.events.epollin = true) (k : Kernel)
    (status : ℕ) (message : String) :
    Watches (rejectInput c k status message).conn (rejectInput c k status message).acts := by
  obtain ⟨c', reply, hl, h⟩ := rejectInput_loaded c k status message
  have hhead : Watches c [.frame, .reject status] := ⟨hc, by simp [Act.watches]⟩
  rw [h]
  exact hhead.trans (hl.watches hc k)

theorem processRequests_watches {c : Conn} (hc : c.channel.events.epollin = true)
    (file : Option Bytes) (k : Kernel) :
    Watches (processRequests file c k).conn (processRequests file c k).acts := by
  refine processRequests_induct file (P := fun c _ r ↦
    c.channel.events.epollin = true → Watches r.conn r.acts) ?_ ?_ ?_ ?_ c k hc
  · intro c k _ hc
    exact ⟨hc, by simp [Act.watches]⟩
  · intro c k status message _ hc
    exact rejectInput_watches hc k status message
  · intro c k headers text rest _ _ hc
    exact turn_watches hc file k headers text rest
  · intro c k headers text rest _ _ ih hc
    have ht := turn_watches hc file k headers text rest
    exact ht.trans (ih ht.conn)

theorem handleEvent_watches {c : Conn} (hc : c.channel.events.epollin = true)
    (file : Option Bytes) (revent : Events) (now : ℕ) (reads : List ReadResult) (k : Kernel) :
    Watches (handleEvent file revent c now reads k).conn
      (handleEvent file revent c now reads k).acts := by
  rw [handleEvent]
  split
  · exact handleWrite_watches hc k
  · split
    · obtain ⟨acts, hacts, hcases⟩ := handleMessage_cases file c now reads k
      have hreads : Watches (c.received now (readAll reads).1) acts := by
        refine ⟨hc, fun a ha ↦ ?_⟩
        rcases hacts a ha with rfl | ⟨r, rfl⟩
        · rfl
        · rfl
      rcases hcases with ⟨-, -, h⟩ | ⟨-, h⟩
      · rw [h]
        exact hreads.trans (processRequests_watches hreads.conn file k)
      · rw [h]
        exact hreads.trans ⟨hreads.conn, by simp [Act.watches]⟩
    · exact ⟨hc, by simp⟩

/-! ## The invariant -/

namespace Watch

/-- What holds in every state, also in the middle of a handler: if there is something to read, then
the descriptor is on the ready list, or is about to be handled, or the running handler is still
going to see to it. -/
structure Inv (w : Watch) : Prop where
  watches : Watches w.conn w.todo
  interest : ∀ ev, w.interest = some ev → ev.epollin = true
  reported : ∀ mask, w.reported = some mask → (mask.epollout || mask.wantsRead) = true
  noticed : w.interest ≠ none → w.deleted = false → w.Readable →
    w.ready = true ∨ w.reported ≠ none ∨ Rearms w.todo

theorem inv_accepted (fd now unread : ℕ) (eof writable : Bool) :
    (accepted fd now unread eof writable).Inv where
  watches := ⟨rfl, by simp [accepted, newConn, enableReadingET, updateChannel, Act.watches]⟩
  interest _ h := absurd h (by simp [accepted])
  reported _ h := absurd h (by simp [accepted])
  noticed h := absurd rfl h

/-- News about input puts a registered descriptor on the ready list. -/
theorem wake_ready {w : Watch} (h : ∀ ev, w.interest = some ev → ev.epollin = true)
    (hreg : w.interest ≠ none) {ev : Events} (hev : ev.epollin = true) : (w.wake ev).ready = true := by
  obtain ⟨interest, hi⟩ := Option.ne_none_iff_exists'.mp hreg
  simp [wake, hi, Events.meets, hev, h interest hi]

/-- Putting a descriptor on the ready list does no harm. -/
theorem Inv.wake {w : Watch} (h : w.Inv) (ev : Events) : (w.wake ev).Inv where
  watches := h.watches
  interest := h.interest
  reported := h.reported
  noticed hreg hdel hread := by
    rcases h.noticed hreg hdel hread with hr | hr
    · exact .inl (by simp [Watch.wake, hr])
    · exact .inr hr

theorem poll_epollin {w : Watch} (h : w.Readable) : w.poll.epollin = true := by
  rcases h with hu | he
  · simpa [poll] using .inl hu
  · simpa [poll] using .inr he

/-- What an action can do. -/
theorem perform_cases {w w' : Watch} {a : Act} (h : w.perform a = some w') :
    (∃ add ev, a = .ctl add ev ∧
        w' = { w with interest := some ev, ready := w.ready || w.poll.meets ev }) ∨
      (a = .delete ∧ w' = { w with deleted := true }) ∨
      (a = .read (.fail .EAGAIN) ∧ w' = w ∧ ¬ w.Readable) ∨
      (a.rearms = false ∧ ∃ n, n ≤ w.unread ∧ w' = { w with unread := n }) := by
  have hpass : a.rearms = false → w.perform a = some w →
      a.rearms = false ∧ ∃ n, n ≤ w.unread ∧ w' = { w with unread := n } := by
    intro hr hs
    rw [hs, Option.some_inj] at h
    exact ⟨hr, w.unread, Nat.le_refl _, h.symm⟩
  cases a with
  | ctl add ev => exact .inl ⟨add, ev, rfl, (Option.some_inj.mp h).symm⟩
  | delete => exact .inr (.inl ⟨rfl, (Option.some_inj.mp h).symm⟩)
  | read r =>
    match r with
    | .got [] =>
      refine .inr (.inr (.inr (hpass rfl ?_)))
      rw [perform] at h ⊢
      split at h
      · rename_i hc; rw [if_pos hc]
      · exact absurd h (by simp)
    | .got (b :: bs) =>
      rw [perform] at h
      split at h
      · exact .inr (.inr (.inr ⟨rfl, _, Nat.sub_le _ _, (Option.some_inj.mp h).symm⟩))
      · exact absurd h (by simp)
    | .fail .EAGAIN =>
      rw [perform] at h
      split at h
      · rename_i hc
        refine .inr (.inr (.inl ⟨rfl, (Option.some_inj.mp h).symm, ?_⟩))
        rintro (hu | he)
        · omega
        · exact absurd (hc.2.symm.trans he) (by simp)
      · exact absurd h (by simp)
    | .fail .EINTR => exact .inr (.inr (.inr (hpass rfl rfl)))
    | .fail .other => exact .inr (.inr (.inr (hpass rfl rfl)))
  | touch => exact .inr (.inr (.inr (hpass rfl rfl)))
  | frame => exact .inr (.inr (.inr (hpass rfl rfl)))
  | dispatch d => exact .inr (.inr (.inr (hpass rfl rfl)))
  | reject status => exact .inr (.inr (.inr (hpass rfl rfl)))
  | issue ka reply => exact .inr (.inr (.inr (hpass rfl rfl)))
  | io ka r bs => exact .inr (.inr (.inr (hpass rfl rfl)))
  | json reply => exact .inr (.inr (.inr (hpass rfl rfl)))
  | jsonIo r bs => exact .inr (.inr (.inr (hpass rfl rfl)))
  | complete => exact .inr (.inr (.inr (hpass rfl rfl)))
  | submit t => exact .inr (.inr (.inr (hpass rfl rfl)))

/-- One action of the running handler: what it was to see to, it has seen to, or is still to see
to. -/
theorem Inv.act {file : Option Bytes} {w : Watch} (h : w.Inv) : (w.step file .act).Inv := by
  rw [step]
  cases htodo : w.todo with
  | nil => exact h
  | cons a todo =>
    dsimp only
    cases hp : w.perform a with
    | none => exact h
    | some w' =>
      obtain ⟨⟨hconn, hacts⟩, hinterest, hreported, hnoticed⟩ := h
      rw [htodo] at hacts hnoticed
      obtain ⟨ha, hrest⟩ := List.forall_mem_cons.mp hacts
      rcases perform_cases hp with
        ⟨add, ev, rfl, rfl⟩ | ⟨rfl, rfl⟩ | ⟨rfl, rfl, hnone⟩ | ⟨hr, n, hn, rfl⟩
      · -- `epoll_ctl` looks at the socket itself
        refine ⟨⟨hconn, hrest⟩, fun ev' hev ↦ Option.some_inj.mp hev ▸ ha, hreported, ?_⟩
        rintro - - hread
        refine .inl ?_
        have hin : w.poll.epollin = true := poll_epollin hread
        have hev : ev.epollin = true := ha
        simp [Option.elim, Events.meets, hin, hev]
      · exact ⟨⟨hconn, hrest⟩, hinterest, hreported, fun _ hdel ↦ absurd hdel (by simp [Option.elim])⟩
      · exact ⟨⟨hconn, hrest⟩, hinterest, hreported, fun _ _ hread ↦ absurd hread hnone⟩
      · refine ⟨⟨hconn, hrest⟩, hinterest, hreported, fun hreg hdel hread ↦ ?_⟩
        have hread' : w.Readable := hread.imp_left fun hu ↦ Nat.lt_of_lt_of_le hu hn
        rcases hnoticed hreg hdel hread' with hw | hw | ⟨b, hb, hbr⟩
        · exact .inl hw
        · exact .inr (.inl hw)
        · rcases List.mem_cons.mp hb with rfl | hb
          · exact absurd (hbr.symm.trans hr) (by simp)
          · exact .inr (.inr ⟨b, hb, hbr⟩)

/-- **The invariant survives every step.** -/
theorem Inv.step {w : Watch} (h : w.Inv) (file : Option Bytes) (l : Stimulus) :
    (w.step file l).Inv := by
  cases l with
  | arrive n =>
    refine ⟨h.watches, h.interest, h.reported, fun hreg _ _ ↦ .inl ?_⟩
    exact wake_ready (w := { w with unread := w.unread + n + 1 }) h.interest hreg rfl
  | peerCloses =>
    refine ⟨h.watches, h.interest, h.reported, fun hreg _ _ ↦ .inl ?_⟩
    exact wake_ready (w := { w with eof := true }) h.interest hreg rfl
  | writable b =>
    have hb : ({ w with writable := b } : Watch).Inv :=
      ⟨h.watches, h.interest, h.reported, h.noticed⟩
    exact hb.wake { epollout := b }
  | epollWait extra =>
    rw [Watch.step]
    cases hi : w.interest with
    | none => exact h
    | some interest =>
      dsimp only
      split
      · rename_i hc
        by_cases hmask : ((w.poll.report interest extra).epollout ||
            (w.poll.report interest extra).wantsRead) = true
        · rw [if_pos hmask]
          refine ⟨h.watches, by simpa [hi] using h.interest, fun mask hm ↦ ?_, ?_⟩
          · exact Option.some_inj.mp hm ▸ hmask
          · exact fun _ _ _ ↦ .inr (.inl (by simp))
        · rw [if_neg hmask]
          refine ⟨h.watches, by simpa [hi] using h.interest, fun mask hm ↦ absurd hm (by simp), ?_⟩
          -- a readable socket would have been reported
          rintro - - hread
          refine absurd ?_ hmask
          have hin : w.poll.epollin = true := poll_epollin hread
          simp [Events.report, Events.wantsRead, hin, h.interest interest hi]
      · exact h
  | dispatch now reads k =>
    rw [Watch.step]
    cases hr : w.reported with
    | none => exact h
    | some mask =>
      dsimp only
      split
      · refine ⟨handleEvent_watches h.watches.conn file mask now reads k, h.interest,
          fun m hm ↦ absurd hm (by simp), fun _ _ _ ↦ .inr (.inr ?_)⟩
        exact handleEvent_rearms file w.conn now reads k (h.reported mask hr)
      · exact h
  | act => exact h.act

/-- Between two handlers, a registered connection with something to read is on the ready list, or
has been reported and is about to be handled. -/
def NoLostEdge (w : Watch) : Prop :=
  w.todo = [] → w.interest ≠ none → w.deleted = false → w.Readable →
    w.ready = true ∨ w.reported ≠ none

/-- **No read edge is lost**, for any order of arrivals, end of input, changes of writability and
reported masks. -/
theorem no_lost_edge (file : Option Bytes) (fd now unread : ℕ) (eof writable : Bool)
    (ls : List Stimulus) :
    (ls.foldl (step file) (accepted fd now unread eof writable)).NoLostEdge := by
  have hinv : (ls.foldl (step file) (accepted fd now unread eof writable)).Inv := by
    refine List.foldlRecOn ls (step file) (inv_accepted fd now unread eof writable) ?_
    exact fun w hw l _ ↦ hw.step file l
  intro htodo hreg hdel hread
  rcases hinv.noticed hreg hdel hread with h | h | ⟨a, ha, -⟩
  · exact .inl h
  · exact .inr h
  · rw [htodo] at ha
    exact absurd ha (by simp)

/-- Four bytes arrive and are reported together with `EPOLLOUT`; only the write callback runs, and
its `epoll_ctl` puts the descriptor back. -/
example :
    let w := [.act, .arrive 3, .epollWait { epollout := true }, .dispatch 1 [] ⟨[], []⟩, .act,
      .act].foldl (step none) (accepted 5 0 0 false true)
    w.unread = 4 ∧ w.todo = [] ∧ w.reported = none ∧ w.ready = true := by
  decide

end Watch

end ReactorServer
