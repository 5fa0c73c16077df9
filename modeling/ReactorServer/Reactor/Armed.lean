import ReactorServer.Reactor.Edge

/-!
# `EPOLLOUT` is armed while output is pending

A response that the socket does not take at once waits for `EPOLLOUT`.  If the flag were missing from
the interest mask the rest would never be sent, and if it stayed there with nothing to send the loop
would spin on a socket that can be written most of the time.

Every drain of the output that does not delete the connection ends in an `epoll_ctl` whose mask has
`EPOLLOUT` exactly if something is left (`Drains`), and nothing else touches the output or the flag
(`Settles`).  So between two calls the flag says whether something is pending, whatever the calls
were (`Armed`).  The same invariant carries the two consequences: a socket with room for pending
output is on the ready list, or has been reported with `EPOLLOUT`; and who is reported with it has
something to send.
-/

set_option autoImplicit false

namespace ReactorServer

/-! ## Calls of a connection -/

/-- A call of one of the member functions that send or are called back. -/
inductive Invocation where
  | sendResponse (statusCode : ℕ) (contentType body : Bytes) (keepAlive : Bool) (k : Kernel)
  | sendFile (statusCode : ℕ) (contentType content : Bytes) (keepAlive : Bool) (k : Kernel)
  | handleMessage (now : ℕ) (reads : List ReadResult) (k : Kernel)
  | handleWrite (k : Kernel)
  deriving DecidableEq, Repr

/-- What it does. -/
def invoke (file : Option Bytes) (c : Conn) : Invocation → Run
  | .sendResponse statusCode contentType body keepAlive k =>
    sendResponse c k statusCode contentType body keepAlive
  | .sendFile statusCode contentType content keepAlive k =>
    sendFile c k statusCode contentType content keepAlive
  | .handleMessage now reads k => handleMessage file c now reads k
  | .handleWrite k => handleWrite c k

/-! ## The mask after some actions -/

/-- The action is an `epoll_ctl`. -/
def Act.isCtl : Act → Bool
  | .ctl .. => true
  | _ => false

/-- The interest mask after an action. -/
def Act.mask (m : Option Events) : Act → Option Events
  | .ctl _ ev => some ev
  | _ => m

/-- The interest mask after some actions: that of the last `epoll_ctl`, if there is one. -/
def lastMask (m : Option Events) (acts : List Act) : Option Events := acts.foldl Act.mask m

theorem lastMask_append (m : Option Events) (as bs : List Act) :
    lastMask m (as ++ bs) = lastMask (lastMask m as) bs := List.foldl_append

theorem Act.mask_of_not_isCtl {a : Act} (h : a.isCtl = false) (m : Option Events) : a.mask m = m := by
  cases a with
  | ctl add ev => cases h
  | _ => rfl

theorem lastMask_of_not_isCtl {acts : List Act} (h : ∀ a ∈ acts, a.isCtl = false)
    (m : Option Events) : lastMask m acts = m := by
  induction acts generalizing m with
  | nil => rfl
  | cons a acts ih =>
    obtain ⟨ha, hacts⟩ := List.forall_mem_cons.mp h
    rw [lastMask, List.foldl_cons, Act.mask_of_not_isCtl ha]
    exact ih hacts m

/-- The flag is in the mask exactly if output is pending. -/
def Conn.Armed (c : Conn) : Prop := c.channel.events.epollout = c.outputPending

/-! ## Drains -/

/-- A drain of the output has led to `c'`: unless it deleted the connection, it has set the mask, and
set it right. -/
def Drains (c' : Conn) (acts : List Act) : Prop :=
  .delete ∉ acts → c'.Armed ∧ (∃ a ∈ acts, a.isCtl = true) ∧
    ∀ m, lastMask m acts = some c'.channel.events

theorem Drains.after {c' : Conn} {acts : List Act} (h : Drains c' acts) (as : List Act) :
    Drains c' (as ++ acts) := by
  intro hdel
  obtain ⟨harmed, ⟨a, ha, hctl⟩, hmask⟩ := h fun hmem ↦ hdel (List.mem_append_right _ hmem)
  refine ⟨harmed, ⟨a, List.mem_append_right _ ha, hctl⟩, fun m ↦ ?_⟩
  rw [lastMask_append]
  exact hmask _

/-- **Every drain sets the mask right.** -/
theorem writeFromBuffer_drains (c : Conn) (k : Kernel) :
    Drains (writeFromBuffer c k).conn (writeFromBuffer c k).acts := by
  obtain ⟨c', ios, io', -, -, ⟨h, -, hpending, -⟩ | ⟨h, -⟩ | ⟨h, -⟩⟩ := writeFromBuffer_cases c k
  · rw [h]
    refine Drains.after (fun _ ↦ ⟨?_, ⟨_, List.mem_singleton.mpr rfl, rfl⟩, fun m ↦ rfl⟩) ios
    -- something is left, and the flag is set
    have hout : c'.outputPending = true := by
      rw [← Bool.not_eq_false, ← Conn.pendingBytes_eq_nil_iff]
      exact hpending
    exact hout.symm
  · rw [h]
    exact Drains.after (fun hdel ↦ absurd (List.mem_singleton.mpr rfl) hdel) ios
  · rw [h]
    refine Drains.after (fun hdel ↦ ?_) ios
    have hclose : c'.closeAfterWrite = false := by
      cases hclose : c'.closeAfterWrite with
      | false => rfl
      | true => exact absurd (by simp [finishWrite, hclose]) hdel
    refine ⟨rfl, ⟨(disableWriting c'.channel).2, by simp [finishWrite], rfl⟩, fun m ↦ ?_⟩
    rw [finishWrite, hclose]
    rfl

theorem sendResponse_drains (c : Conn) (k : Kernel) (statusCode : ℕ) (contentType body : Bytes)
    (keepAlive : Bool) :
    Drains (sendResponse c k statusCode contentType body keepAlive).conn
      (sendResponse c k statusCode contentType body keepAlive).acts := by
  obtain ⟨c', -, h⟩ := sendResponse_loaded c k statusCode contentType body keepAlive
  rw [h]
  exact (writeFromBuffer_drains c' k).after _

theorem sendFile_drains (c : Conn) (k : Kernel) (statusCode : ℕ) (contentType content : Bytes)
    (keepAlive : Bool) :
    Drains (sendFile c k statusCode contentType content keepAlive).conn
      (sendFile c k statusCode contentType content keepAlive).acts := by
  obtain ⟨c', -, h⟩ := sendFile_loaded c k statusCode contentType content keepAlive
  rw [h]
  exact (writeFromBuffer_drains c' k).after _

theorem handleWrite_drains (c : Conn) (k : Kernel) :
    Drains (handleWrite c k).conn (handleWrite c k).acts := by
  rw [handleWrite]
  cases hout : c.outputPending with
  | true => exact (writeFromBuffer_drains c k).after [.touch]
  | false =>
    exact fun _ ↦ ⟨hout.symm, ⟨(disableWriting c.channel).2, by simp, rfl⟩, fun m ↦ rfl⟩

/-! ## Everything else -/

/-- A call has led from `c` to `c'`: it has drained the output, or left it alone and the mask too. -/
def Settles (c c' : Conn) (acts : List Act) : Prop :=
  Drains c' acts ∨
    (∀ a ∈ acts, a.isCtl = false) ∧ c'.channel = c.channel ∧ c'.outputPending = c.outputPending

theorem Settles.trans {c c' c'' : Conn} {as bs : List Act} (h : Settles c c' as)
    (h' : Settles c' c'' bs) : Settles c c'' (as ++ bs) := by
  rcases h' with h' | ⟨hacts', hchannel', hout'⟩
  · exact .inl (h'.after as)
  rcases h with h | ⟨hacts, hchannel, hout⟩
  · refine .inl fun hdel ↦ ?_
    obtain ⟨harmed, ⟨a, ha, hctl⟩, hmask⟩ := h fun hmem ↦ hdel (List.mem_append_left _ hmem)
    refine ⟨?_, ⟨a, List.mem_append_left _ ha, hctl⟩, fun m ↦ ?_⟩
    · rw [Conn.Armed, hchannel', hout']
      exact harmed
    · rw [lastMask_append, lastMask_of_not_isCtl hacts', hmask, hchannel']
  · exact .inr ⟨List.forall_mem_append.mpr ⟨hacts, hacts'⟩, hchannel'.trans hchannel, hout'.trans hout⟩

theorem Settles.of_acts {c : Conn} {acts : List Act} (h : ∀ a ∈ acts, a.isCtl = false) :
    Settles c c acts := .inr ⟨h, rfl, rfl⟩

theorem serve_settles (file : Option Bytes) (c : Conn) (k : Kernel) (request : Bytes)
    (ka allowed : Bool) :
    Settles c (serve file c k request ka allowed).conn (serve file c k request ka allowed).acts := by
  rcases serve_cases file c k request ka allowed with
    ⟨c', reply, -, -, h⟩ | ⟨status, body, -, h⟩ | ⟨t, -, -, h⟩
  · rw [h]
    exact .inl ((writeFromBuffer_drains c' k).after _)
  · rw [h]
    refine .of_acts fun a ha ↦ ?_
    rcases sendJson_acts ha with ⟨_, rfl⟩ | ⟨_, _, rfl⟩ | rfl
    · rfl
    · rfl
    · rfl
  · rw [h]
    exact .of_acts (by simp [Act.isCtl])

theorem turn_settles (file : Option Bytes) (c : Conn) (k : Kernel) (headers text rest : Bytes) :
    Settles c (turn file c k headers text rest).conn (turn file c k headers text rest).acts := by
  have hhead : Settles c { c with inputBuffer := rest } [.frame, .dispatch ⟨text,
    wantKeepAlive text headers, (allowRequest k).1, c.outputPending⟩] :=
    .inr ⟨by simp [Act.isCtl], rfl, rfl⟩
  exact hhead.trans (serve_settles ..)

theorem rejectInput_drains (c : Conn) (k : Kernel) (status : ℕ) (message : String) :
    Drains (rejectInput c k status message).conn (rejectInput c k status message).acts :=
  Drains.after (sendResponse_drains _ k status _ _ false) _

theorem processRequests_settles (file : Option Bytes) (c : Conn) (k : Kernel) :
    Settles c (processRequests file c k).conn (processRequests file c k).acts := by
  refine processRequests_induct file (P := fun c _ r ↦ Settles c r.conn r.acts) ?_ ?_ ?_ ?_ c k
  · intro c k _
    exact .of_acts (by simp [Act.isCtl])
  · intro c k status message _
    exact .inl (rejectInput_drains c k status message)
  · intro c k headers text rest _ _
    exact turn_settles file c k headers text rest
  · intro c k headers text rest _ _ ih
    exact (turn_settles file c k headers text rest).trans ih

theorem handleMessage_settles (file : Option Bytes) (c : Conn) (now : ℕ) (reads : List ReadResult)
    (k : Kernel) :
    Settles c (handleMessage file c now reads k).conn (handleMessage file c now reads k).acts := by
  obtain ⟨acts, hacts, hcases⟩ := handleMessage_cases file c now reads k
  have hreads : Settles c (c.received now (readAll reads).1) acts := by
    refine .inr ⟨fun a ha ↦ ?_, rfl, rfl⟩
    rcases hacts a ha with rfl | ⟨r, rfl⟩
    · rfl
    · rfl
  rcases hcases with ⟨-, -, h⟩ | ⟨-, h⟩
  · rw [h]
    exact hreads.trans (processRequests_settles ..)
  · rw [h]
    exact hreads.trans (.of_acts (by simp [Act.isCtl]))

/-- **Every call settles the output.** -/
theorem invoke_settles (file : Option Bytes) (c : Conn) (i : Invocation) :
    Settles c (invoke file c i).conn (invoke file c i).acts := by
  cases i with
  | sendResponse statusCode contentType body keepAlive k =>
    exact .inl (sendResponse_drains c k statusCode contentType body keepAlive)
  | sendFile statusCode contentType content keepAlive k =>
    exact .inl (sendFile_drains c k statusCode contentType content keepAlive)
  | handleMessage now reads k => exact handleMessage_settles file c now reads k
  | handleWrite k => exact .inl (handleWrite_drains c k)

/-- And so does every event; one with `EPOLLOUT` in its mask drains the output. -/
theorem handleEvent_settles (file : Option Bytes) (revent : Events) (c : Conn) (now : ℕ)
    (reads : List ReadResult) (k : Kernel) :
    Settles c (handleEvent file revent c now reads k).conn (handleEvent file revent c now reads k).acts ∧
      (revent.epollout = true → Drains (handleEvent file revent c now reads k).conn
        (handleEvent file revent c now reads k).acts) := by
  rw [handleEvent]
  by_cases hout : revent.epollout = true
  · rw [if_pos hout]
    exact ⟨.inl (handleWrite_drains c k), fun _ ↦ handleWrite_drains c k⟩
  rw [if_neg hout]
  refine ⟨?_, fun h ↦ absurd h hout⟩
  by_cases hread : revent.wantsRead = true
  · rw [if_pos hread]
    exact handleMessage_settles file c now reads k
  · rw [if_neg hread]
    exact .of_acts (by simp)

/-! ## The connection and its descriptor -/

namespace Watch

/-- What can happen to a connection: what happens to its socket, an event of the loop, or a call of
one of its functions.  Besides the flags of the mask, `epoll_wait` reports `EPOLLHUP` and
`EPOLLERR`. -/
inductive Prompt where
  | arrive (n : ℕ)
  | peerCloses
  | writable (b : Bool)
  | epollWait (hup err : Bool)
  | dispatch (now : ℕ) (reads : List ReadResult) (k : Kernel)
  | act
  /-- A call, between two events. -/
  | invoke (i : Invocation)
  deriving DecidableEq, Repr

/-- One step. -/
def prompt (file : Option Bytes) (w : Watch) : Prompt → Watch
  | .arrive n => w.step file (.arrive n)
  | .peerCloses => w.step file .peerCloses
  | .writable b => w.step file (.writable b)
  | .epollWait hup err => w.step file (.epollWait { epollhup := hup, epollerr := err })
  | .dispatch now reads k => w.step file (.dispatch now reads k)
  | .act => w.step file .act
  | .invoke i =>
    if w.todo = [] ∧ w.reported = none ∧ w.deleted = false then
      { w with conn := (ReactorServer.invoke file w.conn i).conn,
               todo := (ReactorServer.invoke file w.conn i).acts }
    else w

/-- What holds in every state, also in the middle of a call.  All of it is about a connection that
has not been deleted, and is not going to be by the call that is running. -/
structure Armed (w : Watch) : Prop where
  /-- The mask will be that of the channel. -/
  mask : w.deleted = false → .delete ∉ w.todo → lastMask w.interest w.todo = some w.conn.channel.events
  conn : w.deleted = false → .delete ∉ w.todo → w.conn.Armed
  /-- Room for pending output has been noticed, or an `epoll_ctl` is going to notice it. -/
  noticed : w.deleted = false → .delete ∉ w.todo → w.conn.outputPending = true → w.writable = true →
    w.ready = true ∨ (∃ mask, w.reported = some mask ∧ mask.epollout = true) ∨
      ∃ a ∈ w.todo, a.isCtl = true
  /-- A report is about to be handled. -/
  reported : ∀ mask, w.reported = some mask → w.todo = [] ∧ w.deleted = false ∧
    (mask.epollout = true → w.conn.outputPending = true)

theorem armed_accepted (fd now unread : ℕ) (eof writable : Bool) :
    (accepted fd now unread eof writable).Armed where
  mask _ _ := rfl
  conn _ _ := rfl
  noticed _ _ hout := by cases hout
  reported _ h := by cases h

/-- Something happens that puts the descriptor on the ready list, or leaves it where it is. -/
theorem Armed.wake {w : Watch} (h : w.Armed) (ev : Events) : (w.wake ev).Armed where
  mask := h.mask
  conn := h.conn
  noticed hdel htodo hout hroom := by
    rcases h.noticed hdel htodo hout hroom with hready | hrest
    · exact .inl (by simp [Watch.wake, hready])
    · exact .inr hrest
  reported := h.reported

/-- Room for output puts a connection that waits for it on the ready list. -/
theorem Armed.room {w : Watch} (h : w.Armed) (b : Bool) :
    (({ w with writable := b } : Watch).wake { epollout := b }).Armed where
  mask := h.mask
  conn := h.conn
  noticed hdel htodo hout hroom := by
    have hroom : b = true := hroom
    by_cases hctl : ∃ a ∈ w.todo, a.isCtl = true
    · exact .inr (.inr hctl)
    refine .inl ?_
    have hinterest : w.interest = some w.conn.channel.events := by
      rw [← h.mask hdel htodo, lastMask_of_not_isCtl]
      intro a ha
      by_contra hne
      exact hctl ⟨a, ha, by simpa using hne⟩
    have hflag : w.conn.channel.events.epollout = true := (h.conn hdel htodo).trans hout
    simp [Watch.wake, hinterest, Events.meets, hroom, hflag]
  reported := h.reported

theorem Armed.epollWait {w : Watch} (h : w.Armed) (file : Option Bytes) (hup err : Bool) :
    (w.step file (.epollWait { epollhup := hup, epollerr := err })).Armed := by
  rw [Watch.step]
  cases hi : w.interest with
  | none => exact h
  | some interest =>
    dsimp only
    split
    · rename_i hc
      obtain ⟨-, -, htodo, hdel⟩ := hc
      have hnot : Act.delete ∉ w.todo := by simp [htodo]
      have hinterest : interest = w.conn.channel.events := by
        have hmask := h.mask hdel hnot
        rw [htodo, hi] at hmask
        exact Option.some.inj hmask
      have harmed : interest.epollout = w.conn.outputPending := by
        rw [hinterest]
        exact h.conn hdel hnot
      have hout : (w.poll.report interest { epollhup := hup, epollerr := err }).epollout =
          (w.writable && w.conn.outputPending) := by
        simp [Events.report, poll, harmed]
      refine ⟨fun hdel' hnot' ↦ ?_, h.conn, fun _ _ hpending hroom ↦ .inr (.inl ?_), fun mask hm ↦ ?_⟩
      · rw [← h.mask hdel' hnot', ← hi]
      · have hroom : w.writable = true := hroom
        have hpending : w.conn.outputPending = true := hpending
        rw [hroom, hpending] at hout
        exact ⟨_, if_pos (by rw [hout]; rfl), hout⟩
      · refine ⟨htodo, hdel, fun hflag ↦ ?_⟩
        dsimp only at hm
        split at hm
        · obtain rfl := Option.some.inj hm
          rw [hout, Bool.and_eq_true] at hflag
          exact hflag.2
        · cases hm
    · exact h

/-- **A call that settles the output** keeps the invariant. -/
theorem Armed.settle {w : Watch} (h : w.Armed) {r : Run} (htodo : w.todo = []) (hdel : w.deleted = false)
    (hr : Settles w.conn r.conn r.acts)
    (hreported : ∀ mask, w.reported = some mask → mask.epollout = true → Drains r.conn r.acts) :
    ({ w with conn := r.conn, reported := none, todo := r.acts } : Watch).Armed := by
  have hnot : Act.delete ∉ w.todo := by simp [htodo]
  have hmask := h.mask hdel hnot
  rw [htodo] at hmask
  rcases hr with hr | ⟨hacts, hchannel, hout⟩
  · refine ⟨fun _ hnot' ↦ (hr hnot').2.2 _, fun _ hnot' ↦ (hr hnot').1, fun _ hnot' _ _ ↦ ?_, ?_⟩
    · exact .inr (.inr (hr hnot').2.1)
    · exact fun mask hm ↦ by cases hm
  · refine ⟨fun _ _ ↦ ?_, fun _ _ ↦ ?_, fun _ hnot' hpending hroom ↦ ?_, fun mask hm ↦ by cases hm⟩
    · rw [lastMask_of_not_isCtl hacts]
      show w.interest = some r.conn.channel.events
      rw [hchannel]
      exact hmask
    · rw [Conn.Armed, hchannel, hout]
      exact h.conn hdel hnot
    · have hpending : r.conn.outputPending = true := hpending
      rw [hout] at hpending
      rcases h.noticed hdel hnot hpending hroom with hready | ⟨mask, hm, hflag⟩ | ⟨a, ha, -⟩
      · exact .inl hready
      · -- a report with the flag makes the loop call `handleWrite`, which drains
        exact .inr (.inr (hreported mask hm hflag hnot').2.1)
      · rw [htodo] at ha
        cases ha

/-- Nothing is reported in the middle of a call. -/
theorem Armed.reported_eq_none {w : Watch} (h : w.Armed) {a : Act} {todo : List Act}
    (htodo : w.todo = a :: todo) : w.reported = none := by
  cases hr : w.reported with
  | none => rfl
  | some mask =>
    have hnil := (h.reported mask hr).1
    rw [htodo] at hnil
    cases hnil

/-- An `epoll_ctl` of the running call. -/
theorem Armed.ctl {w : Watch} (h : w.Armed) {add : Bool} {ev : Events} {todo : List Act}
    (htodo : w.todo = .ctl add ev :: todo) :
    ({ w with interest := some ev, ready := w.ready || w.poll.meets ev, todo := todo } :
      Watch).Armed := by
  have hreported := h.reported_eq_none htodo
  have hcons : ∀ {l : List Act}, Act.delete ∉ l → Act.delete ∉ .ctl add ev :: l := by simp
  obtain ⟨hmask, hconn, -, -⟩ := h
  rw [htodo] at hmask hconn
  refine ⟨fun hdel hnot ↦ hmask hdel (hcons hnot), fun hdel hnot ↦ hconn hdel (hcons hnot),
    fun hdel hnot hout hroom ↦ ?_, fun mask hm ↦ absurd (hreported.symm.trans hm) (by simp)⟩
  by_cases hctl : ∃ a ∈ todo, a.isCtl = true
  · exact .inr (.inr hctl)
  -- the mask that is set now is the final one, and the socket has room
  have hlast : lastMask (some ev) todo = some w.conn.channel.events := hmask hdel (hcons hnot)
  rw [lastMask_of_not_isCtl] at hlast
  · have hflag : ev.epollout = true := by
      rw [Option.some.inj hlast]
      exact (hconn hdel (hcons hnot)).trans hout
    have hroom : w.writable = true := hroom
    exact .inl (by simp [Events.meets, poll, hroom, hflag])
  · intro b hb
    by_contra hne
    exact hctl ⟨b, hb, by simpa using hne⟩

/-- An action that touches neither the interest mask nor the connection. -/
theorem Armed.pass {w : Watch} (h : w.Armed) {a : Act} {todo : List Act}
    (htodo : w.todo = a :: todo) (hctl : a.isCtl = false) (hdelete : a ≠ .delete) (n : ℕ) :
    ({ w with unread := n, todo := todo } : Watch).Armed := by
  have hreported := h.reported_eq_none htodo
  have hcons : ∀ {l : List Act}, Act.delete ∉ l → Act.delete ∉ a :: l := by
    rintro l hl hmem
    rcases List.mem_cons.mp hmem with rfl | hmem
    · exact hdelete rfl
    · exact hl hmem
  have hfold : lastMask w.interest (a :: todo) = lastMask w.interest todo := by
    rw [lastMask, List.foldl_cons, Act.mask_of_not_isCtl hctl]
    rfl
  obtain ⟨hmask, hconn, hnoticed, -⟩ := h
  rw [htodo] at hmask hconn hnoticed
  refine ⟨fun hdel hnot ↦ hfold ▸ hmask hdel (hcons hnot),
    fun hdel hnot ↦ hconn hdel (hcons hnot), fun hdel hnot hout hroom ↦ ?_,
    fun mask hm ↦ absurd (hreported.symm.trans hm) (by simp)⟩
  rcases hnoticed hdel (hcons hnot) hout hroom with hready | hrep | ⟨b, hb, hb'⟩
  · exact .inl hready
  · exact .inr (.inl hrep)
  · rcases List.mem_cons.mp hb with rfl | hb
    · exact absurd (hctl.symm.trans hb') (by simp)
    · exact .inr (.inr ⟨b, hb, hb'⟩)

/-- One action of the running call. -/
theorem Armed.act {w : Watch} (h : w.Armed) (file : Option Bytes) : (w.step file .act).Armed := by
  rw [Watch.step]
  cases htodo : w.todo with
  | nil => exact h
  | cons a todo =>
    dsimp only
    cases hp : w.perform a with
    | none => exact h
    | some w' =>
      rcases perform_cases hp with
        ⟨add, ev, rfl, rfl⟩ | ⟨rfl, rfl⟩ | ⟨rfl, rfl, -⟩ | ⟨hr, n, -, rfl⟩
      · exact h.ctl htodo
      · have hreported := h.reported_eq_none htodo
        exact ⟨fun hdel ↦ (by cases hdel), fun hdel ↦ (by cases hdel), fun hdel ↦ (by cases hdel),
          fun mask hm ↦ absurd (hreported.symm.trans hm) (by simp)⟩
      · exact h.pass htodo rfl (by simp) w'.unread
      · have hctl : a.isCtl = false := by
          cases a with
          | ctl add ev => cases hr
          | _ => rfl
        exact h.pass htodo hctl (by rintro rfl; cases hr) n

/-- **The invariant survives every step.** -/
theorem Armed.prompt {w : Watch} (h : w.Armed) (file : Option Bytes) (p : Prompt) :
    (w.prompt file p).Armed := by
  cases p with
  | arrive n =>
    have harrived : ({ w with unread := w.unread + n + 1 } : Watch).Armed :=
      ⟨h.mask, h.conn, h.noticed, h.reported⟩
    exact harrived.wake { epollin := true }
  | peerCloses =>
    have hclosed : ({ w with eof := true } : Watch).Armed :=
      ⟨h.mask, h.conn, h.noticed, h.reported⟩
    exact hclosed.wake { epollin := true, epollrdhup := true }
  | writable b => exact h.room b
  | epollWait hup err => exact h.epollWait file hup err
  | dispatch now reads k =>
    rw [Watch.prompt, Watch.step]
    cases hr : w.reported with
    | none => exact h
    | some mask =>
      dsimp only
      split
      · rename_i hc
        obtain ⟨hsettles, hdrains⟩ := handleEvent_settles file mask w.conn now reads k
        refine h.settle hc.1 hc.2 hsettles fun mask' hm' ↦ ?_
        obtain rfl := Option.some.inj (hr.symm.trans hm')
        exact hdrains
      · exact h
  | act => exact h.act file
  | invoke i =>
    rw [Watch.prompt]
    split
    · rename_i hc
      obtain ⟨htodo, hr, hdel⟩ := hc
      have hsettle := h.settle htodo hdel (invoke_settles file w.conn i) fun mask hm ↦
        absurd (hr.symm.trans hm) (by simp)
      rw [← hr] at hsettle
      exact hsettle
    · exact h

/-- The flag is right, and so is what follows from it. -/
structure OutputWatched (w : Watch) : Prop where
  /-- `EPOLLOUT` is in the mask exactly while output is pending. -/
  armed : w.conn.channel.events.epollout = true ↔ w.conn.outputPending = true
  /-- The kernel has that mask. -/
  interest : w.interest = some w.conn.channel.events
  /-- When the socket has room for pending output, a write event is on its way. -/
  noticed : w.conn.outputPending = true → w.writable = true →
    w.ready = true ∨ ∃ mask, w.reported = some mask ∧ mask.epollout = true
  /-- A write event finds something to send. -/
  reported : ∀ mask, w.reported = some mask → mask.epollout = true → w.conn.outputPending = true

/-- **`EPOLLOUT` is armed exactly while output is pending**, between any two calls in the life of a
connection that has not been deleted. -/
theorem epollout_iff_pending (file : Option Bytes) (fd now unread : ℕ) (eof writable : Bool)
    (ps : List Prompt) :
    let w := ps.foldl (prompt file) (accepted fd now unread eof writable)
    w.todo = [] → w.deleted = false → w.OutputWatched := by
  intro w htodo hdel
  have harmed : w.Armed := by
    refine List.foldlRecOn ps (prompt file) (armed_accepted fd now unread eof writable) ?_
    exact fun w hw p _ ↦ hw.prompt file p
  have hnot : Act.delete ∉ w.todo := by simp [htodo]
  have hmask := harmed.mask hdel hnot
  rw [htodo] at hmask
  refine ⟨Bool.eq_iff_iff.mp (harmed.conn hdel hnot), hmask, fun hout hroom ↦ ?_, fun mask hm ↦ ?_⟩
  · rcases harmed.noticed hdel hnot hout hroom with hready | hrep | ⟨a, ha, -⟩
    · exact .inl hready
    · exact .inr hrep
    · rw [htodo] at ha
      cases ha
  · exact (harmed.reported mask hm).2.2

/-- A page of which the socket takes five bytes, and a write event that is reported for the rest. -/
def fiveBytes : List Prompt :=
  [.act, .invoke (.sendResponse 200 (lit "text/html") (lit "hi") true ⟨[.took 5, .fail .EAGAIN], []⟩),
    .act, .act, .act, .act, .act, .act, .writable true, .epollWait false false]

theorem epollout_iff_pending_fiveBytes :
    (fiveBytes.foldl (prompt none) (accepted 7 0 0 false false)).conn.outputPending = true ∧
      (fiveBytes.foldl (prompt none) (accepted 7 0 0 false false)).OutputWatched :=
  ⟨by decide +kernel, epollout_iff_pending none 7 0 0 false false fiveBytes (by decide +kernel)
    (by decide +kernel)⟩

end Watch

end ReactorServer
