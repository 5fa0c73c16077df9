import ReactorServer.Output.Lifetime

/-!
# Output integrity

What the socket takes should be the complete responses, one after the other, in the order of the
requests.  `Conserves` is the law behind it: what a call sends, and what it leaves pending, is what
was pending before and the responses it has taken on; and at no moment is anything sent that is not
the front of that.  It composes, so it passes from the send loop to a turn of the request loop, to
the loop, and to the life of a connection.

Two things break it.  `sendResponse` and `sendFile` put the new response in the place of the old
one without looking whether that has been sent, and `sendJson` writes past whatever is pending; so
a request must not be dispatched while an earlier response is pending.  And `sendJson` forgets the
rest of its response when the socket blocks.
-/

set_option autoImplicit false

namespace ReactorServer

/-! ## Responses -/

/-- The response an action takes on: that of a request it dispatches, if the reactor thread answers
it. -/
def Act.reply (file : Option Bytes) : Act → Bytes
  | .dispatch d => (answer file d.request d.keepAlive d.allowed).getD []
  | _ => []

/-- The complete responses to the requests dispatched, in order. -/
def replies (file : Option Bytes) (acts : List Act) : Bytes := acts.flatMap (Act.reply file)

@[simp] theorem replies_nil (file : Option Bytes) : replies file [] = [] := rfl
@[simp] theorem replies_cons (file : Option Bytes) (a : Act) (acts : List Act) :
    replies file (a :: acts) = a.reply file ++ replies file acts := rfl
@[simp] theorem replies_append (file : Option Bytes) (as bs : List Act) :
    replies file (as ++ bs) = replies file as ++ replies file bs := List.flatMap_append

theorem replies_eq_nil {file : Option Bytes} {acts : List Act}
    (h : ∀ a ∈ acts, a.reply file = []) : replies file acts = [] := by
  induction acts with
  | nil => rfl
  | cons a acts ih =>
    rw [replies_cons, h a List.mem_cons_self, List.nil_append]
    exact ih fun b hb ↦ h b (List.mem_cons_of_mem _ hb)

/-- **Conservation of output.**  `pending` was to be sent before the actions and `pending'` is to be
sent after them. -/
structure Conserves (file : Option Bytes) (pending pending' : Bytes) (acts : List Act) : Prop where
  /-- Nothing is lost and nothing made up. -/
  total : sentBytes acts ++ pending' = pending ++ replies file acts
  /-- At every moment, what has been sent is the front of what was to be sent. -/
  front : ∀ acts', acts' <+: acts → sentBytes acts' <+: pending ++ replies file acts'

theorem Conserves.trans {file : Option Bytes} {p p' p'' : Bytes} {as bs : List Act}
    (h : Conserves file p p' as) (h' : Conserves file p' p'' bs) :
    Conserves file p p'' (as ++ bs) := by
  refine ⟨?_, fun acts' hpre ↦ ?_⟩
  · rw [sentBytes_append, List.append_assoc, h'.total, ← List.append_assoc, h.total,
      List.append_assoc, replies_append]
  · obtain ⟨t, ht⟩ := hpre
    rcases List.append_eq_append_iff.mp ht with ⟨u, rfl, -⟩ | ⟨u, rfl, rfl⟩
    · exact h.front acts' (List.prefix_append _ _)
    · rw [sentBytes_append, replies_append, ← List.append_assoc, ← h.total, List.append_assoc]
      exact (List.prefix_append_right_inj _).mpr (h'.front u (List.prefix_append _ _))

theorem sentBytes_mono {as bs : List Act} (h : as <+: bs) : sentBytes as <+: sentBytes bs := by
  obtain ⟨t, rfl⟩ := h
  rw [sentBytes_append]
  exact List.prefix_append _ _

/-- Actions that take on no response only have to keep to what is pending. -/
theorem Conserves.of_no_reply {file : Option Bytes} {p p' : Bytes} {acts : List Act}
    (hno : ∀ a ∈ acts, a.reply file = []) (h : sentBytes acts ++ p' = p) :
    Conserves file p p' acts := by
  refine ⟨by rw [replies_eq_nil hno, List.append_nil, h], fun acts' hpre ↦ ?_⟩
  have hsent : sentBytes acts <+: p := ⟨p', h⟩
  rw [replies_eq_nil fun a ha ↦ hno a (hpre.subset ha), List.append_nil]
  exact (sentBytes_mono hpre).trans hsent

/-- Taking on a response. -/
theorem Conserves.dispatch {file : Option Bytes} {p : Bytes} {d : Dispatch} {reply : Bytes}
    (h : (answer file d.request d.keepAlive d.allowed).getD [] = reply) :
    Conserves file p (p ++ reply) [.frame, .dispatch d] := by
  refine ⟨?_, fun acts' hpre ↦ ?_⟩
  · simp [Act.sent, Act.reply, h]
  · have hnil : sentBytes acts' = [] := by
      have hle := sentBytes_mono hpre
      simpa [Act.sent] using hle
    rw [hnil]
    exact List.nil_prefix

/-! ## The handlers -/

theorem Drained.reply {c c' : Conn} {ios : List Act} (h : Drained c c' ios) (file : Option Bytes) :
    ∀ a ∈ ios, a.reply file = [] := by
  intro a ha
  rcases h.acts a ha with rfl | ⟨r, bs, rfl⟩
  · rfl
  · rfl

/-- A drain sends the front of what is pending and leaves the rest. -/
theorem writeFromBuffer_conserves (file : Option Bytes) (c : Conn) (k : Kernel) :
    Conserves file c.pendingBytes (writeFromBuffer c k).conn.pendingBytes
      (writeFromBuffer c k).acts := by
  obtain ⟨c', ios, io', hd, -, hcases⟩ := writeFromBuffer_cases c k
  have hdrain : Conserves file c.pendingBytes c'.pendingBytes ios :=
    .of_no_reply (hd.reply file) hd.bytes
  rcases hcases with ⟨h, -⟩ | ⟨h, -⟩ | ⟨h, -, hnone⟩
  · rw [h]
    refine hdrain.trans (.of_no_reply ?_ rfl)
    simp [stopWrite, enableWriting, updateChannel, Act.reply]
  · rw [h]
    refine hdrain.trans (.of_no_reply ?_ rfl)
    simp [stopWrite, Act.reply]
  · rw [h]
    rw [hnone] at hdrain
    refine hdrain.trans (.of_no_reply ?_ ?_)
    · cases hc : c'.closeAfterWrite <;>
        simp [finishWrite, disableWriting, updateChannel, Act.reply, hc]
    · cases hc : c'.closeAfterWrite <;>
        simp [finishWrite, disableWriting, updateChannel, Act.sent, hc, Conn.pendingBytes,
          Conn.unwritten, Conn.unsentFile]

theorem handleWrite_conserves (file : Option Bytes) (c : Conn) (k : Kernel) :
    Conserves file c.pendingBytes (handleWrite c k).conn.pendingBytes (handleWrite c k).acts := by
  rw [handleWrite]
  split
  · have htouch : Conserves file c.pendingBytes c.pendingBytes [.touch] :=
      .of_no_reply (by simp [Act.reply]) rfl
    exact htouch.trans (writeFromBuffer_conserves file c k)
  · refine .of_no_reply ?_ rfl
    simp [disableWriting, updateChannel, Act.reply]

/-- `sendJson` gets rid of all of its response if no call is answered with `EAGAIN`. -/
theorem sendJson_conserves (file : Option Bytes) {c : Conn} {k : Kernel} (hk : k.NoError)
    (status : ℕ) (body : Bytes) (ka : Bool)
    (hjson : ∀ bs, .jsonIo (.fail .EAGAIN) bs ∉ (sendJson c k status body ka).acts)
    (hp : c.pendingBytes = []) :
    Conserves file (jsonResponse status body ka) (sendJson c k status body ka).conn.pendingBytes
      (sendJson c k status body ka).acts := by
  refine .of_no_reply (fun a ha ↦ ?_) ?_
  · rcases sendJson_acts ha with ⟨_, rfl⟩ | ⟨_, _, rfl⟩ | rfl
    · rfl
    · rfl
    · rfl
  · have hexit : (drain [] .jsonIo (jsonResponse status body ka) k.io).exit = .sent := by
      by_contra hne
      obtain ⟨r, hr, hcall, ⟨-, rfl⟩ | ⟨-, hhard⟩⟩ := drain_stopped hne
      · refine hjson [] ?_
        rw [sendJson, List.cons_append]
        exact List.mem_cons_of_mem _ (List.mem_append_left _ hcall)
      · rw [hk r hr] at hhard
        exact absurd hhard (by simp)
    have htaken := (drain_spec [] .jsonIo (jsonResponse status body ka) k.io).2.1.mp hexit
    have hsent : sentBytes (drain [] .jsonIo (jsonResponse status body ka) k.io).acts =
        jsonResponse status body ka := by
      rw [sentBytes_drain rfl (fun _ _ ↦ rfl), htaken, List.take_length]
    rw [sendJson, hexit, List.cons_append, sentBytes_cons, sentBytes_append, hsent]
    show _ ++ c.pendingBytes = _
    rw [hp]
    simp [Act.sent]

/-! ## The request loop -/

/-- An action comes in turn: no request is dispatched while an earlier response is pending, and no
`write` of `sendJson` is answered with `EAGAIN`. -/
def Act.inTurn : Act → Bool
  | .dispatch d => !d.pending
  | .jsonIo r _ => r != .fail .EAGAIN
  | _ => true

/-- All actions come in turn. -/
def InTurn (acts : List Act) : Prop := ∀ a ∈ acts, a.inTurn = true

instance (acts : List Act) : Decidable (InTurn acts) :=
  inferInstanceAs (Decidable (∀ a ∈ acts, a.inTurn = true))

theorem inTurn_append {as bs : List Act} : InTurn (as ++ bs) ↔ InTurn as ∧ InTurn bs :=
  List.forall_mem_append

/-- The input is rejected. -/
def Act.rejects : Act → Bool
  | .reject _ => true
  | _ => false

/-- Nothing but complete requests: the input is never rejected. -/
def Complete (acts : List Act) : Prop := ∀ a ∈ acts, a.rejects = false

instance (acts : List Act) : Decidable (Complete acts) :=
  inferInstanceAs (Decidable (∀ a ∈ acts, a.rejects = false))

theorem complete_append {as bs : List Act} : Complete (as ++ bs) ↔ Complete as ∧ Complete bs :=
  List.forall_mem_append

theorem serve_conserves {file : Option Bytes} {c : Conn} {k : Kernel} {request : Bytes}
    {ka allowed : Bool} (hk : k.NoError) (hp : c.pendingBytes = [])
    (h : InTurn (serve file c k request ka allowed).acts) :
    Conserves file ((answer file request ka allowed).getD [])
      (serve file c k request ka allowed).conn.pendingBytes
      (serve file c k request ka allowed).acts := by
  have hfile : c.unsentFile = [] := (List.append_eq_nil_iff.mp hp).2
  rcases serve_cases file c k request ka allowed with
    ⟨c', reply, ha, hl, he⟩ | ⟨status, body, ha, he⟩ | ⟨t, ha, -, he⟩
  · have hissue : Conserves file reply reply [.issue ka reply] :=
      .of_no_reply (by simp [Act.reply]) rfl
    have hwrite := writeFromBuffer_conserves file c' k
    rw [hl.pending hfile] at hwrite
    rw [he, ha, Option.getD_some]
    exact hissue.trans hwrite
  · rw [he] at h ⊢
    rw [ha, Option.getD_some]
    have hjson : ∀ bs, .jsonIo (.fail .EAGAIN) bs ∉ (sendJson c k status body ka).acts :=
      fun bs hmem ↦ absurd (h _ hmem) (by simp [Act.inTurn])
    exact sendJson_conserves file hk status body ka hjson hp
  · rw [he, ha, Option.getD_none]
    exact .of_no_reply (by simp [Act.reply]) hp

theorem turn_conserves {file : Option Bytes} {c : Conn} {k : Kernel} {headers text rest : Bytes}
    (hk : k.NoError) (h : InTurn (turn file c k headers text rest).acts) :
    Conserves file c.pendingBytes (turn file c k headers text rest).conn.pendingBytes
      (turn file c k headers text rest).acts := by
  have hk' : (allowRequest k).2.NoError := by rwa [Kernel.NoError, allowRequest_io]
  have hidle : c.outputPending = false := by
    have hd := h (.dispatch ⟨text, wantKeepAlive text headers, (allowRequest k).1,
      c.outputPending⟩) (by simp [turn])
    simpa [Act.inTurn] using hd
  have hp := Conn.pendingBytes_eq_nil_iff.mpr hidle
  have hserve := serve_conserves (c := { c with inputBuffer := rest }) hk' hp (inTurn_append.mp h).2
  rw [hp]
  exact (Conserves.dispatch rfl).trans hserve

theorem processRequests_conserves {file : Option Bytes} {c : Conn} {k : Kernel} (hk : k.NoError)
    (hcomplete : Complete (processRequests file c k).acts)
    (h : InTurn (processRequests file c k).acts) :
    Conserves file c.pendingBytes (processRequests file c k).conn.pendingBytes
      (processRequests file c k).acts := by
  refine processRequests_induct file (P := fun c k r ↦ k.NoError →
    Complete r.acts → InTurn r.acts →
      Conserves file c.pendingBytes r.conn.pendingBytes r.acts) ?_ ?_ ?_ ?_ c k hk hcomplete h
  · intro c k _ _ _ _
    exact .of_no_reply (by simp [Act.reply]) rfl
  · intro c k status message _ _ hcomplete _
    exact absurd (hcomplete (.reject status) (by simp [rejectInput])) (by simp [Act.rejects])
  · intro c k headers text rest _ _ hk _ h
    exact turn_conserves hk h
  · intro c k headers text rest _ _ ih hk hcomplete h
    have hk' : (turn file c k headers text rest).kernel.NoError :=
      fun r hr ↦ hk r ((turn_io ..).subset hr)
    rw [Run.andThen_acts, inTurn_append] at h
    rw [Run.andThen_acts, complete_append] at hcomplete
    exact (turn_conserves hk h.1).trans (ih hk' hcomplete.2 h.2)

theorem reads_conserve {acts : List Act} (h : ∀ a ∈ acts, a = .touch ∨ ∃ r, a = .read r)
    (file : Option Bytes) (p : Bytes) : Conserves file p p acts := by
  have hsent : sentBytes acts = [] := by
    rw [sentBytes, List.flatMap_eq_nil_iff]
    intro a ha
    rcases h a ha with rfl | ⟨r, rfl⟩
    · rfl
    · rfl
  refine .of_no_reply (fun a ha ↦ ?_) (by rw [hsent, List.nil_append])
  rcases h a ha with rfl | ⟨r, rfl⟩
  · rfl
  · rfl

theorem handle_conserves {file : Option Bytes} {c : Conn} {e : Event} (hk : e.kernel.NoError)
    (hcomplete : Complete (handle file c e).acts)
    (h : InTurn (handle file c e).acts) :
    Conserves file c.pendingBytes (handle file c e).conn.pendingBytes (handle file c e).acts := by
  cases e with
  | writable k => exact handleWrite_conserves file c k
  | readable now reads k =>
    rw [handle] at h hcomplete ⊢
    obtain ⟨acts, hacts, ⟨-, -, he⟩ | ⟨-, he⟩⟩ := handleMessage_cases file c now reads k
    · rw [he, Run.after_acts] at h hcomplete
      rw [inTurn_append] at h
      rw [complete_append] at hcomplete
      rw [he]
      exact (reads_conserve hacts file c.pendingBytes).trans
        (processRequests_conserves (c := c.received now (readAll reads).1) hk hcomplete.2 h.2)
    · rw [he]
      exact (reads_conserve hacts file c.pendingBytes).trans
        (.of_no_reply (by simp [Act.reply]) rfl)

/-! ## Whole lives -/

/-- **Output integrity.**  In a life without a hard write error in which every request comes in
turn, nothing is lost: what has been sent and what is pending are the complete responses, in the
order of the requests; and at every moment what has been sent is the front of the responses to the
requests dispatched so far. -/
theorem output_integrity (file : Option Bytes) (fd now : ℕ) (es : List Event)
    (hk : ∀ e ∈ es, e.kernel.NoError)
    (hcomplete : Complete (Session.run file (.start fd now) es).trace)
    (h : InTurn (Session.run file (.start fd now) es).trace) :
    sentBytes (Session.run file (.start fd now) es).trace ++
          (Session.run file (.start fd now) es).conn.pendingBytes =
        replies file (Session.run file (.start fd now) es).trace ∧
      ∀ trace', trace' <+: (Session.run file (.start fd now) es).trace →
        sentBytes trace' <+: replies file trace' := by
  have key : Conserves file [] (Session.run file (.start fd now) es).conn.pendingBytes
      (Session.run file (.start fd now) es).trace := by
    induction es using List.reverseRecOn with
    | nil =>
      refine .of_no_reply ?_ rfl
      simp [Session.run, Session.start, newConn, enableReadingET, updateChannel, Act.reply]
    | append_singleton es e ih =>
      rw [Session.run_concat] at *
      have hk' : ∀ e ∈ es, e.kernel.NoError := fun e he ↦ hk e (List.mem_append_left _ he)
      generalize Session.run file (.start fd now) es = s at *
      cases halive : s.alive with
      | false =>
        rw [Session.step_of_not_alive file halive] at *
        exact ih hk' hcomplete h
      | true =>
        rw [Session.step_of_alive file halive] at *
        obtain ⟨hcomplete₁, hcomplete₂⟩ := complete_append.mp hcomplete
        obtain ⟨h₁, h₂⟩ := inTurn_append.mp h
        exact (ih hk' hcomplete₁ h₁).trans (handle_conserves (hk e (by simp)) hcomplete₂ h₂)
  exact ⟨key.total, key.front⟩

/-- Two requests, the second one after the reply to the first has been sent in three pieces. -/
def twoInTurn : List Event :=
  [.readable 0 [.got (lit "GET /hello HTTP/1.1\r\n\r\n")] ⟨[.took 10, .fail .EAGAIN], []⟩,
   .writable ⟨[.fail .EINTR, .took 7, .fail .EAGAIN], []⟩, .writable ⟨[], []⟩,
   .readable 1 [.got (lit "POST /logout HTTP/1.1\r\n\r\n")] ⟨[.took 20], []⟩]

theorem output_integrity_twoInTurn :
    sentBytes (Session.run none (.start 5 0) twoInTurn).trace ++
        (Session.run none (.start 5 0) twoInTurn).conn.pendingBytes =
      replies none (Session.run none (.start 5 0) twoInTurn).trace :=
  (output_integrity none 5 0 twoInTurn (by decide) (by decide +kernel) (by decide +kernel)).1

/-- Two pipelined requests; the socket takes ten bytes of the first reply and blocks. -/
def twoAtOnce : List Event :=
  [.readable 0 [.got (lit "GET /hello HTTP/1.1\r\n\r\nGET /hello HTTP/1.1\r\n\r\n")]
    ⟨[.took 10, .fail .EAGAIN], []⟩]

/-- The second reply overwrites the rest of the first. -/
theorem reply_overwritten :
    (∀ e ∈ twoAtOnce, e.kernel.NoError) ∧
      Complete (Session.run none (.start 5 0) twoAtOnce).trace ∧
      ¬ sentBytes (Session.run none (.start 5 0) twoAtOnce).trace <+:
        replies none (Session.run none (.start 5 0) twoAtOnce).trace := by
  refine ⟨by decide, by decide +kernel, by decide +kernel⟩

end ReactorServer
