import ReactorServer.Output.Lifetime
import ReactorServer.Lib.Machine

/-!
# After a closing reply

A reply that is not keep-alive announces the end of the connection, and the connection is closed
when the last byte of it has been sent.  Until then, if the socket blocks, the connection is still
registered for reading, and a read event runs the request loop on it again: `closeAfterWrite_` is
consulted by nothing but the end of `writeFromBuffer`.  Whatever complete request the loop finds is
served, and its reply takes the place of the one that was pending.

`nothing_served_iff` says exactly when this does not happen: when no read event that reaches the
connection after a closing reply gives the request loop anything to act on.
-/

set_option autoImplicit false

namespace ReactorServer

open Machine

/-! ## Closing replies in a list of actions -/

/-- A reply that is not keep-alive is issued through `sendResponse` or `sendFile`. -/
def Act.closes : Act → Bool
  | .issue keepAlive _ => !keepAlive
  | _ => false

/-- A request is dispatched, or a reply takes the place of whatever is pending. -/
def Act.serves : Act → Bool
  | .dispatch _ => true
  | .issue .. => true
  | _ => false

/-- Everything after the first closing reply. -/
def afterClosingReply : List Act → List Act
  | [] => []
  | a :: acts => if a.closes then acts else afterClosingReply acts

theorem afterClosingReply_append (as bs : List Act) : afterClosingReply (as ++ bs) =
    if as.any Act.closes then afterClosingReply as ++ bs else afterClosingReply bs := by
  induction as with
  | nil => rfl
  | cons a as ih =>
    rw [List.cons_append, afterClosingReply, afterClosingReply, List.any_cons]
    cases a.closes with
    | true => rfl
    | false => simpa using ih

theorem Act.closes_of_not_serves {a : Act} (h : a.serves = false) : a.closes = false := by
  cases a <;> simp_all [Act.serves, Act.closes]

/-- Nothing is dispatched and no reply issued. -/
def Idle (acts : List Act) : Prop := ∀ a ∈ acts, a.serves = false

theorem idle_append {as bs : List Act} : Idle (as ++ bs) ↔ Idle as ∧ Idle bs :=
  List.forall_mem_append

theorem Idle.any_closes {acts : List Act} (h : Idle acts) : acts.any Act.closes = false := by
  rw [List.any_eq_false]
  intro a ha
  rw [Act.closes_of_not_serves (h a ha)]
  exact Bool.false_ne_true

/-- A call, or a whole life, after which the connection is as its closing reply has left it: nothing
is served after it, and the connection is still to be closed. -/
structure Closed (c : Conn) (acts : List Act) : Prop where
  idle : Idle (afterClosingReply acts)
  closing : acts.any Act.closes = true → c.closeAfterWrite = true

/-- Before the closing reply everything is as it should be. -/
theorem closed_append_of_open {c : Conn} {as bs : List Act} (h : as.any Act.closes = false) :
    Closed c (as ++ bs) ↔ Closed c bs := by
  have hafter : afterClosingReply (as ++ bs) = afterClosingReply bs := by
    rw [afterClosingReply_append, h]
    rfl
  have hany : (as ++ bs).any Act.closes = bs.any Act.closes := by
    rw [List.any_append, h, Bool.false_or]
  constructor
  · rintro ⟨hidle, hclosing⟩
    exact ⟨hafter ▸ hidle, hany ▸ hclosing⟩
  · rintro ⟨hidle, hclosing⟩
    exact ⟨hafter ▸ hidle, hany ▸ hclosing⟩

theorem closed_of_open {acts : List Act} (h : acts.any Act.closes = false) (c : Conn) :
    Closed c acts := by
  have key : Closed c (acts ++ []) :=
    (closed_append_of_open h).mpr ⟨by simp [Idle, afterClosingReply], by simp⟩
  rwa [List.append_nil] at key

/-- After the closing reply nothing more may be served. -/
theorem closed_append_of_closing {c : Conn} {as bs : List Act} (h : as.any Act.closes = true) :
    Closed c (as ++ bs) ↔ Closed c as ∧ Idle bs := by
  have hafter : afterClosingReply (as ++ bs) = afterClosingReply as ++ bs := by
    rw [afterClosingReply_append, h]
    rfl
  constructor
  · rintro ⟨hidle, hclosing⟩
    rw [hafter, idle_append] at hidle
    exact ⟨⟨hidle.1, fun _ ↦ hclosing (by rw [List.any_append, h]; rfl)⟩, hidle.2⟩
  · rintro ⟨⟨hidle, hclosing⟩, hbs⟩
    refine ⟨?_, fun _ ↦ hclosing h⟩
    rw [hafter]
    exact idle_append.mpr ⟨hidle, hbs⟩

/-! ## What the handlers do -/

theorem Drained.idle {c c' : Conn} {ios : List Act} (h : Drained c c' ios) : Idle ios := by
  intro a ha
  rcases h.acts a ha with rfl | ⟨r, bs, rfl⟩
  · rfl
  · rfl

/-- A drain serves nothing, and does not change its mind about closing. -/
theorem writeFromBuffer_idle (c : Conn) (k : Kernel) :
    Idle (writeFromBuffer c k).acts ∧
      (writeFromBuffer c k).conn.closeAfterWrite = c.closeAfterWrite := by
  obtain ⟨c', ios, io', hd, -, hcases⟩ := writeFromBuffer_cases c k
  have hclose := hd.closeAfterWrite
  rcases hcases with ⟨h, -⟩ | ⟨h, -⟩ | ⟨h, -⟩
  all_goals rw [h, Run.after_acts, Run.after_conn, idle_append, and_iff_right hd.idle]
  · exact ⟨by simp [Idle, stopWrite, enableWriting, updateChannel, Act.serves], hclose⟩
  · exact ⟨by simp [Idle, stopWrite, Act.serves], hclose⟩
  · refine ⟨?_, hclose⟩
    cases hc : c'.closeAfterWrite <;>
      simp [Idle, finishWrite, disableWriting, updateChannel, Act.serves, hc]

theorem handleWrite_idle (c : Conn) (k : Kernel) :
    Idle (handleWrite c k).acts ∧ (handleWrite c k).conn.closeAfterWrite = c.closeAfterWrite := by
  rw [handleWrite]
  split
  · obtain ⟨hidle, hclose⟩ := writeFromBuffer_idle c k
    rw [Run.after_acts, Run.after_conn, idle_append]
    exact ⟨⟨by simp [Idle, Act.serves], hidle⟩, hclose⟩
  · exact ⟨by simp [Idle, disableWriting, updateChannel, Act.serves], rfl⟩

theorem sendJson_idle (c : Conn) (k : Kernel) (status : ℕ) (body : Bytes) (ka : Bool) :
    Idle (sendJson c k status body ka).acts := by
  intro a ha
  rcases sendJson_acts ha with ⟨_, rfl⟩ | ⟨_, _, rfl⟩ | rfl
  · rfl
  · rfl
  · rfl

/-- Once a reply is loaded it is drained, and nothing else happens. -/
theorem Loaded.closed {c c' : Conn} {ka : Bool} {reply : Bytes} (h : Loaded c c' ka reply)
    (k : Kernel) : Closed (writeFromBuffer c' k).conn
      (.issue ka reply :: (writeFromBuffer c' k).acts) := by
  obtain ⟨hidle, hclose⟩ := writeFromBuffer_idle c' k
  have hc : c'.closeAfterWrite = !ka := by rw [h.same]
  cases ka with
  | true =>
    show Closed _ ([.issue true reply] ++ (writeFromBuffer c' k).acts)
    exact (closed_append_of_open rfl).mpr (closed_of_open hidle.any_closes _)
  | false => exact ⟨hidle, fun _ ↦ hclose.trans hc⟩

theorem serve_closed (file : Option Bytes) (c : Conn) (k : Kernel) (request : Bytes)
    (ka allowed : Bool) :
    Closed (serve file c k request ka allowed).conn (serve file c k request ka allowed).acts ∧
      (ka = true → (serve file c k request ka allowed).acts.any Act.closes = false) := by
  rcases serve_cases file c k request ka allowed with
    ⟨c', reply, -, hl, h⟩ | ⟨status, body, -, h⟩ | ⟨t, -, -, h⟩
  · rw [h]
    refine ⟨hl.closed k, fun hka ↦ ?_⟩
    rw [Run.after_acts, List.any_append, (writeFromBuffer_idle c' k).1.any_closes, hka]
    rfl
  · rw [h]
    have hidle := sendJson_idle c k status body ka
    exact ⟨closed_of_open hidle.any_closes _, fun _ ↦ hidle.any_closes⟩
  · rw [h]
    have hidle : Idle [.submit t] := by simp [Idle, Act.serves]
    exact ⟨closed_of_open hidle.any_closes _, fun _ ↦ hidle.any_closes⟩

theorem turn_closed (file : Option Bytes) (c : Conn) (k : Kernel) (headers text rest : Bytes) :
    Closed (turn file c k headers text rest).conn (turn file c k headers text rest).acts ∧
      (wantKeepAlive text headers = true →
        (turn file c k headers text rest).acts.any Act.closes = false) := by
  obtain ⟨hclosed, hkeep⟩ := serve_closed file { c with inputBuffer := rest } (allowRequest k).2
    text (wantKeepAlive text headers) (allowRequest k).1
  exact ⟨(closed_append_of_open rfl).mpr hclosed, hkeep⟩

theorem rejectInput_closed (c : Conn) (k : Kernel) (status : ℕ) (message : String) :
    Closed (rejectInput c k status message).conn (rejectInput c k status message).acts := by
  obtain ⟨c', reply, hl, h⟩ := rejectInput_loaded c k status message
  rw [h]
  exact (closed_append_of_open rfl).mpr (hl.closed k)

/-- A run of the request loop stops at the first closing reply. -/
theorem processRequests_closed (file : Option Bytes) (c : Conn) (k : Kernel) :
    Closed (processRequests file c k).conn (processRequests file c k).acts := by
  refine processRequests_induct file (P := fun _ _ r ↦ Closed r.conn r.acts) ?_ ?_ ?_ ?_ c k
  · intro c k _
    exact closed_of_open rfl c
  · intro c k status message _
    exact rejectInput_closed c k status message
  · intro c k headers text rest _ _
    exact (turn_closed file c k headers text rest).1
  · intro c k headers text rest _ hka ih
    exact (closed_append_of_open ((turn_closed file c k headers text rest).2 hka)).mpr ih

/-- Unless it finds nothing, the request loop serves something. -/
theorem processRequests_serves (file : Option Bytes) {c : Conn} (k : Kernel)
    (h : nextFrame c.inputBuffer ≠ .incomplete) : ¬ Idle (processRequests file c k).acts := by
  rw [processRequests_eq]
  cases hf : nextFrame c.inputBuffer with
  | incomplete => exact absurd hf h
  | headerTooLarge => simp [Idle, rejectInput, sendResponse, Act.serves]
  | bodyTooLarge => simp [Idle, rejectInput, sendResponse, Act.serves]
  | request headers text rest =>
    dsimp only
    split
    · simp [Idle, turn, Act.serves]
    · simp [Idle, turn, Act.serves]

/-! ## Whole lives -/

/-- The event gives the request loop nothing to act on if a closing reply has been issued: reading
does not end at `EAGAIN`, or what it brings leaves the buffer without a complete request and below
the limits. -/
def StaysQuiet (s : Session) : Event → Prop
  | .readable _ reads _ =>
    s.alive = true → s.trace.any Act.closes = true → (readAll reads).2 = true →
      nextFrame (s.conn.inputBuffer ++ (readAll reads).1) = .incomplete
  | .writable _ => True

instance (s : Session) (e : Event) : Decidable (StaysQuiet s e) :=
  match e with
  | .readable .. => inferInstanceAs (Decidable (_ → _ → _ → _))
  | .writable _ => inferInstanceAs (Decidable True)

/-- A step that serves nothing and leaves `closeAfterWrite_` alone changes nothing. -/
theorem closed_append_idle {c c' : Conn} {as bs : List Act} (hbs : Idle bs)
    (hc : c'.closeAfterWrite = c.closeAfterWrite) : Closed c' (as ++ bs) ↔ Closed c as := by
  cases h : as.any Act.closes with
  | false =>
    rw [closed_append_of_open h]
    exact iff_of_true (closed_of_open hbs.any_closes c') (closed_of_open h c)
  | true =>
    rw [closed_append_of_closing h, and_iff_left hbs]
    constructor
    · exact fun hcl ↦ ⟨hcl.idle, fun ha ↦ hc ▸ hcl.closing ha⟩
    · exact fun hcl ↦ ⟨hcl.idle, fun ha ↦ hc ▸ hcl.closing ha⟩

theorem idle_reads {acts : List Act} (h : ∀ a ∈ acts, a = .touch ∨ ∃ r, a = .read r) :
    Idle acts := by
  intro a ha
  rcases h a ha with rfl | ⟨r, rfl⟩
  · rfl
  · rfl

/-- A read event that ends at `EAGAIN`, on a connection with a closing reply. -/
theorem closed_append_processRequests {c : Conn} {as : List Act} (file : Option Bytes) (k : Kernel)
    (h : as.any Act.closes = true) :
    Closed (processRequests file c k).conn (as ++ (processRequests file c k).acts) ↔
      Closed c as ∧ nextFrame c.inputBuffer = .incomplete := by
  by_cases hf : nextFrame c.inputBuffer = .incomplete
  · have he : processRequests file c k = ⟨c, k, [.frame]⟩ := by rw [processRequests_eq, hf]
    rw [he, closed_append_idle (c := c) (by simp [Idle, Act.serves]) rfl, and_iff_left hf]
  · rw [closed_append_of_closing h]
    exact iff_of_false (fun hcl ↦ processRequests_serves file k hf hcl.2) fun hcl ↦ hf hcl.2

/-- One event keeps the closing reply in place exactly when it stays quiet. -/
theorem closed_step_iff (file : Option Bytes) (s : Session) (e : Event) :
    Closed (s.step file e).conn (s.step file e).trace ↔
      Closed s.conn s.trace ∧ StaysQuiet s e := by
  cases halive : s.alive with
  | false =>
    rw [Session.step_of_not_alive file halive]
    cases e <;> simp [StaysQuiet, halive]
  | true =>
    rw [Session.step_of_alive file halive]
    cases e with
    | writable k =>
      obtain ⟨hidle, hclose⟩ := handleWrite_idle s.conn k
      dsimp only [handle]
      rw [closed_append_idle (c := s.conn) hidle hclose]
      exact (and_iff_left trivial).symm
    | readable now reads k =>
      obtain ⟨acts, hacts, ⟨htrue, -, h⟩ | ⟨hfalse, h⟩⟩ :=
        handleMessage_cases file s.conn now reads k
      · -- the request loop runs on what has been read
        rw [handle, h, Run.after_acts, Run.after_conn, ← List.append_assoc]
        have hreads : Closed (s.conn.received now (readAll reads).1) (s.trace ++ acts) ↔
            Closed s.conn s.trace :=
          closed_append_idle (idle_reads hacts) rfl
        cases hclosing : s.trace.any Act.closes with
        | true =>
          have hclosing' : (s.trace ++ acts).any Act.closes = true := by
            rw [List.any_append, hclosing, Bool.true_or]
          rw [closed_append_processRequests file k hclosing']
          simp only [StaysQuiet, halive, hclosing, htrue, true_implies]
          exact and_congr_left fun _ ↦ hreads
        | false =>
          have hclosing' : (s.trace ++ acts).any Act.closes = false := by
            rw [List.any_append, hclosing, (idle_reads hacts).any_closes]
            rfl
          rw [closed_append_of_open hclosing']
          refine iff_of_true (processRequests_closed file _ k) ⟨closed_of_open hclosing _, ?_⟩
          intro _ hcontra
          exact absurd (hclosing.symm.trans hcontra) (by simp)
      · rw [handle, h]
        have hidle : Idle (acts ++ [.delete]) :=
          idle_append.mpr ⟨idle_reads hacts, by simp [Idle, Act.serves]⟩
        have hsame : Closed (s.conn.received now (readAll reads).1)
            (s.trace ++ (acts ++ [.delete])) ↔ Closed s.conn s.trace :=
          closed_append_idle hidle rfl
        refine hsame.trans (and_iff_left ?_).symm
        intro _ _ hcontra
        exact absurd (hfalse.symm.trans hcontra) (by simp)

/-- **Nothing is served after a closing reply**, in a whole life with any input and any results of
`write` and `sendfile`, if and only if every event stays quiet in the state it is delivered in. -/
theorem nothing_served_iff (file : Option Bytes) (fd now : ℕ) (es : List Event) :
    Closed (Session.run file (.start fd now) es).conn (Session.run file (.start fd now) es).trace ↔
      Meets (Session.step file) StaysQuiet (.start fd now) es := by
  rw [Session.run, holds_iff_meets (I := fun _ ↦ True) (P := fun s ↦ Closed s.conn s.trace)
    (fun _ _ _ _ ↦ trivial) (fun s e _ _ ↦ closed_step_iff file s e) trivial]
  exact and_iff_right (closed_of_open rfl _)

/-- A request that is not keep-alive, whose reply blocks after ten bytes, and then another one. -/
def blockedClose : List Event :=
  [.readable 0 [.got (lit "GET /hello HTTP/1.0\r\n\r\n")] ⟨[.took 10, .fail .EAGAIN], []⟩,
   .readable 1 [.got (lit "GET /hello HTTP/1.1\r\n\r\n")] ⟨[], []⟩]

/-- The second request is served, and its reply replaces the closing one. -/
theorem served_after_closing :
    ¬ Closed (Session.run none (.start 5 0) blockedClose).conn
        (Session.run none (.start 5 0) blockedClose).trace ∧
      (Session.run none (.start 5 0) blockedClose).conn.closeAfterWrite = false := by
  refine ⟨fun h ↦ ?_, by decide +kernel⟩
  exact absurd (h.closing (by decide +kernel)) (by decide +kernel)

end ReactorServer
