import ReactorServer.Framing.Greedy

/-!
# Framing does not depend on segmentation

A client sends one stream of bytes; TCP delivers it in pieces of its own choosing, and the request
loop runs on whatever has arrived so far.  What the pieces are must not matter: `framing_exact`
says that a connection, fed a stream in any pieces, dispatches exactly its greedy decomposition and
keeps exactly the bytes that are not part of a request.

After a request that is not keep-alive, or a rejection, the loop stops and the connection is on its
way out, so both sides are compared up to the first such *closing* item.  Until then the connection
stays open (`Steady`), as long as no write fails for good.
-/

set_option autoImplicit false

namespace ReactorServer

/-! ## What the request loop dispatches -/

/-- The item an action stands for. -/
def Act.item : Act → Option Item
  | .dispatch d => some (.request d.request d.keepAlive)
  | .reject status => some (.reject status)
  | _ => none

/-- The requests dispatched and the rejections, in order. -/
def items (acts : List Act) : List Item := acts.filterMap Act.item

@[simp] theorem items_nil : items [] = [] := rfl
@[simp] theorem items_append (as bs : List Act) : items (as ++ bs) = items as ++ items bs :=
  List.filterMap_append

theorem items_eq_nil {acts : List Act} (h : ∀ a ∈ acts, a.item = none) : items acts = [] :=
  List.filterMap_eq_nil_iff.mpr h

theorem Drained.items {c c' : Conn} {ios : List Act} (h : Drained c c' ios) : items ios = [] := by
  refine items_eq_nil fun a ha ↦ ?_
  rcases h.acts a ha with rfl | ⟨r, bs, rfl⟩
  · rfl
  · rfl

theorem items_stopWrite (c : Conn) (k : Kernel) (e : Exit) : items (stopWrite c k e).acts = [] := by
  rw [stopWrite]
  split
  · rfl
  · rfl

theorem items_finishWrite (c : Conn) (k : Kernel) : items (finishWrite c k).acts = [] := by
  rw [finishWrite]
  dsimp only
  split
  · rfl
  · rfl

@[simp] theorem items_writeFromBuffer (c : Conn) (k : Kernel) :
    items (writeFromBuffer c k).acts = [] := by
  obtain ⟨c', ios, io', hd, -, ⟨h, -⟩ | ⟨h, -⟩ | ⟨h, -⟩⟩ := writeFromBuffer_cases c k
  · rw [h, Run.after_acts, items_append, hd.items, items_stopWrite, List.nil_append]
  · rw [h, Run.after_acts, items_append, hd.items, items_stopWrite, List.nil_append]
  · rw [h, Run.after_acts, items_append, hd.items, items_finishWrite, List.nil_append]

theorem items_sendJson (c : Conn) (k : Kernel) (status : ℕ) (body : Bytes) (ka : Bool) :
    items (sendJson c k status body ka).acts = [] := by
  refine items_eq_nil fun a ha ↦ ?_
  rcases sendJson_acts ha with ⟨_, rfl⟩ | ⟨_, _, rfl⟩ | rfl
  · rfl
  · rfl
  · rfl

@[simp] theorem items_serve (file : Option Bytes) (c : Conn) (k : Kernel) (request : Bytes)
    (ka allowed : Bool) : items (serve file c k request ka allowed).acts = [] := by
  rcases serve_cases file c k request ka allowed with
    ⟨c', reply, -, -, h⟩ | ⟨status, body, -, h⟩ | ⟨t, -, -, h⟩
  · rw [h, Run.after_acts, items_append, items_writeFromBuffer]; rfl
  · rw [h, items_sendJson]
  · rw [h]; rfl

@[simp] theorem items_turn (file : Option Bytes) (c : Conn) (k : Kernel)
    (headers text rest : Bytes) :
    items (turn file c k headers text rest).acts =
      [.request text (wantKeepAlive text headers)] := by
  rw [turn]
  dsimp only
  rw [Run.after_acts, items_append, items_serve]
  rfl

theorem items_rejectInput (c : Conn) (k : Kernel) (status : ℕ) (message : String) :
    items (rejectInput c k status message).acts = [.reject status] := by
  obtain ⟨c', reply, -, h⟩ := rejectInput_loaded c k status message
  rw [h, Run.after_acts, Run.after_acts, items_append, items_append,
    items_writeFromBuffer]
  rfl

/-- **One run of the request loop** dispatches the greedy decomposition of the buffer up to the
first closing item, and if there is none it leaves what is not decomposed. -/
theorem processRequests_items (file : Option Bytes) (c : Conn) (k : Kernel) :
    items (processRequests file c k).acts = upToClosing (greedy c.inputBuffer).1 ∧
      (Open (greedy c.inputBuffer).1 →
        (processRequests file c k).conn.inputBuffer = (greedy c.inputBuffer).2) := by
  refine processRequests_induct file (P := fun c _ r ↦
    items r.acts = upToClosing (greedy c.inputBuffer).1 ∧
      (Open (greedy c.inputBuffer).1 → r.conn.inputBuffer = (greedy c.inputBuffer).2))
    ?_ ?_ ?_ ?_ c k
  · intro c k hf
    rw [greedy_eq, hf]
    exact ⟨rfl, fun _ ↦ rfl⟩
  · intro c k status message hf
    rw [greedy_eq]
    rcases hf with ⟨hf, rfl⟩ | ⟨hf, rfl⟩
    all_goals
      rw [hf, items_rejectInput]
      exact ⟨rfl, fun h ↦ by simp [Open, Item.closing] at h⟩
  · intro c k headers text rest hf hka
    rw [greedy_eq, hf]
    dsimp only
    rw [items_turn, hka]
    exact ⟨rfl, fun h ↦ by simp [Open, Item.closing] at h⟩
  · intro c k headers text rest hf hka ih
    rw [turn_inputBuffer] at ih
    rw [greedy_eq, hf]
    dsimp only
    rw [Run.andThen_acts, Run.andThen_conn, items_append, items_turn, hka, ih.1]
    exact ⟨rfl, fun h ↦ ih.2 (open_cons.mp h).2⟩

/-! ## Without a write error only a closing item ends the connection -/

/-- A call after which the connection goes on as before. -/
structure Steady (r : Run) : Prop where
  kernel : r.kernel.NoError
  stays : r.conn.closeAfterWrite = false
  alive : .delete ∉ r.acts

theorem Steady.after {r : Run} {acts : List Act} (h : Steady r) (hacts : .delete ∉ acts) :
    Steady (r.after acts) := by
  refine ⟨h.kernel, h.stays, ?_⟩
  rw [Run.after_acts, List.mem_append]
  exact fun hmem ↦ hmem.elim hacts h.alive

theorem writeFromBuffer_steady {c : Conn} {k : Kernel} (hk : k.NoError)
    (hc : c.closeAfterWrite = false) : Steady (writeFromBuffer c k) := by
  obtain ⟨c', ios, io', hd, hio, ⟨h, -⟩ | ⟨-, -, r, hr, hhard⟩ | ⟨h, -⟩⟩ :=
    writeFromBuffer_cases c k
  · rw [h]
    exact Steady.after ⟨hk.of_suffix hio, hd.closeAfterWrite.trans hc,
      by simp [stopWrite, enableWriting, updateChannel]⟩ hd.not_delete
  · rw [hk r hr] at hhard
    exact absurd hhard (by simp)
  · rw [h]
    have hc' : c'.closeAfterWrite = false := hd.closeAfterWrite.trans hc
    exact Steady.after ⟨hk.of_suffix hio, hc',
      by simp [finishWrite, disableWriting, updateChannel, hc']⟩ hd.not_delete

theorem sendJson_steady {c : Conn} {k : Kernel} (hk : k.NoError) (hc : c.closeAfterWrite = false)
    (status : ℕ) (body : Bytes) (ka : Bool) : Steady (sendJson c k status body ka) := by
  refine ⟨hk.of_suffix (drain_spec _ _ _ _).2.2, hc, fun ha ↦ ?_⟩
  rcases sendJson_acts ha with ⟨_, h⟩ | ⟨_, _, h⟩ | h
  all_goals exact absurd h (by simp)

theorem serve_steady {c : Conn} {k : Kernel} (hk : k.NoError) (hc : c.closeAfterWrite = false)
    (file : Option Bytes) (request : Bytes) (allowed : Bool) :
    Steady (serve file c k request true allowed) := by
  rcases serve_cases file c k request true allowed with
    ⟨c', reply, -, hl, h⟩ | ⟨status, body, -, h⟩ | ⟨t, -, -, h⟩
  · rw [h]
    have hc' : c'.closeAfterWrite = false := by rw [hl.same]; rfl
    exact (writeFromBuffer_steady hk hc').after (by simp)
  · rw [h]; exact sendJson_steady hk hc status body true
  · rw [h]; exact ⟨hk, hc, by simp⟩

theorem turn_steady {c : Conn} {k : Kernel} (hk : k.NoError) (hc : c.closeAfterWrite = false)
    (file : Option Bytes) {headers text : Bytes} (rest : Bytes)
    (hka : wantKeepAlive text headers = true) : Steady (turn file c k headers text rest) := by
  have hk' : (allowRequest k).2.NoError := by rwa [Kernel.NoError, allowRequest_io]
  rw [turn, hka]
  exact Steady.after (serve_steady (c := { c with inputBuffer := rest }) hk' hc file text _)
    (by simp)

/-- The request loop leaves the connection as it was unless something closes. -/
theorem processRequests_steady (file : Option Bytes) (c : Conn) (k : Kernel) (hk : k.NoError)
    (hc : c.closeAfterWrite = false) (hopen : Open (greedy c.inputBuffer).1) :
    Steady (processRequests file c k) := by
  refine processRequests_induct file (P := fun c k r ↦ k.NoError → c.closeAfterWrite = false →
    Open (greedy c.inputBuffer).1 → Steady r) ?_ ?_ ?_ ?_ c k hk hc hopen
  · intro c k _ hk hc _
    exact ⟨hk, hc, by simp⟩
  · intro c k status message hf _ _ hopen
    rw [greedy_eq] at hopen
    rcases hf with ⟨hf, -⟩ | ⟨hf, -⟩
    · simp [hf, Open, Item.closing] at hopen
    · simp [hf, Open, Item.closing] at hopen
  · intro c k headers text rest hf hka _ _ hopen
    rw [greedy_eq, hf] at hopen
    simp [open_cons, Item.closing, hka] at hopen
  · intro c k headers text rest hf hka ih hk hc hopen
    rw [greedy_eq, hf] at hopen
    have ht := turn_steady hk hc file rest hka
    rw [turn_inputBuffer] at ih
    exact (ih ht.kernel ht.stays (open_cons.mp hopen).2).after ht.alive

theorem handleWrite_steady {c : Conn} {k : Kernel} (hk : k.NoError)
    (hc : c.closeAfterWrite = false) : Steady (handleWrite c k) := by
  rw [handleWrite]
  split
  · exact (writeFromBuffer_steady hk hc).after (by simp)
  · exact ⟨hk, hc, by simp [disableWriting, updateChannel]⟩

/-! ## Whole runs -/

/-- The bytes an event delivers. -/
def Event.bytes : Event → Bytes
  | .readable _ reads _ => (readAll reads).1
  | .writable _ => []

/-- The bytes a list of events delivers. -/
def stream (es : List Event) : Bytes := es.flatMap Event.bytes

@[simp] theorem stream_nil : stream [] = [] := rfl
@[simp] theorem stream_singleton (e : Event) : stream [e] = e.bytes := List.flatMap_singleton ..
@[simp] theorem stream_append (es es' : List Event) : stream (es ++ es') = stream es ++ stream es' :=
  List.flatMap_append

theorem stream_append_cons (es es' : List Event) (e : Event) :
    stream (es ++ e :: es') = stream (es ++ [e]) ++ stream es' := by
  rw [List.append_cons, stream_append]

@[simp] theorem handleWrite_items (c : Conn) (k : Kernel) : items (handleWrite c k).acts = [] := by
  rw [handleWrite]
  split
  · rw [Run.after_acts, items_append, items_writeFromBuffer]; rfl
  · rfl

theorem handleWrite_sameInput (c : Conn) (k : Kernel) : SameInput c (handleWrite c k).conn := by
  rw [handleWrite]
  split
  · exact writeFromBuffer_sameInput c k
  · exact ⟨rfl, rfl, rfl⟩

theorem items_reads {acts : List Act} (h : ∀ a ∈ acts, a = .touch ∨ ∃ r, a = .read r) :
    items acts = [] := by
  refine items_eq_nil fun a ha ↦ ?_
  rcases h a ha with rfl | ⟨r, rfl⟩
  · rfl
  · rfl

/-- Reading ends at `EAGAIN`, with the connection still there. -/
def Event.Drains : Event → Prop
  | .readable _ reads _ => (readAll reads).2 = true
  | .writable _ => True

/-- Nothing goes wrong with an event: reading ends at `EAGAIN`, and no write fails for good. -/
structure Event.Calm (e : Event) : Prop where
  drains : e.Drains
  noError : e.kernel.NoError

instance (e : Event) : Decidable e.Drains :=
  match e with
  | .readable _ reads _ => inferInstanceAs (Decidable ((readAll reads).2 = true))
  | .writable _ => inferInstanceAs (Decidable True)

instance (e : Event) : Decidable e.Calm :=
  decidable_of_iff (e.Drains ∧ e.kernel.NoError) ⟨fun h ↦ ⟨h.1, h.2⟩, fun h ↦ ⟨h.1, h.2⟩⟩

/-- What an event dispatches: the greedy decomposition of the buffer and its own bytes, up to the
first closing item.  How the writes go makes no difference. -/
theorem handle_items (file : Option Bytes) {c : Conn} {e : Event} (he : e.Drains)
    (hbuf : greedy c.inputBuffer = ([], c.inputBuffer)) :
    items (handle file c e).acts = upToClosing (greedy (c.inputBuffer ++ e.bytes)).1 ∧
      (Open (greedy (c.inputBuffer ++ e.bytes)).1 →
        (handle file c e).conn.inputBuffer = (greedy (c.inputBuffer ++ e.bytes)).2) := by
  cases e with
  | readable now reads k =>
    obtain ⟨acts, hacts, ⟨-, -, h⟩ | ⟨hfalse, -⟩⟩ := handleMessage_cases file c now reads k
    · rw [handle, h, Run.after_acts, items_append, items_reads hacts, List.nil_append]
      exact processRequests_items file (c.received now (readAll reads).1) k
    · exact absurd (he.symm.trans hfalse) (by simp)
  | writable k =>
    rw [Event.bytes, List.append_nil, hbuf, handle, handleWrite_items]
    exact ⟨rfl, fun _ ↦ (handleWrite_sameInput c k).inputBuffer⟩

theorem handle_steady (file : Option Bytes) {c : Conn} {e : Event} (he : e.Calm)
    (hc : c.closeAfterWrite = false) (hopen : Open (greedy (c.inputBuffer ++ e.bytes)).1) :
    Steady (handle file c e) := by
  cases e with
  | readable now reads k =>
    obtain ⟨acts, hacts, ⟨-, -, h⟩ | ⟨hfalse, -⟩⟩ := handleMessage_cases file c now reads k
    · rw [handle, h]
      exact (processRequests_steady file (c.received now (readAll reads).1) k he.noError hc
        hopen).after (not_delete_reads hacts)
    · exact absurd (he.drains.symm.trans hfalse) (by simp)
  | writable k => exact handleWrite_steady he.noError hc

/-- Nothing closing comes up at any look at the buffer. -/
def AllOpen (es : List Event) : Prop := ∀ es', es' <+: es → Open (greedy (stream es')).1

theorem AllOpen.open {es : List Event} (h : AllOpen es) : Open (greedy (stream es)).1 :=
  h es List.prefix_rfl

/-- Where a session stands that has been fed these events: it has dispatched the greedy decomposition
of their bytes and keeps the rest; or some look was the first at which something closing came up, and
what it had dispatched by then is the decomposition of what had arrived. -/
def Framed (es : List Event) (s : Session) : Prop :=
  AllOpen es ∧ items s.trace = (greedy (stream es)).1 ∧ s.conn.inputBuffer = (greedy (stream es)).2 ∧
      s.conn.closeAfterWrite = false ∧ .delete ∉ s.trace ∨
    ∃ es₁ e es₂, es = es₁ ++ e :: es₂ ∧ AllOpen es₁ ∧ ¬ Open (greedy (stream (es₁ ++ [e]))).1 ∧
      upToClosing (items s.trace) = upToClosing (greedy (stream (es₁ ++ [e]))).1

theorem Framed.step {file : Option Bytes} {es : List Event} {s : Session} {e : Event}
    (h : Framed es s) (he : e.Calm) : Framed (es ++ [e]) (s.step file e) := by
  rcases h with ⟨hall, hitems, hbuf, hclose, halive⟩ | ⟨es₁, e₁, es₂, rfl, hall, hopen, hitems⟩
  · have hopen := hall.open
    have hstep := Session.step_of_alive file (s := s)
      (by simpa [Session.alive] using halive) e
    obtain ⟨hnew, hkept⟩ := handle_items file (c := s.conn) he.drains
      (by rw [hbuf]; exact greedy_snd hopen)
    rw [hbuf] at hnew hkept
    have hgrown : greedy (stream (es ++ [e])) =
        ((greedy (stream es)).1 ++ (greedy ((greedy (stream es)).2 ++ e.bytes)).1,
          (greedy ((greedy (stream es)).2 ++ e.bytes)).2) := by
      rw [stream_append, stream_singleton, greedy_append e.bytes hopen]
    by_cases hnext : Open (greedy ((greedy (stream es)).2 ++ e.bytes)).1
    · have hs := handle_steady file he hclose (by rwa [hbuf])
      have hall' : AllOpen (es ++ [e]) := by
        intro es' hes'
        rcases List.prefix_concat_iff.mp hes' with rfl | hes'
        · rw [hgrown]
          exact fun i hi ↦ (List.mem_append.mp hi).elim (hopen i) (hnext i)
        · exact hall es' hes'
      rw [upToClosing_of_open hnext] at hnew
      rw [Framed, hstep, hgrown]
      dsimp only
      rw [items_append, hitems, hnew]
      refine .inl ⟨hall', rfl, hkept hnext, hs.stays, fun hmem ↦ ?_⟩
      exact (List.mem_append.mp hmem).elim halive hs.alive
    · refine .inr ⟨es, e, [], rfl, hall, ?_, ?_⟩
      · rw [hgrown]
        exact fun h ↦ hnext fun i hi ↦ h i (List.mem_append_right _ hi)
      · rw [hstep, hgrown]
        dsimp only
        rw [items_append, hitems, hnew, upToClosing_append_of_open _ hopen,
          upToClosing_append_of_open _ hopen, upToClosing_upToClosing]
  · have hnot : ¬ Open (items s.trace) := by
      rwa [← open_upToClosing_iff, hitems, open_upToClosing_iff]
    refine .inr ⟨es₁, e₁, es₂ ++ [e], List.append_assoc .., hall, hopen, ?_⟩
    rw [← hitems, Session.step]
    split
    · exact (congrArg upToClosing (items_append ..)).trans (upToClosing_append_of_not_open _ hnot)
    · rfl

theorem framed_start (fd now : ℕ) : Framed [] (.start fd now) := by
  rw [Framed, stream_nil, greedy_nil]
  refine .inl ⟨fun es' hes' ↦ ?_, rfl, rfl, rfl,
    by simp [Session.start, newConn, enableReadingET, updateChannel]⟩
  rw [List.prefix_nil.mp hes', stream_nil, greedy_nil]
  exact .nil

/-- A session that has been fed calm events stands where their bytes say. -/
theorem framed_run (file : Option Bytes) (fd now : ℕ) (es : List Event)
    (hcalm : ∀ e ∈ es, e.Calm) : Framed es (Session.run file (.start fd now) es) := by
  induction es using List.reverseRecOn with
  | nil => exact framed_start fd now
  | append_singleton es e ih =>
    rw [Session.run_concat]
    exact (ih fun e he ↦ hcalm e (List.mem_append_left _ he)).step (hcalm e (by simp))

/-- **Framing is exact and does not depend on segmentation.**  A connection that is fed a stream in
any pieces dispatches its greedy decomposition, up to the first closing item; and if there is none,
its input buffer holds exactly the bytes that are not decomposed. -/
theorem framing_exact (file : Option Bytes) (fd now : ℕ) (es : List Event)
    (hcalm : ∀ e ∈ es, e.Calm) (hfit : HeadersFit (stream es)) :
    upToClosing (items (Session.run file (.start fd now) es).trace) =
        upToClosing (greedy (stream es)).1 ∧
      (Open (items (Session.run file (.start fd now) es).trace) →
        (Session.run file (.start fd now) es).conn.inputBuffer = (greedy (stream es)).2) := by
  rcases framed_run file fd now es hcalm with
    ⟨-, hitems, hbuf, -⟩ | ⟨es₁, e, es₂, rfl, -, hopen, hitems⟩
  · rw [hitems]
    exact ⟨rfl, fun _ ↦ hbuf⟩
  · rw [stream_append_cons] at hfit ⊢
    refine ⟨hitems.trans (upToClosing_greedy_append hfit hopen).symm, fun h ↦ absurd ?_ hopen⟩
    rwa [← open_upToClosing_iff, ← hitems, open_upToClosing_iff]

/-- Two requests in three pieces, cut in the middle of a blank line and of a request line. -/
def threePieces : List Event :=
  [.readable 0 [.got (lit "GET /hello HTTP/1.1\r\n\r")] ⟨[], []⟩,
   .readable 1 [.got (lit "\nGET"), .fail .EINTR, .got (lit " / HT")] ⟨[.took 10, .fail .EAGAIN], []⟩,
   .readable 2 [.got (lit "TP/1.0\r\n\r\n"), .fail .EAGAIN] ⟨[], []⟩]

theorem framing_exact_threePieces :
    upToClosing (items (Session.run none (.start 5 0) threePieces).trace) =
      [.request (lit "GET /hello HTTP/1.1\r\n\r\n") true,
       .request (lit "GET / HTTP/1.0\r\n\r\n") false] := by
  rw [(framing_exact none 5 0 threePieces (by decide) (.of_length_le (by decide))).1]
  decide +kernel

end ReactorServer
