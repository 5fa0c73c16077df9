import ReactorServer.Framing.EndOfInput
import ReactorServer.Http.Format

/-!
# The size limits

A request is too large if its header block is longer than `kMaxHeaderBytes`, or if it announces a
body longer than `kMaxBodyBytes`; `sizeVerdict` says what should become of it, from its bytes
alone.  The request loop compares something else with the first limit, the length of its whole
buffer, and it does so only while there is no blank line in the buffer.  So a long header that
arrives together with its blank line is never measured, and a header just below the limit is
rejected when the buffer is looked at in the middle of its blank line.

`decided_by_size_iff` says that nothing else can go wrong: the decision is the one the sizes call
for exactly when the header block is too long just in case some look at the buffer sees more than
`kMaxHeaderBytes` bytes without the whole blank line (`SeenTooLong`).

The request loop is picked up where it comes to the request, at the head of its loop, with whatever
has arrived by then in the buffer.  The first request of a connection and the later ones are
treated alike.
-/

set_option autoImplicit false

namespace ReactorServer

open Search

/-! ## What one look at the buffer decides -/

/-- The item a turn of the loop comes to, if it comes to any. -/
def Frame.item : Frame → Option Item
  | .incomplete => none
  | .headerTooLarge => some (.reject 400)
  | .bodyTooLarge => some (.reject 413)
  | .request headers text _ => some (.request text (wantKeepAlive text headers))

theorem Frame.item_eq_none_iff {f : Frame} : f.item = none ↔ f = .incomplete := by
  cases f <;> simp [Frame.item]

theorem greedy_of_incomplete {s : Bytes} (h : nextFrame s = .incomplete) : greedy s = ([], s) := by
  rw [greedy_eq, h]

/-- The first item of a decomposition is what the first look decides. -/
theorem head?_upToClosing_greedy (s : Bytes) :
    (upToClosing (greedy s).1).head? = (nextFrame s).item := by
  rw [greedy_eq]
  cases nextFrame s with
  | incomplete => rfl
  | headerTooLarge => rfl
  | bodyTooLarge => rfl
  | request headers text rest =>
    dsimp only
    rw [upToClosing]
    split <;> rfl

/-! ## What a connection decides -/

/-- A connection at the head of the request loop, after the loop has run on what the buffer holds. -/
def Session.fromHead (file : Option Bytes) (c : Conn) (k : Kernel) : Session :=
  ⟨(processRequests file c k).conn, (processRequests file c k).acts⟩

/-- What becomes of the request at the front of the buffer: the first item that comes up, now or
at one of the events that follow. -/
def decision (file : Option Bytes) (c : Conn) (k : Kernel) (es : List Event) : Option Item :=
  (items (Session.run file (.fromHead file c k) es).trace).head?

theorem Session.run_of_not_alive (file : Option Bytes) {s : Session} (h : s.alive = false)
    (es : List Event) : Session.run file s es = s := by
  induction es with
  | nil => rfl
  | cons e es ih => rw [Session.run_cons, Session.step_of_not_alive file h, ih]

/-- What has come up first stays first. -/
theorem head?_items_run (file : Option Bytes) {s : Session} {d : Item} (es : List Event)
    (h : (items s.trace).head? = some d) :
    (items (Session.run file s es).trace).head? = some d := by
  induction es generalizing s with
  | nil => exact h
  | cons e es ih =>
    rw [Session.run_cons]
    refine ih ?_
    rw [Session.step]
    split
    · dsimp only
      rw [items_append, List.head?_append, h, Option.some_or]
    · exact h

/-- An event that does not drain the socket decides nothing, and is the last one. -/
theorem not_alive_of_not_drains {file : Option Bytes} {s : Session} {e : Event} (he : ¬ e.Drains)
    (halive : s.alive = true) : (s.step file e).alive = false := by
  rw [Session.step_of_alive file halive]
  cases e with
  | writable k => exact absurd trivial he
  | readable now reads k =>
    obtain ⟨acts, -, ⟨htrue, -⟩ | ⟨-, h⟩⟩ := handleMessage_cases file s.conn now reads k
    · exact absurd htrue he
    · rw [handle, h]
      simp [Session.alive]

theorem Event.final_of_not_drains {e : Event} (he : ¬ e.Drains) : e.Final := by
  cases e with
  | writable k => exact absurd trivial he
  | readable now reads k => exact Bool.eq_false_iff.mpr he

/-- A connection that waits for the rest of a request, with these bytes of it so far. -/
structure Waits (buf : Bytes) (s : Session) : Prop where
  undecided : items s.trace = []
  kept : s.conn.inputBuffer = buf
  incomplete : nextFrame buf = .incomplete

/-- **One event**: a waiting connection looks at the buffer with the new bytes, and goes on waiting
or decides. -/
theorem Waits.step (file : Option Bytes) {buf : Bytes} {s : Session} {e : Event} (h : Waits buf s)
    (he : e.Drains) (halive : s.alive = true) :
    (items (s.step file e).trace).head? = (nextFrame (buf ++ e.bytes)).item ∧
      (nextFrame (buf ++ e.bytes) = .incomplete → Waits (buf ++ e.bytes) (s.step file e)) := by
  have hbuf : greedy s.conn.inputBuffer = ([], s.conn.inputBuffer) := by
    rw [h.kept]
    exact greedy_of_incomplete h.incomplete
  obtain ⟨hitems, hkept⟩ := handle_items file he hbuf
  rw [h.kept] at hitems hkept
  rw [Session.step_of_alive file halive]
  dsimp only
  refine ⟨?_, fun hf ↦ ⟨?_, ?_, hf⟩⟩
  · rw [items_append, h.undecided, List.nil_append, hitems, head?_upToClosing_greedy]
  · rw [items_append, h.undecided, List.nil_append, hitems, greedy_of_incomplete hf]
    rfl
  · rw [greedy_of_incomplete hf] at hkept
    exact hkept .nil

/-- Some look at the buffer, after these events, is the first one to decide, and this is what it
decides. -/
structure FirstLook (buf : Bytes) (es : List Event) (d : Item) : Prop where
  decides : (nextFrame (buf ++ stream es)).item = some d
  first : ∀ es₁ es₂, es = es₁ ++ es₂ → es₂ ≠ [] → nextFrame (buf ++ stream es₁) = .incomplete

theorem FirstLook.cons {buf : Bytes} {e : Event} {es : List Event} {d : Item}
    (h : FirstLook (buf ++ e.bytes) es d) (hf : nextFrame buf = .incomplete) :
    FirstLook buf (e :: es) d := by
  have hstream : ∀ es', buf ++ stream (e :: es') = (buf ++ e.bytes) ++ stream es' := by
    intro es'
    rw [List.append_assoc]
    rfl
  refine ⟨by rw [hstream]; exact h.decides, fun es₁ es₂ heq hne ↦ ?_⟩
  rcases List.cons_eq_append_iff.mp heq with ⟨rfl, -⟩ | ⟨es₁', rfl, hes⟩
  · rwa [stream_nil, List.append_nil]
  · rw [hstream]
    exact h.first es₁' es₂ hes hne

theorem FirstLook.nil {buf : Bytes} {d : Item} (h : (nextFrame buf).item = some d) :
    FirstLook buf [] d := by
  refine ⟨by rwa [stream_nil, List.append_nil], fun es₁ es₂ heq hne ↦ ?_⟩
  exact absurd (List.append_eq_nil_iff.mp heq.symm).2 hne

/-- **A whole run**: the decision is made by the first look that can make one. -/
theorem Waits.firstLook {file : Option Bytes} {buf : Bytes} {s : Session} {es : List Event}
    {d : Item} (h : Waits buf s) (hd : (items (Session.run file s es).trace).head? = some d) :
    ∃ es₁ es₂, es = es₁ ++ es₂ ∧ FirstLook buf es₁ d := by
  induction es generalizing buf s with
  | nil =>
    rw [show Session.run file s [] = s from rfl, h.undecided] at hd
    exact absurd hd (by simp)
  | cons e es ih =>
    rw [Session.run_cons] at hd
    cases halive : s.alive with
    | false =>
      rw [Session.step_of_not_alive file halive, Session.run_of_not_alive file halive,
        h.undecided] at hd
      exact absurd hd (by simp)
    | true =>
      by_cases he : e.Drains
      · obtain ⟨hfirst, hwaits⟩ := h.step file he halive
        cases hf : (nextFrame (buf ++ e.bytes)).item with
        | none =>
          obtain ⟨es₁, es₂, rfl, hlook⟩ := ih (hwaits (Frame.item_eq_none_iff.mp hf)) hd
          exact ⟨e :: es₁, es₂, rfl, hlook.cons h.incomplete⟩
        | some d' =>
          have hd' := head?_items_run file es (hfirst.trans hf)
          rw [hd, Option.some_inj] at hd'
          exact ⟨[e], es, rfl, (FirstLook.nil (hd' ▸ hf)).cons h.incomplete⟩
      · rw [Session.run_of_not_alive file (not_alive_of_not_drains he halive),
          items_step_final (Event.final_of_not_drains he), h.undecided] at hd
        exact absurd hd (by simp)

theorem head?_items_fromHead (file : Option Bytes) (c : Conn) (k : Kernel) :
    (items (Session.fromHead file c k).trace).head? = (nextFrame c.inputBuffer).item := by
  rw [Session.fromHead, (processRequests_items file c k).1, head?_upToClosing_greedy]

theorem waits_fromHead (file : Option Bytes) {c : Conn} (k : Kernel)
    (h : nextFrame c.inputBuffer = .incomplete) :
    Waits c.inputBuffer (.fromHead file c k) := by
  obtain ⟨hitems, hkept⟩ := processRequests_items file c k
  rw [greedy_of_incomplete h] at hitems hkept
  exact ⟨hitems, hkept .nil, h⟩

theorem decision_firstLook {file : Option Bytes} {c : Conn} {k : Kernel} {es : List Event}
    {d : Item} (hd : decision file c k es = some d) :
    ∃ es₁ es₂, es = es₁ ++ es₂ ∧ FirstLook c.inputBuffer es₁ d := by
  have hhead := head?_items_fromHead file c k
  cases hf : (nextFrame c.inputBuffer).item with
  | none => exact (waits_fromHead file k (Frame.item_eq_none_iff.mp hf)).firstLook hd
  | some d' =>
    have hd' := head?_items_run file es (hhead.trans hf)
    rw [← decision, hd, Option.some_inj] at hd'
    exact ⟨[], es, rfl, .nil (hd' ▸ hf)⟩

/-- A look that can decide does, as long as nothing goes wrong with the connection. -/
theorem Waits.decides (file : Option Bytes) {buf : Bytes} {s : Session} {es : List Event}
    (h : Waits buf s) (halive : s.alive = true) (hc : s.conn.closeAfterWrite = false)
    (hcalm : ∀ e ∈ es, e.Calm) (hlook : nextFrame (buf ++ stream es) ≠ .incomplete) :
    ∃ d, (items (Session.run file s es).trace).head? = some d := by
  induction es generalizing buf s with
  | nil =>
    rw [stream_nil, List.append_nil] at hlook
    exact absurd h.incomplete hlook
  | cons e es ih =>
    have he : e.Calm := hcalm e List.mem_cons_self
    obtain ⟨hfirst, hwaits⟩ := h.step file he.drains halive
    rw [Session.run_cons]
    cases hf : (nextFrame (buf ++ e.bytes)).item with
    | none =>
      have hf' := Frame.item_eq_none_iff.mp hf
      have hopen : Open (greedy (s.conn.inputBuffer ++ e.bytes)).1 := by
        rw [h.kept, greedy_of_incomplete hf']
        exact .nil
      have hsteady := handle_steady file he hc hopen
      have hstep := Session.step_of_alive file halive e
      refine ih (hwaits hf') ?_ (by rw [hstep]; exact hsteady.stays)
        (fun e' he' ↦ hcalm e' (List.mem_cons_of_mem _ he')) ?_
      · have htrace : .delete ∉ s.trace := by simpa [Session.alive] using halive
        rw [hstep, Session.alive, decide_eq_true_eq, List.mem_append]
        exact fun hmem ↦ hmem.elim htrace hsteady.alive
      · rwa [List.append_assoc]
    | some d => exact ⟨d, head?_items_run file es (hfirst.trans hf)⟩

/-- **A request that has arrived is decided**, in whatever pieces it came, unless the connection
breaks down first. -/
theorem exists_decision (file : Option Bytes) {c : Conn} {k : Kernel} {es : List Event}
    (hk : k.NoError) (hc : c.closeAfterWrite = false) (hcalm : ∀ e ∈ es, e.Calm)
    (hlook : nextFrame (c.inputBuffer ++ stream es) ≠ .incomplete) :
    ∃ d, decision file c k es = some d := by
  have hhead := head?_items_fromHead file c k
  cases hf : (nextFrame c.inputBuffer).item with
  | none =>
    have hf' := Frame.item_eq_none_iff.mp hf
    have hopen : Open (greedy c.inputBuffer).1 := by
      rw [greedy_of_incomplete hf']
      exact .nil
    have hsteady := processRequests_steady file c k hk hc hopen
    exact (waits_fromHead file k hf').decides file (decide_eq_true hsteady.alive) hsteady.stays
      hcalm hlook
  | some d => exact ⟨d, head?_items_run file es (hhead.trans hf)⟩

/-! ## The decision, and the sizes -/

/-- What should become of the request at the front of a stream whose header block has `h` bytes:
its sizes alone decide. -/
def sizeVerdict (s : Bytes) (h : ℕ) : Item :=
  let n := requestContentLength (s.take h)
  if kMaxHeaderBytes < h then .reject 400
  else if kMaxBodyBytes < n then .reject 413
  else
    let text := s.take (h + 4 + n)
    .request text (wantKeepAlive text (s.take h))

/-- A decision that goes by the sizes of the request: it is dispatched only if both are within the
limits, rejected for its header only if that is too long, and nothing but the bytes of the request
enters into it. -/
structure DecidedBySize (s : Bytes) (h : ℕ) (d : Item) : Prop where
  dispatched : ∀ text keepAlive, d = .request text keepAlive →
    h ≤ kMaxHeaderBytes ∧ requestContentLength (s.take h) ≤ kMaxBodyBytes
  rejected : d = .reject 400 → kMaxHeaderBytes < h
  verdict : d = sizeVerdict s h

/-- Some look at the buffer sees more than `kMaxHeaderBytes` bytes of the request, but not the
whole blank line. -/
def SeenTooLong (buf : Bytes) (es : List Event) (h : ℕ) : Prop :=
  ∃ es₁ es₂, es = es₁ ++ es₂ ∧ kMaxHeaderBytes < (buf ++ stream es₁).length ∧
    (buf ++ stream es₁).length < h + 4

theorem sizeVerdict_of_header {s : Bytes} {h : ℕ} (hh : kMaxHeaderBytes < h) :
    sizeVerdict s h = .reject 400 := if_pos hh

theorem sizeVerdict_of_body {s : Bytes} {h : ℕ} (hh : ¬ kMaxHeaderBytes < h)
    (hn : kMaxBodyBytes < requestContentLength (s.take h)) : sizeVerdict s h = .reject 413 := by
  rw [sizeVerdict, if_neg hh, if_pos hn]

theorem sizeVerdict_of_request {a : Bytes} (b : Bytes) {h : ℕ} (hh : ¬ kMaxHeaderBytes < h)
    (hn : requestContentLength (a.take h) ≤ kMaxBodyBytes)
    (hlen : h + 4 + requestContentLength (a.take h) ≤ a.length) :
    sizeVerdict (a ++ b) h =
      .request (a.take (h + 4 + requestContentLength (a.take h)))
        (wantKeepAlive (a.take (h + 4 + requestContentLength (a.take h))) (a.take h)) := by
  have htake : (a ++ b).take h = a.take h := List.take_append_of_le_length (by omega)
  rw [sizeVerdict, if_neg hh, htake, if_neg (Nat.not_lt.mpr hn)]
  dsimp only
  rw [List.take_append_of_le_length hlen]

/-- The verdict itself keeps to the limits. -/
theorem decidedBySize_iff {s : Bytes} {h : ℕ} {d : Item} :
    DecidedBySize s h d ↔ d = sizeVerdict s h := by
  refine ⟨DecidedBySize.verdict, fun hd ↦ ⟨fun text ka ht ↦ ?_, fun hr ↦ ?_, hd⟩⟩
  · by_contra hnot
    rw [not_and_or, Nat.not_le, Nat.not_le] at hnot
    by_cases hh : kMaxHeaderBytes < h
    · rw [ht, sizeVerdict_of_header hh] at hd
      exact absurd hd (by simp)
    · rw [ht, sizeVerdict_of_body hh (hnot.resolve_left hh)] at hd
      exact absurd hd (by simp)
  · by_contra hh
    rw [hr, sizeVerdict, if_neg hh] at hd
    split at hd
    · exact absurd hd (by simp)
    · exact absurd hd (by simp)

/-- The blank line has arrived, in full, with the bytes that a decision other than the one for a
long header was made on. -/
theorem FirstLook.not_seenTooLong {buf : Bytes} {es₁ es₂ : List Event} {d : Item} {h : ℕ}
    (hlook : FirstLook buf es₁ d) (hh : indexOf crlf2 (buf ++ stream es₁) = some h) :
    ¬ SeenTooLong buf (es₁ ++ es₂) h := by
  rintro ⟨es₃, es₄, heq, hlong, hshort⟩
  have hfit : h + 4 ≤ (buf ++ stream es₁).length := indexOf_add_length_le hh
  rcases List.append_eq_append_iff.mp heq with ⟨t, rfl, -⟩ | ⟨t, rfl, -⟩
  · -- a later look sees at least as much
    rw [stream_append, ← List.append_assoc, List.length_append] at hshort
    omega
  · -- an earlier one would have found the buffer too long
    have hne : t ≠ [] := by
      rintro rfl
      rw [List.append_nil] at hfit
      omega
    have hnone : indexOf crlf2 (buf ++ stream es₃) = none := by
      cases hi : indexOf crlf2 (buf ++ stream es₃) with
      | none => rfl
      | some i =>
        have hi' := indexOf_append (stream t) hi
        rw [List.append_assoc, ← stream_append, hh, Option.some_inj] at hi'
        have hle : i + 4 ≤ (buf ++ stream es₃).length := indexOf_add_length_le hi
        omega
    have hf := nextFrame_eq_headerTooLarge_iff.mpr ⟨hnone, hlong⟩
    rw [hlook.first es₃ t rfl hne] at hf
    exact absurd hf (by simp)

/-- **The size limits.**  Whatever decision is made about a request, in whatever pieces it arrives,
is the one its sizes call for if and only if the header block is too long just in case some look at
the buffer sees too many bytes without the whole blank line. -/
theorem decided_by_size_iff (file : Option Bytes) (c : Conn) (k : Kernel) (es : List Event) (h : ℕ)
    (d : Item) (hh : indexOf crlf2 (c.inputBuffer ++ stream es) = some h)
    (hd : decision file c k es = some d) :
    DecidedBySize (c.inputBuffer ++ stream es) h d ↔
      (kMaxHeaderBytes < h ↔ SeenTooLong c.inputBuffer es h) := by
  rw [decidedBySize_iff]
  obtain ⟨es₁, es₂, rfl, hlook⟩ := decision_firstLook hd
  have hdecides := hlook.decides
  rw [stream_append, ← List.append_assoc] at hh ⊢
  cases hf : nextFrame (c.inputBuffer ++ stream es₁) with
  | incomplete =>
    rw [hf] at hdecides
    exact absurd hdecides (by simp [Frame.item])
  | headerTooLarge =>
    obtain ⟨hnone, hlong⟩ := nextFrame_eq_headerTooLarge_iff.mp hf
    have hseen : SeenTooLong c.inputBuffer (es₁ ++ es₂) h :=
      ⟨es₁, es₂, rfl, hlong, length_lt_of_indexOf_append hnone hh⟩
    rw [hf, Frame.item, Option.some_inj] at hdecides
    subst hdecides
    rw [iff_true_right hseen]
    refine ⟨fun hd ↦ ?_, fun hbig ↦ (sizeVerdict_of_header hbig).symm⟩
    exact (decidedBySize_iff.mpr hd).rejected rfl
  | bodyTooLarge =>
    obtain ⟨i, hi, hn⟩ := nextFrame_eq_bodyTooLarge_iff.mp hf
    obtain rfl : i = h := Option.some_inj.mp ((indexOf_append _ hi).symm.trans hh)
    have hfit : i + 4 ≤ (c.inputBuffer ++ stream es₁).length := indexOf_add_length_le hi
    rw [iff_false_right (hlook.not_seenTooLong hi)]
    rw [hf, Frame.item, Option.some_inj] at hdecides
    subst hdecides
    have htake : (c.inputBuffer ++ stream es₁ ++ stream es₂).take i =
        (c.inputBuffer ++ stream es₁).take i := List.take_append_of_le_length (by omega)
    rw [← htake] at hn
    refine ⟨fun hd hbig ↦ ?_, fun hsmall ↦ (sizeVerdict_of_body hsmall hn).symm⟩
    rw [sizeVerdict_of_header hbig] at hd
    exact absurd hd (by simp)
  | request headers text rest =>
    obtain ⟨i, hi, hn, hlen, rfl, rfl, rfl⟩ := nextFrame_eq_request_iff.mp hf
    obtain rfl : i = h := Option.some_inj.mp ((indexOf_append _ hi).symm.trans hh)
    rw [iff_false_right (hlook.not_seenTooLong hi)]
    rw [hf, Frame.item, Option.some_inj] at hdecides
    subst hdecides
    refine ⟨fun hd hbig ↦ ?_, fun hsmall ↦ (sizeVerdict_of_request _ hsmall hn hlen).symm⟩
    rw [sizeVerdict_of_header hbig] at hd
    exact absurd hd (by simp)

theorem not_seenTooLong_of_length_le {buf : Bytes} {es : List Event} {h : ℕ}
    (hlen : (buf ++ stream es).length ≤ kMaxHeaderBytes) : ¬ SeenTooLong buf es h := by
  rintro ⟨es₁, es₂, rfl, hlong, -⟩
  rw [stream_append, ← List.append_assoc, List.length_append] at hlen
  omega

/-- The pieces of `threePieces`, at a connection that has just been accepted. -/
theorem decided_by_size_threePieces :
    DecidedBySize (stream threePieces) 19 (.request (lit "GET /hello HTTP/1.1\r\n\r\n") true) :=
  (decided_by_size_iff none (newConn 5 0).1 ⟨[], []⟩ threePieces 19 _ (by decide +kernel)
    (by decide +kernel)).mpr
    (iff_of_false (by decide) (not_seenTooLong_of_length_le (by decide +kernel)))

/-! ## A header over the limit, and one below it -/

theorem readAll_map_got {pieces : List Bytes} (h : ∀ p ∈ pieces, p ≠ []) :
    readAll (pieces.map .got) = (pieces.flatten, true) := by
  induction pieces with
  | nil => rfl
  | cons p pieces ih =>
    obtain ⟨b, bs, rfl⟩ := List.exists_cons_of_ne_nil (h p List.mem_cons_self)
    rw [List.map_cons, readAll, ih fun p hp ↦ h p (List.mem_cons_of_mem _ hp), List.flatten_cons]

/-- A request line with a URL of this length, which is a header block of its own. -/
def longLine (n : ℕ) : Bytes := lit "GET /" ++ (List.replicate n 97 ++ lit " HTTP/1.1")

theorem isLine_longLine (n : ℕ) : IsLine (longLine n) := by
  have key : ∀ b, b = 13 ∨ b = 10 → b ∉ longLine n := by
    rintro b hb hmem
    rw [longLine, List.mem_append, List.mem_append, List.mem_replicate] at hmem
    rcases hmem with h | ⟨-, rfl⟩ | h
    · rcases hb with rfl | rfl <;> exact absurd h (by decide)
    · rcases hb with h | h <;> exact absurd h (by decide)
    · rcases hb with rfl | rfl <;> exact absurd h (by decide)
  exact ⟨by simp [longLine, lit], key 13 (.inl rfl), key 10 (.inr rfl)⟩

theorem length_longLine (n : ℕ) : (longLine n).length = n + 14 := by
  simp only [longLine, List.length_append, List.length_replicate]
  have h₁ : (lit "GET /").length = 5 := by decide
  have h₂ : (lit " HTTP/1.1").length = 9 := by decide
  omega

theorem requestContentLength_longLine (n : ℕ) : requestContentLength (longLine n) = 0 := by
  have hnot : ¬ IsField (lit "content-length") (longLine n) := by
    refine not_isField_of_map ?_
    rintro ⟨t, ht⟩
    have hfirst : some (99 : UInt8) = some 103 := congrArg List.head? ht
    exact absurd hfirst (by decide)
  have hlines : ∀ line ∈ [longLine n], ¬ crlf <:+: line := by
    simpa using (isLine_longLine n).no_break
  have hfind := findHeader_joinLines (lit "content-length") hlines
  rw [joinLines_singleton, List.findSome?_singleton, lineValue_eq_none hnot] at hfind
  rw [requestContentLength, hfind]
  rfl

theorem indexOf_crlf2_longLine (n : ℕ) : indexOf crlf2 (longLine n ++ crlf2) = some (n + 14) := by
  rw [indexOf_crlf2_append _ (isLine_longLine n).2.1, length_longLine]
  simp [crlf2, indexOf]

theorem nextFrame_longLine (n : ℕ) : nextFrame (longLine n ++ crlf2) =
    .request (longLine n) (longLine n ++ crlf2) [] := by
  have htake : (longLine n ++ crlf2).take (n + 14) = longLine n := by
    rw [← length_longLine n, List.take_left]
  have hlen : (longLine n ++ crlf2).length = n + 14 + 4 := by
    rw [List.length_append, length_longLine]
    rfl
  refine nextFrame_eq_request_iff.mpr ⟨n + 14, indexOf_crlf2_longLine n, ?_⟩
  rw [htake, requestContentLength_longLine, hlen]
  refine ⟨Nat.zero_le _, Nat.le_refl _, rfl, ?_, ?_⟩
  · rw [Nat.add_zero, ← hlen, List.take_length]
  · rw [Nat.add_zero, ← hlen, List.drop_length]

/-- The line, and only part of a blank line. -/
theorem nextFrame_longLine_cut {n : ℕ} {t : Bytes} (ht : indexOf crlf2 t = none)
    (hlen : kMaxHeaderBytes < n + 14 + t.length) :
    nextFrame (longLine n ++ t) = .headerTooLarge := by
  refine nextFrame_eq_headerTooLarge_iff.mpr ⟨?_, ?_⟩
  · rw [indexOf_crlf2_append t (isLine_longLine n).2.1, ht]
    rfl
  · rwa [List.length_append, length_longLine]

/-- The first event at a connection that has just been accepted. -/
theorem decision_cons {e : Event} {d : Item} (es : List Event) (he : e.Drains)
    (hd : (nextFrame e.bytes).item = some d) :
    decision none (newConn 5 0).1 ⟨[], []⟩ (e :: es) = some d := by
  have hwaits := waits_fromHead none (c := (newConn 5 0).1) ⟨[], []⟩ rfl
  rw [decision, Session.run_cons]
  refine head?_items_run none es ?_
  rw [(hwaits.step none he (by decide)).1]
  exact hd

/-- One drain, in reads of at most 4096 bytes: the line with a URL of three times 4096 and `n`
letters, and some more bytes. -/
def longDrain (n : ℕ) (more : Bytes) : Event :=
  .readable 0 ((lit "GET /" :: (List.replicate 3 (List.replicate 4096 97) ++
    [List.replicate n 97, lit " HTTP/1.1" ++ more])).map .got) ⟨[], []⟩

/-- A header block of 16,398 bytes, in one drain. -/
def longAtOnce : List Event := [longDrain 4096 (lit "\r\n\r\n")]

/-- The same bytes, with a pause before the blank line. -/
def longInTwo : List Event :=
  [longDrain 4096 [], .readable 0 [.got (lit "\r\n\r\n")] ⟨[], []⟩]

/-- A header block of 16,382 bytes, with a pause before the last byte of its blank line. -/
def shortInTwo : List Event :=
  [longDrain 4080 (lit "\r\n\r"), .readable 0 [.got (lit "\n")] ⟨[], []⟩]

theorem longDrain_spec {n : ℕ} (hn : n ≠ 0) (more : Bytes) :
    (longDrain n more).bytes = longLine (3 * 4096 + n) ++ more ∧ (longDrain n more).Drains := by
  have hne : ∀ p ∈ lit "GET /" :: (List.replicate 3 (List.replicate 4096 97) ++
      [List.replicate n 97, lit " HTTP/1.1" ++ more]), p ≠ [] := by
    intro p hp
    simp only [List.mem_cons, List.mem_append, List.mem_replicate, List.not_mem_nil,
      or_false] at hp
    rcases hp with rfl | ⟨-, rfl⟩ | rfl | rfl
    · decide
    · exact mt (List.replicate_eq_nil_iff _).mp (by decide)
    · exact mt (List.replicate_eq_nil_iff _).mp hn
    · exact List.append_ne_nil_of_left_ne_nil (by decide) _
  rw [longDrain, Event.bytes, Event.Drains, readAll_map_got hne]
  refine ⟨?_, rfl⟩
  rw [List.flatten_cons, List.flatten_append, List.flatten_replicate_replicate, List.flatten_cons,
    List.flatten_singleton, ← List.append_assoc (List.replicate _ _),
    List.replicate_append_replicate, longLine, List.append_assoc, List.append_assoc]

theorem stream_longAtOnce : stream longAtOnce = longLine 16384 ++ crlf2 := by
  rw [longAtOnce, stream_singleton, (longDrain_spec (by decide) _).1]
  rfl

theorem stream_longInTwo : stream longInTwo = longLine 16384 ++ crlf2 := by
  rw [longInTwo, stream, List.flatMap_cons, List.flatMap_singleton,
    (longDrain_spec (by decide) _).1, List.append_nil]
  rfl

theorem stream_shortInTwo : stream shortInTwo = longLine 16368 ++ crlf2 := by
  rw [shortInTwo, stream, List.flatMap_cons, List.flatMap_singleton,
    (longDrain_spec (by decide) _).1, List.append_assoc]
  rfl

theorem decision_longAtOnce : decision none (newConn 5 0).1 ⟨[], []⟩ longAtOnce =
    some (.request (stream longAtOnce) (wantKeepAlive (stream longAtOnce) (longLine 16384))) := by
  refine decision_cons [] (longDrain_spec (by decide) _).2 ?_
  rw [← stream_singleton, ← longAtOnce, stream_longAtOnce, nextFrame_longLine]
  rfl

theorem decision_longInTwo :
    decision none (newConn 5 0).1 ⟨[], []⟩ longInTwo = some (.reject 400) := by
  obtain ⟨hbytes, hdrains⟩ := longDrain_spec (n := 4096) (by decide) []
  refine decision_cons _ hdrains ?_
  rw [hbytes, nextFrame_longLine_cut (by decide) (by decide)]
  rfl

theorem decision_shortInTwo :
    decision none (newConn 5 0).1 ⟨[], []⟩ shortInTwo = some (.reject 400) := by
  obtain ⟨hbytes, hdrains⟩ := longDrain_spec (n := 4080) (by decide) (lit "\r\n\r")
  refine decision_cons _ hdrains ?_
  rw [hbytes, nextFrame_longLine_cut (by decide) (by decide)]
  rfl

/-- A header block over the limit is dispatched when it comes in one drain, and rejected when the
same bytes come in two; and one below the limit is rejected when its blank line is cut. -/
theorem size_does_not_decide :
    indexOf crlf2 (stream longAtOnce) = some 16398 ∧ kMaxHeaderBytes < 16398 ∧
      (∃ ka, decision none (newConn 5 0).1 ⟨[], []⟩ longAtOnce =
        some (.request (stream longAtOnce) ka)) ∧
      stream longInTwo = stream longAtOnce ∧
      decision none (newConn 5 0).1 ⟨[], []⟩ longInTwo = some (.reject 400) ∧
      indexOf crlf2 (stream shortInTwo) = some 16382 ∧ 16382 ≤ kMaxHeaderBytes ∧
      decision none (newConn 5 0).1 ⟨[], []⟩ shortInTwo = some (.reject 400) := by
  refine ⟨?_, by decide, ⟨_, decision_longAtOnce⟩, ?_, decision_longInTwo, ?_, by decide,
    decision_shortInTwo⟩
  · rw [stream_longAtOnce, indexOf_crlf2_longLine]
  · rw [stream_longInTwo, stream_longAtOnce]
  · rw [stream_shortInTwo, indexOf_crlf2_longLine]

end ReactorServer
