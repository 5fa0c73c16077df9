import ReactorServer.Connection.Cases

/-!
# The turns of a handler

When every `write` and `sendfile` takes all it is given, a handler deals with one request after the
other: it dispatches a request, and then either sends the whole response or submits a task, before
it looks for the next one.  `Phase` says how far it has got with a request, `Phase.scan` follows the
actions of a handler through the phases, and `handle_whole` says that they go through, and that
nothing is left in the output buffer at the end.
-/

set_option autoImplicit false

namespace ReactorServer

/-- How far a handler has got with a request. -/
inductive Phase where
  /-- There is none. -/
  | idle
  /-- It has been dispatched or rejected. -/
  | asked
  /-- Its response is on its way. -/
  | replying
  /-- The connection has been deleted. -/
  | closed
  deriving DecidableEq, Repr

namespace Phase

/-- The phase after an action, if the action is in its place. -/
def next (p : Phase) (a : Act) : Option Phase :=
  if p = .closed then none
  else
    match a with
    | .frame => if p = .idle then some .idle else none
    | .dispatch _ => if p = .idle then some .asked else none
    | .reject _ => if p = .idle then some .asked else none
    | .issue .. => if p = .asked then some .replying else none
    | .json _ => if p = .asked then some .replying else none
    | .submit _ => if p = .asked then some .idle else none
    | .complete => if p = .replying then some .idle else none
    | .delete => if p = .idle then some .closed else none
    | _ => some p

/-- The phase after some actions. -/
def scan : Phase → List Act → Option Phase
  | p, [] => some p
  | p, a :: acts => (p.next a).bind fun q ↦ scan q acts

theorem scan_append (p : Phase) (as bs : List Act) :
    p.scan (as ++ bs) = (p.scan as).bind fun q ↦ q.scan bs := by
  induction as generalizing p with
  | nil => rfl
  | cons a as ih =>
    rw [List.cons_append, scan, scan, Option.bind_assoc]
    exact congrArg _ (funext ih)

theorem scan_append_of {p q : Phase} {as : List Act} (h : p.scan as = some q) (bs : List Act) :
    p.scan (as ++ bs) = q.scan bs := by
  rw [scan_append, h, Option.bind_some]

theorem scan_cons {p q : Phase} {a : Act} {acts : List Act} (h : p.scan (a :: acts) = some q) :
    ∃ p', p.next a = some p' ∧ p'.scan acts = some q := Option.bind_eq_some_iff.mp h

/-- Nothing is left to do after a deletion. -/
theorem nil_of_scan_closed {q : Phase} {acts : List Act} (h : closed.scan acts = some q) : acts = [] := by
  cases acts with
  | nil => rfl
  | cons a acts =>
    obtain ⟨p, hp, -⟩ := scan_cons h
    exact absurd hp (by simp [next])

/-- Actions that have nothing to do with requests and responses do not change the phase. -/
theorem scan_quiet {p : Phase} (hp : p ≠ .closed) {acts : List Act}
    (h : ∀ a ∈ acts, a = .touch ∨ (∃ ka r bs, a = .io ka r bs) ∨ (∃ r bs, a = .jsonIo r bs) ∨
      ∃ r, a = .read r) : p.scan acts = some p := by
  induction acts with
  | nil => rfl
  | cons a acts ih =>
    have hnext : p.next a = some p := by
      rcases h a List.mem_cons_self with rfl | ⟨_, _, _, rfl⟩ | ⟨_, _, rfl⟩ | ⟨_, rfl⟩
      all_goals exact if_neg hp
    rw [scan, hnext, Option.bind_some]
    exact ih fun b hb ↦ h b (List.mem_cons_of_mem _ hb)

end Phase

/-- A call, all of whose writes are taken whole: it leads from one phase to another, and leaves
nothing to be sent. -/
structure Whole (p : Phase) (r : Run) (q : Phase) : Prop where
  scan : p.scan r.acts = some q
  pending : r.conn.pendingBytes = []
  io : r.kernel.io = []

theorem Whole.after {p p' q : Phase} {r : Run} {acts : List Act} (h : Whole p r q)
    (hacts : p'.scan acts = some p) : Whole p' (r.after acts) q where
  scan := (Phase.scan_append_of hacts _).trans h.scan
  pending := h.pending
  io := h.io

theorem writeFromBuffer_whole (c : Conn) {k : Kernel} (hk : k.io = []) :
    Whole .replying (writeFromBuffer c k) (if c.closeAfterWrite then .closed else .idle) := by
  obtain ⟨c', ios, io', hd, hio, hcases⟩ := writeFromBuffer_cases c k
  rw [hk] at hio hcases
  rcases hcases with ⟨-, -, -, h⟩ | ⟨-, -, r, h, -⟩ | ⟨h, -, -⟩
  · exact absurd h (by simp)
  · exact absurd h (by simp)
  rw [h]
  have hios : Phase.replying.scan ios = some .replying := by
    refine Phase.scan_quiet (by simp) fun a ha ↦ ?_
    rcases hd.acts a ha with rfl | ⟨r, bs, rfl⟩
    · exact .inl rfl
    · exact .inr (.inl ⟨_, _, _, rfl⟩)
  refine Whole.after ⟨?_, rfl, List.suffix_nil.mp hio⟩ hios
  rw [← hd.closeAfterWrite]
  cases hc : c'.closeAfterWrite <;> simp only [finishWrite, hc] <;> rfl

theorem sendJson_whole {c : Conn} (hc : c.pendingBytes = []) {k : Kernel} (hk : k.io = [])
    (status : ℕ) (body : Bytes) (ka : Bool) :
    Whole .asked (sendJson c k status body ka) .idle := by
  have hexit : (drain [] .jsonIo (jsonResponse status body ka) k.io).exit = .sent := by
    by_contra h
    obtain ⟨r, hr, -⟩ := drain_stopped h
    rw [hk] at hr
    exact absurd hr (by simp)
  have hio := (drain_spec [] .jsonIo (jsonResponse status body ka) k.io).2.2
  have hquiet : Phase.replying.scan (drain [] .jsonIo (jsonResponse status body ka) k.io).acts =
      some .replying := by
    refine Phase.scan_quiet (by simp) fun a ha ↦ ?_
    rcases drain_acts _ _ _ _ ha with h | ⟨r, bs, rfl⟩
    · exact absurd h (by simp)
    · exact .inr (.inr (.inl ⟨_, _, rfl⟩))
  rw [sendJson]
  generalize drain [] .jsonIo (jsonResponse status body ka) k.io = d at *
  refine ⟨?_, hc, ?_⟩
  · rw [hexit, if_pos rfl, List.cons_append]
    show Phase.replying.scan (d.acts ++ [.complete]) = _
    rw [Phase.scan_append_of hquiet]
    rfl
  · rw [hk] at hio
    exact List.suffix_nil.mp hio

/-- **A request is dealt with** by a whole response or by a task. -/
theorem serve_whole (file : Option Bytes) {c : Conn} (hc : c.pendingBytes = []) {k : Kernel}
    (hk : k.io = []) (request : Bytes) (ka allowed : Bool) :
    ∃ q, Whole .asked (serve file c k request ka allowed) q ∧
      (q = .idle ∨ q = .closed ∧ ka = false) := by
  rcases serve_cases file c k request ka allowed with
    ⟨c', reply, -, hl, h⟩ | ⟨status, body, -, h⟩ | ⟨t, -, -, h⟩
  · rw [h]
    refine ⟨_, (writeFromBuffer_whole c' hk).after rfl, ?_⟩
    rw [hl.same]
    cases ka with
    | true => exact .inl rfl
    | false => exact .inr ⟨rfl, rfl⟩
  · rw [h]
    exact ⟨.idle, sendJson_whole hc hk status body ka, .inl rfl⟩
  · rw [h]
    exact ⟨.idle, ⟨rfl, hc, hk⟩, .inl rfl⟩

theorem turn_whole (file : Option Bytes) {c : Conn} (hc : c.pendingBytes = []) {k : Kernel}
    (hk : k.io = []) (headers text rest : Bytes) :
    ∃ q, Whole .idle (turn file c k headers text rest) q ∧
      (q = .idle ∨ q = .closed ∧ wantKeepAlive text headers = false) := by
  obtain ⟨q, hq, hcases⟩ := serve_whole file (c := { c with inputBuffer := rest }) hc
    ((allowRequest_io k).trans hk) text (wantKeepAlive text headers) (allowRequest k).1
  exact ⟨q, hq.after rfl, hcases⟩

theorem rejectInput_whole (c : Conn) {k : Kernel} (hk : k.io = []) (status : ℕ)
    (message : String) : Whole .idle (rejectInput c k status message) .closed := by
  obtain ⟨c', reply, hl, h⟩ := rejectInput_loaded c k status message
  have key := writeFromBuffer_whole c' hk
  rw [show c'.closeAfterWrite = true by rw [hl.same]; rfl, if_pos rfl] at key
  rw [h]
  exact (key.after rfl).after rfl

theorem processRequests_whole (file : Option Bytes) (c : Conn) (k : Kernel) :
    c.pendingBytes = [] → k.io = [] →
      ∃ q, Whole .idle (processRequests file c k) q ∧ (q = .idle ∨ q = .closed) := by
  refine processRequests_induct file (P := fun c k r ↦ c.pendingBytes = [] → k.io = [] →
    ∃ q, Whole .idle r q ∧ (q = .idle ∨ q = .closed)) ?_ ?_ ?_ ?_ c k
  · intro c k _ hc hk
    exact ⟨.idle, ⟨rfl, hc, hk⟩, .inl rfl⟩
  · intro c k status message _ hc hk
    exact ⟨.closed, rejectInput_whole c hk status message, .inr rfl⟩
  · intro c k headers text rest _ _ hc hk
    obtain ⟨q, hq, hcases⟩ := turn_whole file hc hk headers text rest
    exact ⟨q, hq, hcases.imp_right And.left⟩
  · intro c k headers text rest _ hka ih hc hk
    -- a keep-alive turn does not delete, so the loop goes on where it was
    obtain ⟨q, hq, hcases⟩ := turn_whole file hc hk headers text rest
    obtain rfl : q = .idle := hcases.resolve_right fun h ↦ by simp [hka] at h
    obtain ⟨q', hq', hcases'⟩ := ih hq.pending hq.io
    exact ⟨q', hq'.after hq.scan, hcases'⟩

/-- **A handler deals with its requests one by one**, and with all of each. -/
theorem handle_whole (file : Option Bytes) {c : Conn} (hc : c.pendingBytes = []) {e : Event}
    (he : e.kernel.io = []) :
    ∃ q, Whole .idle (handle file c e) q ∧ (q = .idle ∨ q = .closed) := by
  cases e with
  | readable now reads k =>
    obtain ⟨acts, hacts, hcases⟩ := handleMessage_cases file c now reads k
    have hquiet : Phase.idle.scan acts = some .idle := by
      refine Phase.scan_quiet (by simp) fun a ha ↦ ?_
      rcases hacts a ha with rfl | ⟨r, rfl⟩
      · exact .inl rfl
      · exact .inr (.inr (.inr ⟨_, rfl⟩))
    rcases hcases with ⟨-, -, h⟩ | ⟨-, h⟩
    · rw [handle, h]
      obtain ⟨q, hq, hcases⟩ := processRequests_whole file (c.received now (readAll reads).1) k hc he
      exact ⟨q, hq.after hquiet, hcases⟩
    · rw [handle, h]
      exact ⟨.closed, ⟨Phase.scan_append_of hquiet _, hc, he⟩, .inr rfl⟩
  | writable k =>
    have hpending : c.outputPending = false := Conn.pendingBytes_eq_nil_iff.mp hc
    rw [handle, handleWrite, if_neg (by simp [hpending])]
    exact ⟨.idle, ⟨rfl, hc, he⟩, .inl rfl⟩

end ReactorServer
