import ReactorServer.Server.Deletion

/-!
# A response that announces the close is followed by it

A request that asks for it, or one that is rejected, is answered with `Connection: close`.  On the
reactor's own path `closeAfterWrite_` is set along with the response, and when the last byte is out,
at once or after any number of `EPOLLOUT`s, the delete callback is called.  `sendJson` has no
connection to close: the routes of the database pool answer with the same header, whether from a
worker or, for a request that does not pass the checks, from the reactor, and then nothing happens
(`left_open`).

When no such request goes to one of these routes, and nobody deletes a connection that is not in the
table yet, the announcement is kept (`close_follows`).

The proof follows a handler through its actions with a `Ledger`, which has for each of the requests
that a response can be about whether it keeps the connection alive.  `Ledger.Announced` says that
the completion of a closing response is followed by a deletion; that a handler keeps to it is
`handle_announced`, and the rest is to see that the ledger is right about the requests.
-/

set_option autoImplicit false

namespace ReactorServer

open Machine

/-- The request goes to a route of the database pool. -/
def Dispatch.toDb (d : Dispatch) : Bool :=
  d.allowed && (dbHandler (parseMethod d.request) (parseUrl d.request)).isSome

/-! ## The ledger -/

/-- What is known about the requests that a response can be about: the one in hand, whether it has
gone to a route of the database pool, and whether it keeps the connection alive; the one that the
output buffer answers; and whether `sendJson` is at work. -/
structure Ledger where
  db : Bool
  asked : Bool
  buffered : Bool
  direct : Bool
  deriving DecidableEq, Repr

namespace Ledger

/-- A connection without requests. -/
def empty : Ledger := ⟨false, true, true, false⟩

/-- The ledger after an action. -/
def note (f : Ledger) : Act → Ledger
  | .frame => { f with direct := false }
  | .dispatch d => { f with db := d.toDb, asked := d.keepAlive }
  | .reject _ => { f with db := false, asked := false }
  | .issue .. => { f with buffered := f.asked, direct := false }
  | .json _ => { f with direct := true }
  | .complete => { f with direct := false }
  | _ => f

/-- The action is in its place, with these to follow: `sendJson` and the pool are for the routes of
the database pool, and when a closing response is complete the connection will be deleted. -/
def Allows (f : Ledger) (a : Act) (acts : List Act) : Prop :=
  match a with
  | .complete => f.direct = false → f.buffered = false → .delete ∈ acts
  | .json _ => f.db = true
  | .submit _ => f.db = true
  | _ => True

/-- All actions are in their places. -/
def Announced : Ledger → List Act → Prop
  | _, [] => True
  | f, a :: acts => f.Allows a acts ∧ (f.note a).Announced acts

theorem Allows.append {f : Ledger} {a : Act} {as : List Act} (h : f.Allows a as) (bs : List Act) :
    f.Allows a (as ++ bs) := by
  cases a with
  | complete => exact fun hd hb ↦ List.mem_append_left _ (h hd hb)
  | _ => exact h

theorem Announced.append {f : Ledger} {as bs : List Act} (h : f.Announced as)
    (h' : (as.foldl note f).Announced bs) : f.Announced (as ++ bs) := by
  induction as generalizing f with
  | nil => exact h'
  | cons a as ih => exact ⟨h.1.append bs, ih h.2 h'⟩

/-- Actions that have nothing to do with requests and responses. -/
theorem announced_quiet (f : Ledger) {acts : List Act}
    (h : ∀ a ∈ acts, f.note a = f ∧ ∀ as, f.Allows a as) :
    f.Announced acts ∧ acts.foldl note f = f := by
  induction acts with
  | nil => exact ⟨trivial, rfl⟩
  | cons a acts ih =>
    obtain ⟨hnote, hallows⟩ := h a List.mem_cons_self
    obtain ⟨hacts, hfold⟩ := ih fun b hb ↦ h b (List.mem_cons_of_mem _ hb)
    refine ⟨⟨hallows acts, ?_⟩, ?_⟩
    · rw [hnote]
      exact hacts
    · rw [List.foldl_cons, hnote, hfold]

/-- If something is in the output buffer, the ledger is right about it. -/
def Tags (f : Ledger) (c : Conn) : Prop := c.outputPending = true → f.buffered = !c.closeAfterWrite

/-- A call whose actions are in their places, and after which the ledger is right. -/
structure Keeps (f : Ledger) (r : Run) : Prop where
  announced : f.Announced r.acts
  tags : (r.acts.foldl note f).Tags r.conn

theorem Keeps.after {f : Ledger} {r : Run} {acts : List Act} (hacts : f.Announced acts)
    (h : (acts.foldl note f).Keeps r) : f.Keeps (r.after acts) where
  announced := hacts.append h.announced
  tags := by
    rw [Run.after_acts, List.foldl_append]
    exact h.tags

end Ledger

/-! ## Handlers -/

theorem Drained.announced {c c' : Conn} {ios : List Act} (h : Drained c c' ios) (f : Ledger) :
    f.Announced ios ∧ ios.foldl Ledger.note f = f := by
  refine f.announced_quiet fun a ha ↦ ?_
  rcases h.acts a ha with rfl | ⟨r, bs, rfl⟩
  · exact ⟨rfl, fun _ ↦ trivial⟩
  · exact ⟨rfl, fun _ ↦ trivial⟩

/-- **A drain of the output buffer** deletes the connection when the response is complete and was a
closing one. -/
theorem writeFromBuffer_announced (c : Conn) (k : Kernel) {f : Ledger}
    (hf : f.buffered = !c.closeAfterWrite) : f.Keeps (writeFromBuffer c k) := by
  obtain ⟨c', ios, io', hd, -, hcases⟩ := writeFromBuffer_cases c k
  obtain ⟨hios, hfold⟩ := hd.announced f
  rw [← hd.closeAfterWrite] at hf
  rcases hcases with ⟨h, -⟩ | ⟨h, -⟩ | ⟨h, -⟩
  · rw [h]
    refine .after hios ?_
    rw [hfold]
    exact ⟨⟨trivial, trivial⟩, fun _ ↦ hf⟩
  · rw [h]
    refine .after hios ?_
    rw [hfold]
    exact ⟨⟨trivial, trivial⟩, fun _ ↦ hf⟩
  · rw [h]
    refine .after hios ?_
    rw [hfold]
    refine ⟨?_, fun hpending ↦ ?_⟩
    · cases hclose : c'.closeAfterWrite with
      | true => simp [finishWrite, hclose, Ledger.Announced, Ledger.Allows, disableWriting, updateChannel]
      | false =>
        simp [finishWrite, hclose, hf, Ledger.Announced, Ledger.Allows, disableWriting, updateChannel]
    · exact absurd hpending (by simp [finishWrite, Conn.outputPending])

theorem sendJson_announced (c : Conn) (k : Kernel) (status : ℕ) (body : Bytes) (ka : Bool) {f : Ledger}
    (hdb : f.db = true) (hf : f.Tags c) : f.Keeps (sendJson c k status body ka) := by
  have hios : ∀ g : Ledger, g.Announced (drain [] .jsonIo (jsonResponse status body ka) k.io).acts ∧
      (drain [] .jsonIo (jsonResponse status body ka) k.io).acts.foldl Ledger.note g = g := by
    intro g
    refine g.announced_quiet fun a ha ↦ ?_
    rcases drain_acts _ _ _ _ ha with h | ⟨r, bs, rfl⟩
    · exact absurd h (by simp)
    · exact ⟨rfl, fun _ ↦ trivial⟩
  rw [sendJson]
  generalize drain [] .jsonIo (jsonResponse status body ka) k.io = d at *
  obtain ⟨hannounced, hfold⟩ := hios { f with direct := true }
  by_cases hsent : d.exit = .sent
  · rw [if_pos hsent]
    refine ⟨⟨hdb, hannounced.append ?_⟩, ?_⟩
    · rw [hfold]
      exact ⟨fun h ↦ absurd h (by simp), trivial⟩
    · rw [List.cons_append, List.foldl_cons, List.foldl_append]
      show Ledger.Tags (List.foldl _ (List.foldl _ { f with direct := true } d.acts) _) c
      rw [hfold]
      exact hf
  · rw [if_neg hsent, List.append_nil]
    refine ⟨⟨hdb, hannounced⟩, ?_⟩
    rw [List.foldl_cons]
    show Ledger.Tags (List.foldl _ { f with direct := true } d.acts) c
    rw [hfold]
    exact hf

/-- A request that does not go to a route of the database pool is answered through the output
buffer. -/
theorem serve_loaded (file : Option Bytes) (c : Conn) (k : Kernel) {request : Bytes} {allowed : Bool}
    (h : (allowed && (dbHandler (parseMethod request) (parseUrl request)).isSome) = false)
    (keepAlive : Bool) :
    ∃ c' reply, Loaded c c' keepAlive reply ∧
      serve file c k request keepAlive allowed =
        (writeFromBuffer c' k).after [.issue keepAlive reply] := by
  unfold serve
  dsimp only
  cases allowed with
  | false =>
    obtain ⟨c', hl, he⟩ := sendResponse_loaded c k 429 (lit "application/json")
      (errorJson "too many requests") keepAlive
    exact ⟨c', _, hl, he⟩
  | true =>
    have hnone : dbHandler (parseMethod request) (parseUrl request) = none := by simpa using h
    rw [hnone]
    dsimp only [Bool.not_true, Bool.false_eq_true, if_false]
    obtain ⟨cp, hlp, hep⟩ := sendResponse_loaded c k
      (if parseUrl request = lit "/" ∨ parseUrl request = lit "/hello" then 200 else 404)
      (lit "text/html") (getResponse (parseUrl request)) keepAlive
    by_cases hroot : parseUrl request = lit "/"
    · rw [if_neg (by simp), if_pos hroot]
      cases file with
      | some content =>
        obtain ⟨c', hl, he⟩ := sendFile_loaded c k 200 (lit "text/html") content keepAlive
        exact ⟨c', _, hl, he⟩
      | none => exact ⟨cp, _, hlp, hep⟩
    · rw [if_neg (by simp), if_neg hroot]
      exact ⟨cp, _, hlp, hep⟩

theorem serve_announced (file : Option Bytes) (c : Conn) (k : Kernel) (request : Bytes)
    (ka allowed : Bool) {f : Ledger} (hf : f.Tags c) (hasked : f.asked = ka)
    (hdb : f.db = (allowed && (dbHandler (parseMethod request) (parseUrl request)).isSome)) :
    f.Keeps (serve file c k request ka allowed) := by
  have hloaded : ∀ {c' : Conn} {reply : Bytes}, Loaded c c' ka reply →
      f.Keeps ((writeFromBuffer c' k).after [.issue ka reply]) := by
    intro c' reply hl
    refine .after ⟨trivial, trivial⟩ (writeFromBuffer_announced c' k ?_)
    show f.asked = !c'.closeAfterWrite
    rw [hasked, show c'.closeAfterWrite = !ka by rw [hl.same], Bool.not_not]
  cases hroute : f.db with
  | false =>
    obtain ⟨c', reply, hl, he⟩ := serve_loaded file c k (hdb.symm.trans hroute) ka
    rw [he]
    exact hloaded hl
  | true =>
    rcases serve_cases file c k request ka allowed with
      ⟨c', reply, -, hl, h⟩ | ⟨status, body, -, h⟩ | ⟨t, -, -, h⟩
    · rw [h]
      exact hloaded hl
    · rw [h]
      exact sendJson_announced c k status body ka hroute hf
    · rw [h]
      exact ⟨⟨hroute, trivial⟩, hf⟩

theorem turn_announced (file : Option Bytes) (c : Conn) (k : Kernel) (headers text rest : Bytes)
    {f : Ledger} (hf : f.Tags c) : f.Keeps (turn file c k headers text rest) := by
  refine .after ⟨trivial, trivial, trivial⟩ ?_
  exact serve_announced file { c with inputBuffer := rest } (allowRequest k).2 text
    (wantKeepAlive text headers) (allowRequest k).1 hf rfl rfl

theorem rejectInput_announced (c : Conn) (k : Kernel) (status : ℕ) (message : String) (f : Ledger) :
    f.Keeps (rejectInput c k status message) := by
  obtain ⟨c', reply, hl, h⟩ := rejectInput_loaded c k status message
  rw [h]
  refine .after ⟨trivial, trivial, trivial⟩ (.after ⟨trivial, trivial⟩
    (writeFromBuffer_announced c' k ?_))
  show false = !c'.closeAfterWrite
  rw [show c'.closeAfterWrite = true by rw [hl.same]; rfl]
  rfl

theorem processRequests_announced (file : Option Bytes) (c : Conn) (k : Kernel) :
    ∀ f : Ledger, f.Tags c → f.Keeps (processRequests file c k) := by
  refine processRequests_induct file (P := fun c _ r ↦ ∀ f : Ledger, f.Tags c → f.Keeps r)
    ?_ ?_ ?_ ?_ c k
  · intro c k _ f hf
    exact ⟨⟨trivial, trivial⟩, hf⟩
  · intro c k status message _ f _
    exact rejectInput_announced c k status message f
  · intro c k headers text rest _ _ f hf
    exact turn_announced file c k headers text rest hf
  · intro c k headers text rest _ _ ih f hf
    have hturn := turn_announced file c k headers text rest hf
    exact .after hturn.announced (ih _ hturn.tags)

/-- **A handler keeps what it announces.** -/
theorem handle_announced (file : Option Bytes) (c : Conn) (e : Event) {f : Ledger} (hf : f.Tags c) :
    f.Keeps (handle file c e) := by
  cases e with
  | readable now reads k =>
    obtain ⟨acts, hacts, hcases⟩ := handleMessage_cases file c now reads k
    have hreads : ∀ a ∈ acts, f.note a = f ∧ ∀ as, f.Allows a as := by
      intro a ha
      rcases hacts a ha with rfl | ⟨r, rfl⟩
      · exact ⟨rfl, fun _ ↦ trivial⟩
      · exact ⟨rfl, fun _ ↦ trivial⟩
    obtain ⟨hquiet, hfold⟩ := f.announced_quiet hreads
    rcases hcases with ⟨-, -, h⟩ | ⟨-, h⟩
    · rw [handle, h]
      refine .after hquiet ?_
      rw [hfold]
      exact processRequests_announced file (c.received now (readAll reads).1) k f hf
    · rw [handle, h]
      refine .after (r := ⟨_, k, [.delete]⟩) hquiet ?_
      rw [hfold]
      exact ⟨⟨trivial, trivial⟩, hf⟩
  | writable k =>
    rw [handle, handleWrite]
    by_cases hpending : c.outputPending = true
    · rw [if_pos hpending]
      exact .after ⟨trivial, trivial⟩ (writeFromBuffer_announced c k (hf hpending))
    · rw [if_neg hpending]
      exact ⟨⟨trivial, trivial, trivial⟩, fun h ↦ absurd h hpending⟩

/-! ## The requests that are to be closed after -/

/-- A request that is not keep-alive is dispatched, or one is rejected. -/
def Act.announcesClose : Act → Bool
  | .dispatch d => !d.keepAlive
  | .reject _ => true
  | _ => false

/-- The request that is dispatched. -/
def Act.dispatched : Act → Option Dispatch
  | .dispatch d => some d
  | _ => none

/-- The requests of a connection, by their numbers, to which the response announces a close, among
those of all connections. -/
structure Ledger.Fits (f : Ledger) (closing : List (ℕ × ℕ)) (i : ℕ) (c : Client) : Prop where
  announced : f.Announced c.todo
  tags : (c.todo.foldl Ledger.note f).Tags c.conn
  proper : f.db = true → f.asked = true
  asked : (i, c.asked) ∈ closing → f.asked = false
  buffered : (i, c.buffered) ∈ closing → f.buffered = false
  direct : c.direct = none → f.direct = false
  json : ∀ n ∈ c.direct, (i, n) ∉ closing ∧ n ≤ c.asked
  le : c.buffered ≤ c.asked
  known : ∀ n, (i, n) ∈ closing → n ≤ c.asked

namespace Ledger

variable {f : Ledger} {closing : List (ℕ × ℕ)} {i : ℕ} {c : Client} {todo : List Act}

/-- A new request, closing or not. -/
theorem Fits.ask (h : f.Fits closing i c) (db ka : Bool) (hproper : db = true → ka = true)
    (hann : ({ f with db := db, asked := ka } : Ledger).Announced todo)
    (htags : (todo.foldl note { f with db := db, asked := ka }).Tags c.conn) :
    ({ f with db := db, asked := ka } : Ledger).Fits
      (closing ++ if ka then [] else [(i, c.asked + 1)]) i
      { c with asked := c.asked + 1, todo := todo } := by
  have hold : ∀ {n : ℕ}, n ≤ c.asked →
      (i, n) ∈ closing ++ (if ka then [] else [(i, c.asked + 1)]) → (i, n) ∈ closing := by
    intro n hn hmem
    rcases List.mem_append.mp hmem with hmem | hmem
    · exact hmem
    · cases ka with
      | true => exact absurd hmem (by simp)
      | false =>
        obtain ⟨-, rfl⟩ : i = i ∧ n = c.asked + 1 := by simpa using hmem
        exact absurd hn (by omega)
  refine ⟨hann, htags, hproper, fun hmem ↦ ?_, fun hmem ↦ h.buffered (hold h.le hmem), h.direct,
    fun n hn ↦ ?_, Nat.le_succ_of_le h.le, fun n hmem ↦ ?_⟩
  · cases ka with
    | true =>
      rw [if_pos rfl, List.append_nil] at hmem
      exact absurd (h.known _ hmem) (by simp)
    | false => rfl
  · obtain ⟨hnot, hle⟩ := h.json n hn
    exact ⟨fun hmem ↦ hnot (hold hle hmem), Nat.le_succ_of_le hle⟩
  · show n ≤ c.asked + 1
    by_contra hlt
    rcases List.mem_append.mp hmem with hmem | hmem
    · have := h.known n hmem
      omega
    · cases ka with
      | true => exact absurd hmem (by simp)
      | false =>
        obtain ⟨-, rfl⟩ : i = i ∧ n = c.asked + 1 := by simpa using hmem
        omega

/-- **An action is performed**, and the ledger goes along. -/
theorem Fits.note {a : Act} (h : f.Fits closing i c) (htodo : c.todo = a :: todo)
    (hproper : ∀ d, a = .dispatch d → d.toDb = true → d.keepAlive = true) :
    (f.note a).Fits (closing ++ if a.announcesClose then [(i, c.asked + 1)] else []) i
      { c.note a with todo := todo } := by
  have hann := h.announced
  have htags := h.tags
  rw [htodo] at hann htags
  obtain ⟨hallows, hann⟩ := hann
  have hjson : ∀ {n : ℕ}, n ∈ (none : Option ℕ) → (i, n) ∉ closing ∧ n ≤ c.asked :=
    fun hn ↦ absurd hn (by simp)
  cases a with
  | dispatch d =>
    have hask := h.ask d.toDb d.keepAlive (hproper d rfl) hann htags
    cases hka : d.keepAlive with
    | true =>
      rw [hka] at hask
      simpa [Act.announcesClose, hka, Ledger.note, Client.note] using hask
    | false =>
      rw [hka] at hask
      simpa [Act.announcesClose, hka, Ledger.note, Client.note] using hask
  | reject status => exact h.ask false false (by simp) hann htags
  | frame =>
    rw [if_neg (by simp [Act.announcesClose]), List.append_nil]
    exact ⟨hann, htags, h.proper, h.asked, h.buffered, fun _ ↦ rfl, fun _ ↦ hjson, h.le, h.known⟩
  | issue ka reply =>
    rw [if_neg (by simp [Act.announcesClose]), List.append_nil]
    exact ⟨hann, htags, h.proper, h.asked, h.asked, fun _ ↦ rfl, fun _ ↦ hjson, le_rfl, h.known⟩
  | json reply =>
    rw [if_neg (by simp [Act.announcesClose]), List.append_nil]
    refine ⟨hann, htags, h.proper, h.asked, h.buffered, fun hnone ↦ absurd hnone (by simp [Client.note]),
      fun n hn ↦ ?_, h.le, h.known⟩
    -- `sendJson` is at work only for a route of the database pool
    obtain rfl : c.asked = n := by simpa [Client.note] using hn
    refine ⟨fun hmem ↦ ?_, le_rfl⟩
    exact absurd (h.asked hmem) (by rw [h.proper hallows]; simp)
  | complete =>
    rw [if_neg (by simp [Act.announcesClose]), List.append_nil]
    exact ⟨hann, htags, h.proper, h.asked, h.buffered, fun _ ↦ rfl, fun _ ↦ hjson, h.le, h.known⟩
  | _ =>
    rw [if_neg (by simp [Act.announcesClose]), List.append_nil]
    exact ⟨hann, htags, h.proper, h.asked, h.buffered, h.direct, h.json, h.le, h.known⟩

/-- The request of another connection is not this one's. -/
theorem Fits.other (h : f.Fits closing i c) {j n : ℕ} (hij : i ≠ j) {new : List (ℕ × ℕ)}
    (hnew : ∀ p ∈ new, p = (j, n)) : f.Fits (closing ++ new) i c := by
  have hold : ∀ {m : ℕ}, (i, m) ∈ closing ++ new → (i, m) ∈ closing := by
    intro m hmem
    rcases List.mem_append.mp hmem with hmem | hmem
    · exact hmem
    · exact absurd (congrArg Prod.fst (hnew _ hmem)) hij
  exact ⟨h.announced, h.tags, h.proper, fun hm ↦ h.asked (hold hm), fun hm ↦ h.buffered (hold hm),
    h.direct, fun n hn ↦ ⟨fun hm ↦ (h.json n hn).1 (hold hm), (h.json n hn).2⟩, h.le,
    fun n hm ↦ h.known n (hold hm)⟩

end Ledger

/-! ## Runs -/

namespace Sys

/-- The request, by its connection and its number, to which the response will announce a close, if
one is dispatched or rejected in this move. -/
def announces (s : Sys) : Label → List (ℕ × ℕ)
  | .act i =>
    match s.clients[i]? with
    | some c => if c.todo.head?.any Act.announcesClose then [(i, c.asked + 1)] else []
    | none => []
  | _ => []

/-- Nobody calls `deleteConnection` before it is in the table, and no request that is to be closed
after goes to a route of the database pool. -/
def Proper (s : Sys) (l : Label) : Prop :=
  s.Settled l ∧ match l with
    | .act i => ∀ d ∈ (s.nextAct i).bind Act.dispatched, d.toDb = true → d.keepAlive = true
    | _ => True

instance (s : Sys) (l : Label) : Decidable (s.Proper l) :=
  match l with
  | .act _ => inferInstanceAs (Decidable (_ ∧ ∀ _ ∈ _, _ → _))
  | .accept .. | .insert | .event .. | .take _ | .call .. | .write .. | .expire _ =>
    inferInstanceAs (Decidable (_ ∧ True))

/-- The tasks that have not been forgotten, answered or not. -/
def tickets (s : Sys) : List Ticket := s.queue ++ s.threads.filterMap (·.map Running.ticket)

/-- The connection has been in the table, and will not be there again. -/
structure Removed (s : Sys) (i : ℕ) : Prop where
  known : i < s.clients.length
  absent : ∀ fd, s.connections fd ≠ some i
  settled : ∀ fd, s.arriving ≠ some (fd, i)

/-- A complete response to the request has been written, to whomever. -/
def Answered (s : Sys) (p : ℕ × ℕ) : Prop := ∃ (j : ℕ) (c : Client), s.clients[j]? = some c ∧ p ∈ c.answered

/-- The handler that is running on the connection is going to delete it. -/
def Doomed (s : Sys) (i : ℕ) : Prop := ∃ c, s.clients[i]? = some c ∧ .delete ∈ c.todo

/-- The request has been dispatched or rejected. -/
def Numbered (s : Sys) (p : ℕ × ℕ) : Prop := ∃ c, s.clients[p.1]? = some c ∧ p.2 ≤ c.asked

/-- The ledgers are right about all requests, the tasks are for requests that are not to be closed
after, and when one that is has been answered, its connection is gone, or about to go. -/
structure Accounted (s : Sys) (closing : List (ℕ × ℕ)) : Prop where
  table : s.Table
  clients : ∀ i c, s.clients[i]? = some c → ∃ f : Ledger, f.Fits closing i c
  announced : ∀ p ∈ closing, s.Numbered p
  answered : ∀ p, s.Answered p → s.Numbered p
  tickets : ∀ t ∈ s.tickets, (t.origin, t.number) ∉ closing ∧ s.Numbered (t.origin, t.number)
  kept : ∀ p ∈ closing, s.Answered p → s.Removed p.1 ∨ s.Doomed p.1

theorem accounted_start : start.Accounted [] where
  table := table_start
  clients i c hc := absurd hc (by simp [start])
  announced p hp := absurd hp (by simp)
  answered p hp := by
    obtain ⟨j, c, hc, -⟩ := hp
    exact absurd hc (by simp [start])
  tickets t ht := absurd ht (by simp [Sys.tickets, start])
  kept p hp := absurd hp (by simp)

variable {s s' : Sys} {closing : List (ℕ × ℕ)} {i : ℕ} {c c' : Client} {file : Option Bytes}

theorem Removed.of_sameTable {i : ℕ} (h : s.Removed i) (hconnections : s'.connections = s.connections)
    (harriving : s'.arriving = s.arriving) (hclients : s.clients.length ≤ s'.clients.length) :
    s'.Removed i where
  known := h.known.trans_le hclients
  absent fd := by
    rw [hconnections]
    exact h.absent fd
  settled fd := by
    rw [harriving]
    exact h.settled fd

/-- Who is gone stays gone. -/
theorem Removed.step {i : ℕ} (h : s.Removed i) (file : Option Bytes) (l : Label) :
    (s.step file l).Removed i := by
  rcases table_cases file s l with ⟨fd, now, rfl, -, harr, e⟩ | ⟨fd, j, rfl, harr, e⟩ |
    ⟨j, c, todo, rfl, hc, htodo, e⟩ | ⟨hsame, -⟩
  · rw [e]
    refine ⟨?_, h.absent, fun fd' hfd' ↦ ?_⟩
    · rw [List.length_append]
      exact Nat.lt_succ_of_lt h.known
    · obtain ⟨-, rfl⟩ : fd = fd' ∧ s.clients.length = i := by simpa using hfd'
      exact absurd h.known (by omega)
  · rw [e]
    refine ⟨h.known, fun fd' ↦ ?_, fun fd' ↦ by simp⟩
    show Function.update s.connections fd (some j) fd' ≠ some i
    by_cases hfd : fd' = fd
    · rw [hfd, Function.update_self]
      rintro ⟨rfl⟩
      exact h.settled fd harr
    · rw [Function.update_of_ne hfd]
      exact h.absent fd'
  · rw [e]
    refine ⟨?_, fun fd ↦ ?_, fun fd ↦ ?_⟩
    · rw [deleteConnection_clients, List.length_set]
      exact h.known
    · rw [deleteConnection_connections]
      by_cases hfd : fd = c.conn.fd
      · rw [hfd, Function.update_self]
        simp
      · rw [Function.update_of_ne hfd]
        exact h.absent fd
    · rw [deleteConnection_arriving]
      exact h.settled fd
  · exact h.of_sameTable hsame.connections hsame.arriving hsame.clients.ge

/-- Nothing has happened to the connections, and there are no new tasks. -/
theorem Accounted.frame (h : s.Accounted closing) (htable : s'.Table)
    (hclients : s'.clients = s.clients) (hremoved : ∀ i, s.Removed i → s'.Removed i)
    (htickets : ∀ t ∈ s'.tickets, t ∈ s.tickets) : s'.Accounted closing := by
  have hnumbered : ∀ p, s.Numbered p → s'.Numbered p := by
    rintro p ⟨c, hc, hle⟩
    exact ⟨c, by rwa [hclients], hle⟩
  have hanswered : ∀ p, s'.Answered p → s.Answered p := by
    rintro p ⟨j, c, hc, hp⟩
    exact ⟨j, c, by rwa [← hclients], hp⟩
  refine ⟨htable, fun i c hc ↦ h.clients i c (by rwa [← hclients]),
    fun p hp ↦ hnumbered p (h.announced p hp), fun p hp ↦ hnumbered p (h.answered p (hanswered p hp)),
    fun t ht ↦ (h.tickets t (htickets t ht)).imp_right (hnumbered _), fun p hp hans ↦ ?_⟩
  rcases h.kept p hp (hanswered p hans) with hgone | ⟨c, hc, hdelete⟩
  · exact .inl (hremoved _ hgone)
  · exact .inr ⟨c, by rwa [hclients], hdelete⟩

/-- One connection has moved on. -/
theorem Accounted.set (h : s.Accounted closing) (hc : s.clients[i]? = some c)
    (hclients : s'.clients = s.clients.set i c') (htable : s'.Table)
    (hremoved : ∀ j, s.Removed j → s'.Removed j) (htickets : ∀ t ∈ s'.tickets, t ∈ s.tickets)
    {f : Ledger} {new : List (ℕ × ℕ)} (hfits : f.Fits (closing ++ new) i c')
    (hnew : ∀ p ∈ new, p = (i, c.asked + 1)) (hanswered : c'.answered = c.answered)
    (hasked : c.asked ≤ c'.asked) (hdoomed : .delete ∈ c.todo → .delete ∈ c'.todo ∨ s'.Removed i) :
    s'.Accounted (closing ++ new) := by
  have hlen := (List.getElem?_eq_some_iff.mp hc).1
  have hself : s'.clients[i]? = some c' := by rw [hclients, List.getElem?_set_self hlen]
  have hother : ∀ {j : ℕ}, j ≠ i → s'.clients[j]? = s.clients[j]? := by
    intro j hj
    rw [hclients, List.getElem?_set_ne (Ne.symm hj)]
  have hnumbered : ∀ p, s.Numbered p → s'.Numbered p := by
    rintro ⟨j, n⟩ ⟨c₀, hc₀, hle⟩
    by_cases hj : j = i
    · subst hj
      obtain rfl := Option.some.inj (hc.symm.trans hc₀)
      exact ⟨c', hself, hle.trans hasked⟩
    · exact ⟨c₀, (hother hj).trans hc₀, hle⟩
  have hans : ∀ p, s'.Answered p → s.Answered p := by
    rintro p ⟨j, c₀, hc₀, hp⟩
    by_cases hj : j = i
    · subst hj
      obtain rfl := Option.some.inj (hself.symm.trans hc₀)
      exact ⟨j, c, hc, by rwa [hanswered] at hp⟩
    · exact ⟨j, c₀, (hother hj).symm.trans hc₀, hp⟩
  -- the new request has not been answered, and there is no task for it
  have hfresh : ∀ p ∈ new, ¬s.Numbered p := by
    rintro p hp ⟨c₀, hc₀, hle⟩
    rw [hnew p hp] at hc₀ hle
    obtain rfl := Option.some.inj (hc.symm.trans hc₀)
    exact absurd hle (by simp)
  refine ⟨htable, fun j c₀ hc₀ ↦ ?_, fun p hp ↦ ?_, fun p hp ↦ hnumbered p (h.answered p (hans p hp)),
    fun t ht ↦ ?_, fun p hp hp' ↦ ?_⟩
  · by_cases hj : j = i
    · subst hj
      obtain rfl := Option.some.inj (hself.symm.trans hc₀)
      exact ⟨f, hfits⟩
    · obtain ⟨f₀, hf₀⟩ := h.clients j c₀ ((hother hj).symm.trans hc₀)
      exact ⟨f₀, hf₀.other hj hnew⟩
  · rcases List.mem_append.mp hp with hp' | hp'
    · exact hnumbered p (h.announced p hp')
    · have hknown := hfits.known (c.asked + 1)
      rw [hnew p hp'] at hp ⊢
      exact ⟨c', hself, hknown hp⟩
  · obtain ⟨hnot, hnum⟩ := h.tickets t (htickets t ht)
    refine ⟨fun hmem ↦ ?_, hnumbered _ hnum⟩
    rcases List.mem_append.mp hmem with hmem | hmem
    · exact hnot hmem
    · exact hfresh _ hmem hnum
  · rcases List.mem_append.mp hp with hp | hp
    · rcases h.kept p hp (hans p hp') with hgone | ⟨c₀, hc₀, hdelete⟩
      · exact .inl (hremoved _ hgone)
      · by_cases hj : p.1 = i
        · rw [hj] at hc₀ ⊢
          obtain rfl := Option.some.inj (hc.symm.trans hc₀)
          rcases hdoomed hdelete with hdelete' | hgone
          · exact .inr ⟨c', hself, hdelete'⟩
          · exact .inl hgone
        · exact .inr ⟨c₀, (hother hj).trans hc₀, hdelete⟩
    · exact absurd (h.answered p (hans p hp')) (hfresh p hp)

/-- A response is complete, and if it was a closing one, the connection is about to go. -/
theorem Accounted.addReply (h : s.Accounted closing) {j : ℕ} {p : ℕ × ℕ}
    (hclients : s'.clients = s.clients.modify j (·.addReply p)) (htable : s'.Table)
    (hremoved : ∀ i, s.Removed i → s'.Removed i) (htickets : ∀ t ∈ s'.tickets, t ∈ s.tickets)
    (hp : s.Numbered p) (hkept : p ∈ closing → s.Doomed p.1) : s'.Accounted closing := by
  have hback : ∀ {i : ℕ} {c' : Client}, s'.clients[i]? = some c' →
      ∃ c, s.clients[i]? = some c ∧ (c' = c ∨ c' = c.addReply p) := by
    intro i c' hc'
    rw [hclients, List.getElem?_modify] at hc'
    obtain ⟨c, hc, rfl⟩ := Option.map_eq_some_iff.mp hc'
    by_cases hj : j = i
    · exact ⟨c, hc, .inr (if_pos hj)⟩
    · exact ⟨c, hc, .inl (if_neg hj)⟩
  have hforth : ∀ {i : ℕ} {c : Client}, s.clients[i]? = some c →
      ∃ c', s'.clients[i]? = some c' ∧ c'.asked = c.asked ∧ c'.todo = c.todo := by
    intro i c hc
    rw [hclients, List.getElem?_modify, hc]
    by_cases hj : j = i
    · exact ⟨c.addReply p, congrArg some (if_pos hj), rfl, rfl⟩
    · exact ⟨c, congrArg some (if_neg hj), rfl, rfl⟩
  have hnumbered : ∀ q, s.Numbered q → s'.Numbered q := by
    rintro q ⟨c, hc, hle⟩
    obtain ⟨c', hc', hasked, -⟩ := hforth hc
    exact ⟨c', hc', by rwa [hasked]⟩
  have hdoomed : ∀ i, s.Doomed i → s'.Doomed i := by
    rintro i ⟨c, hc, hdelete⟩
    obtain ⟨c', hc', -, htodo⟩ := hforth hc
    exact ⟨c', hc', by rwa [htodo]⟩
  have hans : ∀ q, s'.Answered q → s.Answered q ∨ q = p := by
    rintro q ⟨i, c', hc', hq⟩
    obtain ⟨c, hc, rfl | rfl⟩ := hback hc'
    · exact .inl ⟨i, c', hc, hq⟩
    · rcases List.mem_append.mp hq with hq | hq
      · exact .inl ⟨i, c, hc, hq⟩
      · exact .inr (List.mem_singleton.mp hq)
  refine ⟨htable, fun i c' hc' ↦ ?_, fun q hq ↦ hnumbered q (h.announced q hq), fun q hq ↦ ?_,
    fun t ht ↦ (h.tickets t (htickets t ht)).imp_right (hnumbered _), fun q hq hq' ↦ ?_⟩
  · obtain ⟨c, hc, rfl | rfl⟩ := hback hc'
    · exact h.clients i c' hc
    · obtain ⟨f, hf⟩ := h.clients i c hc
      exact ⟨f, hf.announced, hf.tags, hf.proper, hf.asked, hf.buffered, hf.direct, hf.json, hf.le,
        hf.known⟩
  · rcases hans q hq with hq | rfl
    · exact hnumbered q (h.answered q hq)
    · exact hnumbered q hp
  · rcases hans q hq' with hq' | rfl
    · exact (h.kept q hq hq').imp (hremoved _) (hdoomed _)
    · exact .inr (hdoomed _ (hkept hq))

theorem mem_tickets {t : Ticket} :
    t ∈ s.tickets ↔ t ∈ s.queue ∨ ∃ k, some k ∈ s.threads ∧ k.ticket = t := by
  rw [Sys.tickets, List.mem_append, List.mem_filterMap]
  refine or_congr_right ⟨?_, ?_⟩
  · rintro ⟨_ | k, hk, h⟩
    · exact absurd h (by simp)
    · exact ⟨k, hk, Option.some.inj h⟩
  · rintro ⟨k, hk, rfl⟩
    exact ⟨some k, hk, rfl⟩

/-- A thread goes on with its task, or to one from the queue. -/
theorem mem_tickets_set {queue : List Ticket} {threads : List (Option Running)} {w : ℕ} {k : Running}
    (hqueue : s'.queue = queue) (hthreads : s'.threads = threads.set w k.settle) {t : Ticket}
    (ht : t ∈ s'.tickets) : t ∈ queue ∨ (∃ k, some k ∈ threads ∧ k.ticket = t) ∨ t = k.ticket := by
  rw [mem_tickets, hqueue, hthreads] at ht
  rcases ht with ht | ⟨k', hk', rfl⟩
  · exact .inl ht
  · rcases mem_threads_set hk' with hk' | rfl
    · exact .inr (.inl ⟨k', hk', rfl⟩)
    · exact .inr (.inr rfl)

theorem Accounted.accept (h : s.Accounted closing) (file : Option Bytes) (fd now : ℕ) :
    (s.step file (.accept fd now)).Accounted closing := by
  have htable := h.table.step file (.accept fd now)
  have hremoved := fun i (hi : s.Removed i) ↦ hi.step file (.accept fd now)
  rw [step] at htable hremoved ⊢
  by_cases hfree : s.sockets fd = none ∧ s.arriving = none
  · rw [if_pos hfree] at htable hremoved ⊢
    have hold : ∀ {i : ℕ} {c : Client}, s.clients[i]? = some c →
        (s.clients ++ [Client.accepted fd now])[i]? = some c := by
      intro i c hc
      rw [List.getElem?_append_left (List.getElem?_eq_some_iff.mp hc).1, hc]
    have hnew : ∀ {i : ℕ} {c : Client}, (s.clients ++ [Client.accepted fd now])[i]? = some c →
        s.clients[i]? = some c ∨ i = s.clients.length ∧ c = .accepted fd now := by
      intro i c hc
      rcases Nat.lt_trichotomy i s.clients.length with hi | rfl | hi
      · rw [List.getElem?_append_left hi] at hc
        exact .inl hc
      · rw [List.getElem?_concat_length] at hc
        exact .inr ⟨rfl, (Option.some.inj hc).symm⟩
      · rw [List.getElem?_eq_none (by rw [List.length_append]; exact hi)] at hc
        exact absurd hc (by simp)
    have hnumbered : ∀ p, s.Numbered p → ∃ c, (s.clients ++ [Client.accepted fd now])[p.1]? = some c ∧
        p.2 ≤ c.asked := by
      rintro p ⟨c, hc, hle⟩
      exact ⟨c, hold hc, hle⟩
    refine ⟨htable, fun i c hc ↦ ?_, fun p hp ↦ hnumbered p (h.announced p hp), fun p hp ↦ ?_,
      fun t ht ↦ (h.tickets t ht).imp_right (hnumbered _), fun p hp hp' ↦ ?_⟩
    · rcases hnew hc with hc | ⟨rfl, rfl⟩
      · exact h.clients i c hc
      · -- it has no requests yet
        have hnone : ∀ n, (s.clients.length, n) ∉ closing := by
          intro n hmem
          obtain ⟨c, hc, -⟩ := h.announced _ hmem
          exact absurd (List.getElem?_eq_some_iff.mp hc).1 (by simp)
        exact ⟨.empty, trivial, fun hp ↦ absurd hp (by simp [Client.accepted, newConn, Conn.outputPending]),
          fun hdb ↦ absurd hdb (by decide),
          fun hm ↦ absurd hm (hnone _), fun hm ↦ absurd hm (hnone _), fun _ ↦ rfl,
          fun n hn ↦ absurd hn (by simp [Client.accepted]), le_rfl, fun n hm ↦ absurd hm (hnone _)⟩
    · obtain ⟨j, c, hc, hp⟩ := hp
      rcases hnew hc with hc | ⟨-, rfl⟩
      · exact hnumbered p (h.answered p ⟨j, c, hc, hp⟩)
      · exact absurd hp (by simp [Client.accepted])
    · obtain ⟨j, c, hc, hp'⟩ := hp'
      rcases hnew hc with hc | ⟨-, rfl⟩
      · rcases h.kept p hp ⟨j, c, hc, hp'⟩ with hgone | ⟨c', hc', hdelete⟩
        · exact .inl (hremoved _ hgone)
        · exact .inr ⟨c', hold hc', hdelete⟩
      · exact absurd hp' (by simp [Client.accepted])
  · rw [if_neg hfree]
    exact h

theorem Accounted.event (h : s.Accounted closing) (file : Option Bytes) (i : ℕ) (e : Event) :
    (s.step file (.event i e)).Accounted closing := by
  have htable := h.table.step file (.event i e)
  have hremoved := fun j (hj : s.Removed j) ↦ hj.step file (.event i e)
  rcases step_event_cases file s i e with heq | ⟨c, hc, htodo, -, heq⟩
  · rw [heq]
    exact h
  · rw [heq] at htable hremoved ⊢
    obtain ⟨f, hf⟩ := h.clients i c hc
    have htags := hf.tags
    rw [htodo] at htags
    have hkeeps := handle_announced file c.conn e (f := { f with direct := false }) htags
    have hfits : ({ f with direct := false } : Ledger).Fits (closing ++ []) i
        { c with conn := (handle file c.conn e).conn, todo := (handle file c.conn e).acts,
                 direct := none } := by
      rw [List.append_nil]
      exact ⟨hkeeps.announced, hkeeps.tags, hf.proper, hf.asked, hf.buffered, fun _ ↦ rfl,
        fun n hn ↦ absurd hn (by simp), hf.le, hf.known⟩
    have hset := h.set hc rfl htable hremoved (fun t ht ↦ ht) hfits (fun p hp ↦ absurd hp (by simp)) rfl
      le_rfl fun hdelete ↦ absurd hdelete (by simp [htodo])
    rwa [List.append_nil] at hset

theorem asked_le_note (c : Client) (a : Act) : c.asked ≤ (c.note a).asked := by
  cases a with
  | dispatch d => exact Nat.le_succ _
  | reject status => exact Nat.le_succ _
  | _ => exact le_rfl

theorem answered_note (c : Client) (a : Act) : (c.note a).answered = c.answered := by
  cases a <;> rfl

theorem announces_eq {a : Act} {todo : List Act} (hc : s.clients[i]? = some c)
    (htodo : c.todo = a :: todo) :
    s.announces (.act i) = if a.announcesClose then [(i, c.asked + 1)] else [] := by
  simp only [announces, hc, htodo, List.head?_cons, Option.any_some]

theorem announces_eq_nil (hnone : s.nextAct i = none) : s.announces (.act i) = [] := by
  rw [announces]
  split
  · next c hc =>
    have hhead : c.todo.head? = none := by simpa [nextAct, hc] using hnone
    rw [hhead]
    rfl
  · rfl

/-- An action other than a deletion, before its effect. -/
theorem Accounted.perform (h : s.Accounted closing) {a : Act} {todo : List Act}
    (hc : s.clients[i]? = some c) (htodo : c.todo = a :: todo) (ha : a ≠ .delete)
    (hproper : s.Proper (.act i)) :
    ({ s with clients := s.clients.set i { c.note a with todo := todo } } : Sys).Accounted
      (closing ++ s.announces (.act i)) := by
  obtain ⟨f, hf⟩ := h.clients i c hc
  rw [announces_eq hc htodo]
  have hfits := hf.note htodo fun d hd hdb ↦ by
    refine hproper.2 d ?_ hdb
    rw [nextAct_eq hc htodo, hd]
    rfl
  have hset : SameFds s { s with clients := s.clients.set i { c.note a with todo := todo } } :=
    sameFds_set hc (show ({ c.note a with todo := todo } : Client).conn.fd = c.conn.fd from
      congrArg Conn.fd (note_conn c a)) rfl
  refine h.set hc rfl (h.table.frame hset rfl rfl rfl)
    (fun j hj ↦ hj.of_sameTable rfl rfl (by rw [List.length_set])) (fun t ht ↦ ht) hfits
    (fun p hp ↦ ?_) (answered_note c a) (asked_le_note c a) fun hdelete ↦ .inl ?_
  · split at hp
    · exact List.mem_singleton.mp hp
    · exact absurd hp (by simp)
  · rw [htodo] at hdelete
    exact (List.mem_cons.mp hdelete).resolve_left fun hdelete ↦ ha hdelete.symm

/-- The number of the response that is complete now is that of a request, and if that was to be
closed after, the connection is about to be deleted. -/
theorem replyNumber_fits {f : Ledger} {todo : List Act} (hf : f.Fits closing i c)
    (htodo : c.todo = .complete :: todo) :
    c.replyNumber ≤ c.asked ∧ ((i, c.replyNumber) ∈ closing → .delete ∈ todo) := by
  have hallows := hf.announced
  rw [htodo] at hallows
  rw [Client.replyNumber]
  cases hdirect : c.direct with
  | none => exact ⟨hf.le, fun hmem ↦ hallows.1 (hf.direct hdirect) (hf.buffered hmem)⟩
  | some n =>
    obtain ⟨hnot, hle⟩ := hf.json n hdirect
    exact ⟨hle, fun hmem ↦ absurd hmem hnot⟩

theorem Accounted.act (h : s.Accounted closing) (hproper : s.Proper (.act i)) :
    (s.step file (.act i)).Accounted (closing ++ s.announces (.act i)) := by
  have htable := h.table.step file (.act i)
  have hremoved := fun j (hj : s.Removed j) ↦ hj.step file (.act i)
  rcases step_act_cases file s i with ⟨hnone, e⟩ | ⟨c, a, todo, hc, htodo, e⟩
  · rw [e, announces_eq_nil hnone, List.append_nil]
    exact h
  obtain ⟨f, hf⟩ := h.clients i c hc
  have hlen := (List.getElem?_eq_some_iff.mp hc).1
  have hself : (s.clients.set i { c.note a with todo := todo })[i]? =
      some { c.note a with todo := todo } := List.getElem?_set_self hlen
  rw [e] at htable hremoved ⊢
  cases a with
  | delete =>
    rw [announces_eq hc htodo]
    rw [effect] at htable hremoved ⊢
    have hfits := hf.note htodo fun d hd ↦ absurd hd (by simp)
    have htickets : ∀ t ∈ Sys.tickets (deleteConnection
        { s with clients := s.clients.set i { c.note .delete with todo := todo } } c.conn.fd),
        t ∈ s.tickets := by
      rw [deleteConnection]
      split <;> exact fun t ht ↦ ht
    refine h.set hc (deleteConnection_clients ..) htable hremoved htickets hfits
      (fun p hp ↦ absurd hp (by simp [Act.announcesClose])) rfl le_rfl fun _ ↦ .inr ⟨?_, fun fd ↦ ?_, fun fd ↦ ?_⟩
    · rw [deleteConnection_clients, List.length_set]
      exact hlen
    · rw [deleteConnection_connections]
      by_cases hfd : fd = c.conn.fd
      · rw [hfd, Function.update_self]
        simp
      · rw [Function.update_of_ne hfd]
        exact fun hentry ↦ hfd (h.table.fd_eq hentry hc).symm
    · rw [deleteConnection_arriving]
      intro harr
      refine hproper.1 i (by rw [invokes_delete hc htodo]; exact List.mem_singleton_self i) ?_
      rw [show s.arriving = some (fd, i) from harr]
      rfl
  | complete =>
    have hperform := h.perform hc htodo (by simp) hproper
    have hempty : s.announces (.act i) = [] := announces_eq hc htodo
    rw [hempty, List.append_nil] at hperform ⊢
    obtain ⟨hle, hdelete⟩ := replyNumber_fits hf htodo
    rw [effect, logReply] at htable ⊢
    split
    · exact hperform
    · next j hj =>
      rw [hj] at htable
      refine hperform.addReply rfl htable
        (fun k hk ↦ hk.of_sameTable rfl rfl (List.length_modify ..).ge) (fun t ht ↦ ht)
        ⟨_, hself, hle⟩ fun hmem ↦ ⟨_, hself, hdelete hmem⟩
  | submit t =>
    have hperform := h.perform hc htodo (by simp) hproper
    have hempty : s.announces (.act i) = [] := announces_eq hc htodo
    rw [hempty, List.append_nil] at hperform ⊢
    -- a task is for a request that goes to the database pool, and these are keep-alive
    have hnot : (i, c.asked) ∉ closing := by
      have hallows := hf.announced
      rw [htodo] at hallows
      intro hmem
      exact absurd (hf.asked hmem) (by rw [hf.proper hallows.1]; simp)
    refine ⟨hperform.table.frame (sameFds_of_eq rfl) rfl rfl rfl, hperform.clients, hperform.announced,
      hperform.answered, fun t' ht' ↦ ?_, fun p hp hp' ↦ (hperform.kept p hp hp').imp_left fun hr ↦
        hr.of_sameTable rfl rfl le_rfl⟩
    rw [mem_tickets] at ht'
    rcases ht' with ht' | ht'
    · rcases List.mem_append.mp ht' with ht' | ht'
      · exact hperform.tickets t' (mem_tickets.mpr (.inl ht'))
      · rw [List.mem_singleton.mp ht']
        exact ⟨hnot, _, hself, le_rfl⟩
    · exact hperform.tickets t' (mem_tickets.mpr (.inr ht'))
  | _ => exact h.perform hc htodo (by simp) hproper

theorem Accounted.write (h : s.Accounted closing) (file : Option Bytes) (w : ℕ) (r : WriteResult) :
    (s.step file (.write w r)).Accounted closing := by
  have htable := h.table.step file (.write w r)
  have hremoved := fun j (hj : s.Removed j) ↦ hj.step file (.write w r)
  rcases step_write_cases file s w r with heq | ⟨k, statusCode, body, next, hw, -, hcases⟩
  · rw [heq]
    exact h
  have hk : ∃ k', some k' ∈ s.threads ∧ k'.ticket = k.ticket := ⟨k, List.mem_of_getElem? hw, rfl⟩
  have hset : ∀ {s' : Sys} {k' : Running}, s'.queue = s.queue →
      s'.threads = s.threads.set w k'.settle → k'.ticket = k.ticket → ∀ t ∈ s'.tickets, t ∈ s.tickets := by
    intro s' k' hqueue hthreads hk' t ht
    rw [mem_tickets]
    rcases mem_tickets_set hqueue hthreads ht with ht | ht | rfl
    · exact .inl ht
    · exact .inr ht
    · rw [hk']
      exact .inr hk
  rcases hcases with ⟨-, heq⟩ | ⟨j, n, data, -, -, -, ⟨-, heq⟩ | heq⟩
  · rw [heq] at htable hremoved ⊢
    exact h.frame htable rfl hremoved (hset rfl rfl rfl)
  · rw [heq] at htable hremoved ⊢
    refine h.frame htable rfl hremoved fun t ht ↦ ?_
    rw [mem_tickets] at ht ⊢
    rcases ht with ht | ⟨k', hk', rfl⟩
    · exact .inl ht
    · rcases List.mem_or_eq_of_mem_set hk' with hk' | hk'
      · exact .inr ⟨k', hk', rfl⟩
      · obtain rfl := Option.some.inj hk'
        exact .inr hk
  · -- the response of a task is not to a request that is to be closed after
    obtain ⟨hnot, hnumbered⟩ := h.tickets k.ticket (mem_tickets.mpr (.inr hk))
    rw [heq] at htable hremoved ⊢
    exact h.addReply rfl htable hremoved (hset rfl rfl rfl) hnumbered fun hmem ↦ absurd hmem hnot

theorem Accounted.step (h : s.Accounted closing) {l : Label} (hproper : s.Proper l) :
    (s.step file l).Accounted (closing ++ s.announces l) := by
  have htable := h.table.step file l
  have hremoved := fun j (hj : s.Removed j) ↦ hj.step file l
  cases l with
  | act i => exact h.act hproper
  | accept fd now =>
    rw [show s.announces (.accept fd now) = [] from rfl, List.append_nil]
    exact h.accept file fd now
  | event i e =>
    rw [show s.announces (.event i e) = [] from rfl, List.append_nil]
    exact h.event file i e
  | write w r =>
    rw [show s.announces (.write w r) = [] from rfl, List.append_nil]
    exact h.write file w r
  | insert =>
    rw [show s.announces .insert = [] from rfl, List.append_nil]
    rw [Sys.step] at htable hremoved ⊢
    cases harr : s.arriving with
    | none => exact h
    | some p =>
      rw [harr] at htable hremoved
      exact h.frame htable rfl hremoved fun t ht ↦ ht
  | take w =>
    rw [show s.announces (.take w) = [] from rfl, List.append_nil]
    rcases step_take_cases file s w with heq | ⟨t, queue, -, hqueue, heq⟩
    · rw [heq]
      exact h
    · rw [heq] at htable hremoved ⊢
      refine h.frame htable rfl hremoved fun t' ht' ↦ ?_
      rw [mem_tickets, hqueue]
      rcases mem_tickets_set rfl rfl ht' with ht' | ht' | rfl
      · exact .inl (List.mem_cons_of_mem _ ht')
      · exact .inr ht'
      · exact .inl List.mem_cons_self
  | call w out =>
    rw [show s.announces (.call w out) = [] from rfl, List.append_nil]
    rcases step_call_cases file s w out with heq | ⟨k, o, next, store, r, hw, -, -, -, heq⟩
    · rw [heq]
      exact h
    · rw [heq] at htable hremoved ⊢
      refine h.frame htable rfl hremoved fun t ht ↦ ?_
      rw [mem_tickets]
      rcases mem_tickets_set rfl rfl ht with ht | ht | rfl
      · exact .inl ht
      · exact .inr ht
      · exact .inr ⟨k, List.mem_of_getElem? hw, rfl⟩
  | expire key =>
    rw [show s.announces (.expire key) = [] from rfl, List.append_nil]
    exact h.frame htable rfl hremoved fun t ht ↦ ht

/-- A complete response to the request has been written, nothing is going on any more, no handler and
no task, and the connection is in the table with its socket open. -/
def LeftOpen (s : Sys) (p : ℕ × ℕ) : Prop :=
  s.Answered p ∧ (∃ c, s.clients[p.1]? = some c ∧ c.todo = []) ∧
    (∀ t ∈ s.unanswered, t.origin ≠ p.1) ∧
    ∃ fd, s.connections fd = some p.1 ∧ s.sockets fd = some p.1

end Sys

/-- **A response that announces the close is followed by it.**  Take a run in which nobody calls
`deleteConnection` before it is in the table, and no request that is to be closed after goes to a
route of the database pool.  There is no state in which such a request has been answered
completely, with nothing left to do, and its connection is still in the table with its socket
open. -/
theorem close_follows (file : Option Bytes) (ls : List Label)
    (h : Meets (Sys.step file) Sys.Proper Sys.start ls) :
    ∀ p ∈ trace (Sys.step file) Sys.announces Sys.start ls, ¬(Sys.start.run file ls).LeftOpen p := by
  have hacc : (Sys.start.run file ls).Accounted (trace (Sys.step file) Sys.announces Sys.start ls) :=
    h.trace_invariant (fun _ _ _ h hl ↦ h.step hl) Sys.accounted_start
  rintro p hp ⟨hanswered, ⟨c, hc, htodo⟩, -, fd, hentry, -⟩
  rcases hacc.kept p hp hanswered with hgone | ⟨c', hc', hdelete⟩
  · exact hgone.absent fd hentry
  · obtain rfl := Option.some.inj (hc.symm.trans hc')
    exact absurd hdelete (by simp [htodo])

/-- A client that sends a text on the first connection, and all that comes of it. -/
def Label.visit (text : Bytes) : List Label :=
  [.accept 5 0, .insert, .event 0 (.readable 0 [.got text] ⟨[], []⟩)] ++ List.replicate 15 (.act 0)

/-- A page that is asked for with HTTP/1.0. -/
theorem close_follows_hello :
    trace (Sys.step none) Sys.announces Sys.start (Label.visit (lit "GET /hello HTTP/1.0\r\n\r\n")) =
        [(0, 1)] ∧
      ¬(Sys.start.run none (Label.visit (lit "GET /hello HTTP/1.0\r\n\r\n"))).LeftOpen (0, 1) :=
  ⟨by decide +kernel, close_follows none _ (by decide +kernel) (0, 1) (by decide +kernel)⟩

/-- **A connection that is left open.**  A profile that is asked for with HTTP/1.0 and without a token
is answered by `sendJson`, with `Connection: close`, and that is all. -/
theorem left_open :
    trace (Sys.step none) Sys.announces Sys.start (Label.visit (lit "GET /profile HTTP/1.0\r\n\r\n")) =
        [(0, 1)] ∧
      (Sys.start.run none (Label.visit (lit "GET /profile HTTP/1.0\r\n\r\n"))).LeftOpen (0, 1) := by
  refine ⟨by decide +kernel, ?_⟩
  have hclient : (Sys.start.run none
      (Label.visit (lit "GET /profile HTTP/1.0\r\n\r\n"))).clients[0]?.map
        (fun c ↦ (c.answered, c.todo)) = some ([(0, 1)], []) := by decide +kernel
  obtain ⟨c, hc, he⟩ := Option.map_eq_some_iff.mp hclient
  obtain ⟨hanswered, htodo⟩ := Prod.ext_iff.mp he
  refine ⟨⟨0, c, hc, ?_⟩, ⟨c, hc, htodo⟩, by decide +kernel, 5, by decide +kernel, by decide +kernel⟩
  rw [show c.answered = [(0, 1)] from hanswered]
  exact List.mem_singleton_self _

end ReactorServer
