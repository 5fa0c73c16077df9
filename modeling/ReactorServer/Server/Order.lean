import ReactorServer.Server.Delivery
import ReactorServer.Server.Table
import ReactorServer.Server.Turns

/-!
# Responses in the order of the requests

The request loop goes on to the next request as soon as it has submitted a task for one, and nothing
puts the responses back in order: a page that is sent from the reactor overtakes the response of a
task, and tasks overtake each other (`responses_out_of_order`).  All this happens with every `write`
taken whole.

`responses_in_order` says what it takes for the responses of a connection to come in the order of
its requests (`Sys.InOrder`): a request is dispatched or rejected only when no task of the connection
is unanswered (`Sys.InTurn`), and the responses of tasks go to the right connection, for which see
`Server/Delivery`.

The proof counts.  While a connection is open, the requests it has dispatched are those that have
been answered, and at most one more.  That one is with the handler or with a task, and `Sys.Tidy` says
which.
-/

set_option autoImplicit false

namespace ReactorServer

open Machine Program

/-! ## The property and its condition -/

/-- A request is dispatched or rejected. -/
def Act.asks : Act → Bool
  | .dispatch _ => true
  | .reject _ => true
  | _ => false

/-- The call takes this many bytes. -/
def WriteResult.takes : WriteResult → ℕ → Bool
  | .took n, len => decide (len ≤ n)
  | .fail _, _ => false

theorem WriteResult.took_of_takes {r : WriteResult} {len : ℕ} (h : r.takes len = true)
    (hlen : 0 < len) : ∃ n, r = .took (n + 1) ∧ len ≤ n + 1 := by
  match r with
  | .took 0 =>
    simp only [WriteResult.takes, decide_eq_true_eq] at h
    omega
  | .took (n + 1) => exact ⟨n, rfl, by simpa [WriteResult.takes] using h⟩
  | .fail _ => exact absurd h (by simp [WriteResult.takes])

/-- The response that a thread is sending. -/
def Running.reply (k : Running) : Option Bytes :=
  match k.rest with
  | .call (.send statusCode body) _ => some (jsonResponse statusCode body k.ticket.task.keepAlive)
  | _ => none

namespace Sys

/-- **On every connection, the `k`-th complete response answers the `k`-th request.** -/
def InOrder (s : Sys) : Prop :=
  ∀ (i : ℕ) (c : Client), s.clients[i]? = some c →
    ∀ (k : ℕ) (a : ℕ × ℕ), c.answered[k]? = some a → a = (i, k + 1)

/-- Every `write` and `sendfile` takes all it is given. -/
def WholeWrites (s : Sys) : Label → Prop
  | .event _ e => e.kernel.io = []
  | .write w r => ∀ reply ∈ (s.threads[w]?.join).bind Running.reply, r.takes reply.length = true
  | _ => True

/-- The condition on a move: with a task unanswered, a connection starts on no other request. -/
def InTurn (s : Sys) : Label → Prop
  | .act i =>
    (s.clients[i]?.bind (·.todo.head?)).any Act.asks = true → ∀ t ∈ s.unanswered, t.origin ≠ i
  | _ => True

instance (s : Sys) : ∀ l : Label, Decidable (s.WholeWrites l)
  | .event _ e => inferInstanceAs (Decidable (e.kernel.io = []))
  | .write w r => inferInstanceAs (Decidable
      (∀ reply ∈ (s.threads[w]?.join).bind Running.reply, r.takes reply.length = true))
  | .accept .. => inferInstanceAs (Decidable True)
  | .insert => inferInstanceAs (Decidable True)
  | .act _ => inferInstanceAs (Decidable True)
  | .take _ => inferInstanceAs (Decidable True)
  | .call .. => inferInstanceAs (Decidable True)
  | .expire _ => inferInstanceAs (Decidable True)

instance (s : Sys) : ∀ l : Label, Decidable (s.InTurn l)
  | .act i => inferInstanceAs (Decidable
      ((s.clients[i]?.bind (·.todo.head?)).any Act.asks = true → ∀ t ∈ s.unanswered, t.origin ≠ i))
  | .accept .. => inferInstanceAs (Decidable True)
  | .insert => inferInstanceAs (Decidable True)
  | .event .. => inferInstanceAs (Decidable True)
  | .take _ => inferInstanceAs (Decidable True)
  | .call .. => inferInstanceAs (Decidable True)
  | .write .. => inferInstanceAs (Decidable True)
  | .expire _ => inferInstanceAs (Decidable True)

/-! ## Counting the unanswered tasks -/

/-- The number of unanswered tasks of a connection. -/
def owed (s : Sys) (i : ℕ) : ℕ := s.unanswered.countP (·.origin = i)

/-- A thread has an unanswered task of a connection. -/
def owes (i : ℕ) (k? : Option Running) : Bool :=
  ((k?.bind Running.owed).map fun t ↦ decide (t.origin = i)).getD false

variable {file : Option Bytes} {s s' : Sys}

theorem owed_eq (s : Sys) (i : ℕ) :
    s.owed i = s.queue.countP (·.origin = i) + s.threads.countP (owes i) := by
  rw [owed, unanswered, List.countP_append, List.countP_filterMap]
  rfl

theorem owed_eq_zero_iff {i : ℕ} : s.owed i = 0 ↔ ∀ t ∈ s.unanswered, t.origin ≠ i := by
  rw [owed, List.countP_eq_zero]
  simp

theorem countP_threads_set {threads : List (Option Running)} {w : ℕ} {x y : Option Running}
    (h : threads[w]? = some y) (i : ℕ) :
    (threads.set w x).countP (owes i) + (if owes i y then 1 else 0) =
      threads.countP (owes i) + if owes i x then 1 else 0 := by
  obtain ⟨hw, rfl⟩ := List.getElem?_eq_some_iff.mp h
  have hle := List.boole_getElem_le_countP (p := owes i) hw
  rw [List.countP_set hw]
  omega

/-- A task that is not over and has not been answered stays on its thread. -/
theorem owes_settle {k : Running} (h : wp onceSpec k.rest (fun sent _ ↦ sent = true) k.sent)
    (i : ℕ) : owes i k.settle = owes i (some k) := by
  unfold Running.settle
  split
  · rfl
  · rename_i hrest
    have hsent : k.sent = true := by
      cases hk : k.rest with
      | ret a =>
        rw [hk] at h
        exact h
      | throw =>
        rw [hk] at h
        exact h
      | call o next => exact absurd hk (hrest o next)
    simp [owes, Running.owed, hsent]

/-! ## The invariant -/

/-- An open connection, whose handler is in this phase: all its requests have been answered, or all
but the last, and that one is with the handler or with a task. -/
structure Tidy (s : Sys) (i : ℕ) (c : Client) (p : Phase) : Prop where
  scan : p.scan c.todo = some .idle ∨ p.scan c.todo = some .closed
  running : p ≠ .closed
  count : c.answered.length + s.owed i + (if p = .idle then 0 else 1) = c.asked
  one : s.owed i ≤ 1
  busy : p ≠ .idle → s.owed i = 0
  number : p = .replying → c.replyNumber = c.asked
  tickets : ∀ t ∈ s.unanswered, t.origin = i → t.number = c.asked

/-- What is known of a connection. -/
structure Turn (s : Sys) (i : ℕ) (c : Client) : Prop where
  answered : ∀ (k : ℕ) (a : ℕ × ℕ), c.answered[k]? = some a → a = (i, k + 1)
  pending : c.conn.pendingBytes = []
  /-- A handler whose connection has been deleted has nothing left to do. -/
  gone : s.sockets c.conn.fd ≠ some i → c.todo = []
  tidy : s.sockets c.conn.fd = some i → ∃ p, s.Tidy i c p

/-- What holds in every state of a run in which requests are dispatched in turn. -/
structure Ordered (s : Sys) : Prop where
  inv : s.Inv
  table : s.Table
  tickets : ∀ t ∈ s.unanswered, ∃ c, s.clients[t.origin]? = some c ∧ c.conn.fd = t.task.fd
  todo : ∀ (i : ℕ) (c : Client), s.clients[i]? = some c →
    ∀ t : Task, .submit t ∈ c.todo → t.fd = c.conn.fd
  clients : ∀ (i : ℕ) (c : Client), s.clients[i]? = some c → s.Turn i c

theorem ordered_start : start.Ordered where
  inv := inv_start
  table := table_start
  tickets t ht := by
    rcases mem_unanswered.mp ht with h | ⟨k, hk, -⟩
    · exact absurd h (by simp [start])
    · exact absurd (List.eq_of_mem_replicate hk) (by simp)
  todo i c hc := absurd hc (by simp [start])
  clients i c hc := absurd hc (by simp [start])

theorem owed_congr (h : s'.unanswered = s.unanswered) (i : ℕ) : s'.owed i = s.owed i := by
  rw [owed, owed, h]

theorem Tidy.congr {i : ℕ} {c : Client} {p : Phase} (h : s.Tidy i c p)
    (hun : s'.unanswered = s.unanswered) : s'.Tidy i c p where
  scan := h.scan
  running := h.running
  count := by
    rw [owed_congr hun]
    exact h.count
  one := by
    rw [owed_congr hun]
    exact h.one
  busy := by
    rw [owed_congr hun]
    exact h.busy
  number := h.number
  tickets := by
    rw [hun]
    exact h.tickets

/-- A connection that a move does not concern. -/
theorem Turn.frame {i : ℕ} {c : Client} (h : s.Turn i c)
    (hsockets : s'.sockets c.conn.fd = some i ↔ s.sockets c.conn.fd = some i)
    (howed : s'.owed i = s.owed i)
    (htickets : ∀ t ∈ s'.unanswered, t.origin = i → t ∈ s.unanswered) : s'.Turn i c where
  answered := h.answered
  pending := h.pending
  gone hgone := h.gone fun hopen ↦ hgone (hsockets.mpr hopen)
  tidy hopen := by
    obtain ⟨p, hp⟩ := h.tidy (hsockets.mp hopen)
    refine ⟨p, hp.scan, hp.running, ?_, ?_, ?_, hp.number, fun t ht hi ↦ ?_⟩
    · rw [howed]
      exact hp.count
    · rw [howed]
      exact hp.one
    · rw [howed]
      exact hp.busy
    · exact hp.tickets t (htickets t ht hi) hi

/-- A move of a thread that answers nothing. -/
theorem Ordered.frame (h : s.Ordered) (hinv : s'.Inv) (htable : s'.Table)
    (hclients : s'.clients = s.clients) (hsockets : s'.sockets = s.sockets)
    (howed : ∀ i, s'.owed i = s.owed i) (htickets : ∀ t ∈ s'.unanswered, t ∈ s.unanswered) :
    s'.Ordered where
  inv := hinv
  table := htable
  tickets t ht := by
    rw [hclients]
    exact h.tickets t (htickets t ht)
  todo := by
    rw [hclients]
    exact h.todo
  clients i c hc := by
    rw [hclients] at hc
    exact (h.clients i c hc).frame (by rw [hsockets]) (howed i) fun t ht _ ↦ htickets t ht

/-! ## Connections come and go -/

theorem Ordered.accept (h : s.Ordered) {fd now : ℕ} (hok : s.NoReuse (.accept fd now)) :
    (s.step file (.accept fd now)).Ordered := by
  have hinv : (s.step file (.accept fd now)).Inv := h.inv.accept hok
  have htable := h.table.accept file fd now
  rw [step] at hinv htable ⊢
  by_cases hfree : s.sockets fd = none ∧ s.arriving = none
  swap
  · rw [if_neg hfree]
    exact h
  rw [if_pos hfree] at hinv htable ⊢
  refine ⟨hinv, htable, fun t ht ↦ ?_, fun i c hc ↦ ?_, fun i c hc ↦ ?_⟩
  · obtain ⟨c, hc, hfd⟩ := h.tickets t ht
    exact ⟨c, by rw [List.getElem?_append_left (List.getElem?_eq_some_iff.mp hc).1, hc], hfd⟩
  all_goals
    rw [List.getElem?_append] at hc
    split at hc
  · exact h.todo i c hc
  · rw [List.mem_singleton.mp (List.mem_of_getElem? hc)]
    intro t ht
    exact absurd ht (by simp [Client.accepted])
  · -- a number that was free is not that of an open connection
    rename_i hi
    refine (h.clients i c hc).frame ?_ rfl fun t ht _ ↦ ht
    by_cases hfd : c.conn.fd = fd
    · subst hfd
      refine iff_of_false ?_ (by simp [hfree.1])
      simp only [Function.update_self, Option.some.injEq]
      omega
    · simp only [Function.update_of_ne hfd]
  · -- the new one has been asked nothing
    rename_i hi
    obtain rfl : i = s.clients.length := by
      have := (List.getElem?_eq_some_iff.mp hc).1
      simp only [List.length_cons, List.length_nil] at this
      omega
    have hnone : s.owed s.clients.length = 0 := by
      refine owed_eq_zero_iff.mpr fun t ht e ↦ ?_
      obtain ⟨c, hc, -⟩ := h.tickets t ht
      rw [e] at hc
      exact absurd (List.getElem?_eq_some_iff.mp hc).1 (by omega)
    rw [List.mem_singleton.mp (List.mem_of_getElem? hc)]
    refine ⟨by simp [Client.accepted], rfl, fun _ ↦ rfl, fun _ ↦ ⟨.idle, ?_⟩⟩
    refine ⟨.inl rfl, by simp, ?_, ?_, fun h ↦ absurd rfl h, by simp, fun t ht hi ↦ ?_⟩
    · change 0 + s.owed s.clients.length + 0 = 0
      rw [hnone]
    · change s.owed s.clients.length ≤ 1
      rw [hnone]
      omega
    · exact absurd hi (owed_eq_zero_iff.mp hnone t ht)

theorem Ordered.insert (h : s.Ordered) : (s.step file .insert).Ordered := by
  have hinv : (s.step file .insert).Inv := h.inv.step trivial
  have htable := h.table.insert file
  rw [step] at hinv htable ⊢
  cases harr : s.arriving with
  | none => exact h
  | some p =>
    rw [harr] at hinv htable
    obtain ⟨hnone, -⟩ := h.table.arriving p.1 p.2 harr
    exact h.frame hinv htable rfl (if_neg (by simp [hnone])) (fun _ ↦ rfl) fun t ht ↦ ht

/-- A connection that is set to something else, with the rest of the server as it was. -/
theorem Ordered.set (h : s.Ordered) {i : ℕ} {c c' : Client} (hc : s.clients[i]? = some c)
    (hinv : s'.Inv) (htable : s'.Table) (hclients : s'.clients = s.clients.set i c')
    (hfd : c'.conn.fd = c.conn.fd) (htodo : ∀ t : Task, .submit t ∈ c'.todo → t.fd = c'.conn.fd)
    (htickets : ∀ t ∈ s'.unanswered, t ∈ s.unanswered ∨ t.origin = i ∧ t.task.fd = c.conn.fd)
    (hturn : s'.Turn i c')
    (hothers : ∀ (i' : ℕ) (c₀ : Client), i' ≠ i → s.clients[i']? = some c₀ →
      (s'.sockets c₀.conn.fd = some i' ↔ s.sockets c₀.conn.fd = some i') ∧
        s'.owed i' = s.owed i' ) : s'.Ordered := by
  have hlt := (List.getElem?_eq_some_iff.mp hc).1
  have hget : ∀ (i' : ℕ) (c₀ : Client), s'.clients[i']? = some c₀ →
      i' = i ∧ c₀ = c' ∨ i' ≠ i ∧ s.clients[i']? = some c₀ := by
    intro i' c₀ hc₀
    rw [hclients, List.getElem?_set] at hc₀
    by_cases hi : i = i'
    · rw [if_pos hi, if_pos hlt] at hc₀
      exact .inl ⟨hi.symm, (Option.some.inj hc₀).symm⟩
    · rw [if_neg hi] at hc₀
      exact .inr ⟨fun e ↦ hi e.symm, hc₀⟩
  refine ⟨hinv, htable, fun t ht ↦ ?_, fun i' c₀ hc₀ ↦ ?_, fun i' c₀ hc₀ ↦ ?_⟩
  · have hsame : SameFds s s' := sameFds_set hc hfd hclients
    rcases htickets t ht with ht | ⟨rfl, e⟩
    · obtain ⟨c₀, hc₀, e⟩ := h.tickets t ht
      obtain ⟨c₁, hc₁, e'⟩ := hsame _ _ hc₀
      exact ⟨c₁, hc₁, e'.trans e⟩
    · obtain ⟨c₁, hc₁, e'⟩ := hsame _ _ hc
      exact ⟨c₁, hc₁, e'.trans e.symm⟩
  · rcases hget i' c₀ hc₀ with ⟨-, rfl⟩ | ⟨-, hc₀⟩
    · exact htodo
    · exact h.todo i' c₀ hc₀
  · rcases hget i' c₀ hc₀ with ⟨rfl, rfl⟩ | ⟨hi, hc₀⟩
    · exact hturn
    · obtain ⟨hsock, howed⟩ := hothers i' c₀ hi hc₀
      refine (h.clients i' c₀ hc₀).frame hsock howed fun t ht e ↦ ?_
      exact (htickets t ht).resolve_right fun e' ↦ hi (e.symm.trans e'.1)

/-- A handler that is called finds its requests dealt with, but perhaps for a task. -/
theorem Turn.idle {i : ℕ} {c : Client} (h : s.Turn i c) (hopen : s.sockets c.conn.fd = some i)
    (htodo : c.todo = []) : s.Tidy i c .idle := by
  obtain ⟨p, hp⟩ := h.tidy hopen
  have hscan := hp.scan
  rw [htodo] at hscan
  cases p with
  | idle => exact hp
  | closed => exact absurd rfl hp.running
  | asked => exact absurd hscan (by decide)
  | replying => exact absurd hscan (by decide)

theorem Ordered.event (h : s.Ordered) {i : ℕ} {e : Event} (hok : s.WholeWrites (.event i e)) :
    (s.step file (.event i e)).Ordered := by
  have hinv : (s.step file (.event i e)).Inv := h.inv.event i e
  have htable := h.table.step file (.event i e)
  rcases step_event_cases file s i e with heq | ⟨c, hc, htodo, hopen, heq⟩
  · rwa [heq]
  rw [heq] at hinv htable ⊢
  have hturn := h.clients i c hc
  have hidle := hturn.idle hopen htodo
  obtain ⟨q, hq, hcases⟩ := handle_whole file hturn.pending hok
  have hfd := handle_fd file c.conn e
  refine h.set hc hinv htable rfl hfd (fun t ht ↦ ?_) (fun t ht ↦ .inl ht) ?_
    fun i' c₀ _ _ ↦ ⟨Iff.rfl, rfl⟩
  · exact (handle_submit ht).trans hfd.symm
  refine ⟨hturn.answered, hq.pending, fun hgone ↦ ?_, fun _ ↦ ⟨.idle, ?_⟩⟩
  · exact absurd (hfd ▸ hopen) hgone
  · refine ⟨?_, by simp, hidle.count, hidle.one, hidle.busy, by simp, hidle.tickets⟩
    rcases hcases with rfl | rfl
    · exact .inl hq.scan
    · exact .inr hq.scan

/-! ## A handler goes on -/

/-- An action that concerns nobody else. -/
theorem Tidy.note {i : ℕ} {c : Client} {p p' : Phase} {a : Act} {todo : List Act}
    (h : s.Tidy i c p) (hnext : p.next a = some p')
    (hscan : p'.scan todo = some .idle ∨ p'.scan todo = some .closed)
    (hasks : a.asks = true → s.owed i = 0) (hsubmit : ∀ t, a ≠ .submit t) (hcomplete : a ≠ .complete)
    (hdelete : a ≠ .delete) : s.Tidy i { c.note a with todo := todo } p' := by
  have hcount := h.count
  have hnumber := h.number
  cases a with
  | submit t => exact absurd rfl (hsubmit t)
  | complete => exact absurd rfl hcomplete
  | delete => exact absurd rfl hdelete
  | dispatch _ | reject _ =>
    have hzero := hasks rfl
    cases p <;> cases hnext
    refine ⟨hscan, by simp, ?_, h.one, fun _ ↦ hzero, by simp, fun t ht hi ↦ ?_⟩
    · simp only [if_true, Client.note, reduceCtorEq, if_false] at hcount ⊢
      omega
    · exact absurd hi (owed_eq_zero_iff.mp hzero t ht)
  | issue ka reply =>
    cases p <;> cases hnext
    exact ⟨hscan, by simp, hcount, h.one, fun _ ↦ h.busy (by simp), fun _ ↦ rfl, h.tickets⟩
  | json reply =>
    cases p <;> cases hnext
    exact ⟨hscan, by simp, hcount, h.one, fun _ ↦ h.busy (by simp), fun _ ↦ rfl, h.tickets⟩
  | frame =>
    cases p <;> cases hnext
    exact ⟨hscan, by simp, hcount, h.one, fun e ↦ absurd rfl e, by simp, h.tickets⟩
  | _ =>
    cases p <;> cases hnext <;>
      exact ⟨hscan, by simp, hcount, h.one, h.busy, hnumber, h.tickets⟩

/-- The handler of an open connection, at its next action. -/
theorem Turn.next {i : ℕ} {c : Client} (h : s.Turn i c) {a : Act} {todo : List Act}
    (htodo : c.todo = a :: todo) : s.sockets c.conn.fd = some i ∧
      ∃ p p', s.Tidy i c p ∧ p.next a = some p' ∧
        (p'.scan todo = some .idle ∨ p'.scan todo = some .closed) := by
  have hopen : s.sockets c.conn.fd = some i := by
    by_contra hgone
    exact absurd (h.gone hgone) (by simp [htodo])
  obtain ⟨p, hp⟩ := h.tidy hopen
  have hscan := hp.scan
  rw [htodo] at hscan
  rcases hscan with hscan | hscan
  · obtain ⟨p', hnext, hscan⟩ := Phase.scan_cons hscan
    exact ⟨hopen, p, p', hp, hnext, .inl hscan⟩
  · obtain ⟨p', hnext, hscan⟩ := Phase.scan_cons hscan
    exact ⟨hopen, p, p', hp, hnext, .inr hscan⟩

theorem owed_submit (t : Ticket) (i : ℕ) :
    owed { s with queue := s.queue ++ [t] } i = s.owed i + if t.origin = i then 1 else 0 := by
  rw [owed_eq, owed_eq]
  dsimp only
  rw [List.countP_append, List.countP_singleton]
  simp only [decide_eq_true_eq]
  omega

/-- A task is submitted: the request is with the task now. -/
theorem Ordered.submit (h : s.Ordered) {i : ℕ} {c : Client} (hc : s.clients[i]? = some c)
    {t : Task} {todo : List Act} (htodo : c.todo = .submit t :: todo)
    (hclients : s'.clients = s.clients.set i { c with todo := todo })
    (hqueue : s'.queue = s.queue ++ [⟨i, c.asked, t⟩]) (hthreads : s'.threads = s.threads)
    (hsockets : s'.sockets = s.sockets) (hinv : s'.Inv) (htable : s'.Table) : s'.Ordered := by
  have hturn := h.clients i c hc
  obtain ⟨hopen, p, p', hp, hnext, hscan⟩ := hturn.next htodo
  cases p <;> cases hnext
  have hun : s'.unanswered = unanswered { s with queue := s.queue ++ [⟨i, c.asked, t⟩] } := by
    rw [unanswered, unanswered, hqueue, hthreads]
  have howed : ∀ i', s'.owed i' = s.owed i' + if i = i' then 1 else 0 := by
    intro i'
    rw [owed, hun]
    exact owed_submit _ i'
  have hmem : ∀ t' ∈ s'.unanswered, t' ∈ s.unanswered ∨ t' = ⟨i, c.asked, t⟩ := by
    intro t' ht'
    rw [mem_unanswered, hqueue, hthreads] at ht'
    rcases ht' with ht' | ht'
    · rcases List.mem_append.mp ht' with ht' | ht'
      · exact .inl (mem_unanswered.mpr (.inl ht'))
      · exact .inr (List.mem_singleton.mp ht')
    · exact .inl (mem_unanswered.mpr (.inr ht'))
  have hzero := hp.busy (by simp)
  have hcount := hp.count
  refine h.set hc hinv htable hclients rfl (fun t' ht' ↦ ?_) (fun t' ht' ↦ ?_) ?_ fun i' c₀ hi _ ↦ ?_
  · exact h.todo i c hc t' (by rw [htodo]; exact List.mem_cons_of_mem _ ht')
  · refine (hmem t' ht').imp_right ?_
    rintro rfl
    exact ⟨rfl, h.todo i c hc t (by rw [htodo]; exact List.mem_cons_self)⟩
  · refine ⟨hturn.answered, hturn.pending, fun hgone ↦ ?_, fun _ ↦ ⟨.idle, ?_⟩⟩
    · rw [hsockets] at hgone
      exact absurd hopen hgone
    · refine ⟨hscan, by simp, ?_, ?_, fun e ↦ absurd rfl e, by simp, fun t' ht' hi ↦ ?_⟩
      · rw [howed, if_pos rfl, if_pos rfl]
        simpa [hzero] using hcount
      · rw [howed, if_pos rfl, hzero]
      · rcases hmem t' ht' with ht' | rfl
        · exact hp.tickets t' ht' hi
        · rfl
  · rw [hsockets, howed, if_neg fun e ↦ hi e.symm]
    exact ⟨Iff.rfl, rfl⟩

/-- One more response, and it is the one that was due. -/
theorem answered_append {i : ℕ} {answered : List (ℕ × ℕ)} {n : ℕ}
    (h : ∀ (k : ℕ) (a : ℕ × ℕ), answered[k]? = some a → a = (i, k + 1))
    (hn : answered.length + 1 = n) :
    ∀ (k : ℕ) (a : ℕ × ℕ), (answered ++ [(i, n)])[k]? = some a → a = (i, k + 1) := by
  intro k a ha
  rw [List.getElem?_append] at ha
  split at ha
  · exact h k a ha
  · have hk : k - answered.length < 1 := (List.getElem?_eq_some_iff.mp ha).1
    rw [List.mem_singleton.mp (List.mem_of_getElem? ha)]
    exact Prod.ext rfl (by omega)

/-- The reactor has sent a response. -/
theorem Ordered.complete (h : s.Ordered) {i : ℕ} {c : Client} (hc : s.clients[i]? = some c)
    {todo : List Act} (htodo : c.todo = .complete :: todo)
    (hclients : s'.clients = s.clients.set i
      (Client.addReply { c.note .complete with todo := todo } (i, c.replyNumber)))
    (hun : s'.unanswered = s.unanswered) (hsockets : s'.sockets = s.sockets) (hinv : s'.Inv)
    (htable : s'.Table) : s'.Ordered := by
  have hturn := h.clients i c hc
  obtain ⟨hopen, p, p', hp, hnext, hscan⟩ := hturn.next htodo
  cases p <;> cases hnext
  have hzero := hp.busy (by simp)
  have hcount : c.answered.length + 1 = c.asked := by simpa [hzero] using hp.count
  refine h.set hc hinv htable hclients rfl (fun t ht ↦ ?_) (fun t ht ↦ .inl (hun ▸ ht)) ?_
    fun i' c₀ _ _ ↦ ⟨by rw [hsockets], owed_congr hun i'⟩
  · exact h.todo i c hc t (by rw [htodo]; exact List.mem_cons_of_mem _ ht)
  refine ⟨?_, hturn.pending, fun hgone ↦ ?_, fun _ ↦ ⟨.idle, Tidy.congr (s := s) ?_ hun⟩⟩
  · refine answered_append hturn.answered ?_
    rw [hp.number rfl]
    exact hcount
  · rw [hsockets] at hgone
    exact absurd hopen hgone
  · refine ⟨hscan, by simp, ?_, hp.one, fun e ↦ absurd rfl e, by simp, hp.tickets⟩
    show (c.answered ++ [(i, c.replyNumber)]).length + s.owed i + 0 = c.asked
    rw [hzero, List.length_append]
    exact hcount

/-- The connection is deleted, or would be if it stood in the table: either way its handler is
through. -/
theorem Ordered.delete (h : s.Ordered) {i : ℕ} {c : Client} (hc : s.clients[i]? = some c)
    {todo : List Act} (htodo : c.todo = .delete :: todo)
    (hclients : s'.clients = s.clients.set i { c with todo := todo })
    (hun : s'.unanswered = s.unanswered)
    (hsockets : s'.sockets = s.sockets ∨
      s'.sockets = Function.update s.sockets c.conn.fd none) (hinv : s'.Inv)
    (htable : s'.Table) : s'.Ordered := by
  have hturn := h.clients i c hc
  obtain ⟨hopen, p, p', hp, hnext, hscan⟩ := hturn.next htodo
  cases p <;> cases hnext
  obtain rfl : todo = [] := hscan.elim Phase.nil_of_scan_closed Phase.nil_of_scan_closed
  refine h.set hc hinv htable hclients rfl (fun t ht ↦ absurd ht (by simp))
    (fun t ht ↦ .inl (hun ▸ ht)) ⟨hturn.answered, hturn.pending, fun _ ↦ rfl, fun _ ↦ ⟨.idle, ?_⟩⟩
    fun i' c₀ hi _ ↦ ⟨?_, owed_congr hun i'⟩
  · exact Tidy.congr (s := s) ⟨.inl rfl, by simp, hp.count, hp.one, hp.busy, by simp, hp.tickets⟩ hun
  · rcases hsockets with e | e
    · rw [e]
    · rw [e]
      by_cases hfd : c₀.conn.fd = c.conn.fd
      · -- the number was that of the connection that is deleted
        rw [hfd, Function.update_self, hopen, Option.some.injEq]
        exact iff_of_false (by simp) fun e ↦ hi e.symm
      · rw [Function.update_of_ne hfd]

/-- The handler does something that concerns nobody else. -/
theorem Ordered.note (h : s.Ordered) {i : ℕ} {c : Client} (hc : s.clients[i]? = some c)
    {a : Act} {todo : List Act} (htodo : c.todo = a :: todo) (hok : s.InTurn (.act i))
    (hsubmit : ∀ t, a ≠ .submit t) (hcomplete : a ≠ .complete) (hdelete : a ≠ .delete)
    (hclients : s'.clients = s.clients.set i { c.note a with todo := todo })
    (hun : s'.unanswered = s.unanswered) (hsockets : s'.sockets = s.sockets) (hinv : s'.Inv)
    (htable : s'.Table) : s'.Ordered := by
  have hturn := h.clients i c hc
  obtain ⟨hopen, p, p', hp, hnext, hscan⟩ := hturn.next htodo
  have hasks : a.asks = true → s.owed i = 0 := by
    intro hasks
    refine owed_eq_zero_iff.mpr (hok ?_)
    rw [hc, Option.bind_some, htodo]
    exact hasks
  have htidy := hp.note hnext hscan hasks hsubmit hcomplete hdelete
  have hconn := note_conn c a
  have hanswered : (c.note a).answered = c.answered := by cases a <;> rfl
  refine h.set hc hinv htable hclients (congrArg Conn.fd hconn) (fun t ht ↦ ?_)
    (fun t ht ↦ .inl (hun ▸ ht)) ⟨?_, ?_, fun hgone ↦ ?_, fun _ ↦ ⟨p', htidy.congr hun⟩⟩
    fun i' c₀ _ _ ↦ ⟨by rw [hsockets], owed_congr hun i'⟩
  · show t.fd = (c.note a).conn.fd
    rw [hconn]
    exact h.todo i c hc t (by rw [htodo]; exact List.mem_cons_of_mem _ ht)
  · show ∀ (k : ℕ) (b : ℕ × ℕ), (c.note a).answered[k]? = some b → b = (i, k + 1)
    rw [hanswered]
    exact hturn.answered
  · show (c.note a).conn.pendingBytes = []
    rw [hconn]
    exact hturn.pending
  · change s'.sockets (c.note a).conn.fd ≠ some i at hgone
    rw [hconn, hsockets] at hgone
    exact absurd hopen hgone

theorem modify_addReply {clients : List Client} {i : ℕ} {c : Client} (hc : clients[i]? = some c)
    (a : ℕ × ℕ) : clients.modify i (·.addReply a) = clients.set i (c.addReply a) := by
  have hlt := (List.getElem?_eq_some_iff.mp hc).1
  refine List.ext_getElem? fun n ↦ ?_
  rw [List.getElem?_modify, List.getElem?_set]
  by_cases hn : i = n
  · subst hn
    rw [hc, if_pos rfl, if_pos hlt]
    exact congrArg some (if_pos rfl)
  · simp [hn]

theorem Ordered.act (h : s.Ordered) {i : ℕ} (hok : s.InTurn (.act i)) :
    (s.step file (.act i)).Ordered := by
  have hinv : (s.step file (.act i)).Inv := h.inv.act i
  have htable := h.table.step file (.act i)
  rcases step_act_cases file s i with ⟨-, heq⟩ | ⟨c, a, todo, hc, htodo, heq⟩
  · rwa [heq]
  rw [heq] at hinv htable ⊢
  cases a with
  | submit t => exact h.submit hc htodo rfl rfl rfl rfl hinv htable
  | delete =>
    refine h.delete hc htodo ?_ ?_ ?_ hinv htable
    · rw [effect, deleteConnection_clients]
      rfl
    · rw [effect, deleteConnection_unanswered]
      rfl
    · rw [effect, deleteConnection]
      split
      · exact .inr rfl
      · exact .inl rfl
  | complete =>
    have hopen := ((h.clients i c hc).next htodo).1
    have hlt := (List.getElem?_eq_some_iff.mp hc).1
    have he : effect { s with clients := s.clients.set i { c.note .complete with todo := todo } } i c
        .complete =
          { s with
            clients := s.clients.set i
              (Client.addReply { c.note .complete with todo := todo } (i, c.replyNumber)) } := by
      rw [effect, logReply, hopen]
      dsimp only
      rw [modify_addReply (List.getElem?_set_self hlt), List.set_set]
    rw [he] at hinv htable ⊢
    exact h.complete hc htodo rfl rfl rfl hinv htable
  | _ =>
    exact h.note hc htodo hok (by simp) (by simp) (by simp) rfl rfl rfl hinv htable

/-! ## A thread goes on -/

theorem Ordered.take (h : s.Ordered) (w : ℕ) : (s.step file (.take w)).Ordered := by
  have hinv : (s.step file (.take w)).Inv := h.inv.take w
  have htable := h.table.step file (.take w)
  have hun := unanswered_take file s w
  rcases step_take_cases file s w with heq | ⟨t, queue, hw, hq, heq⟩
  · rwa [heq]
  rw [heq] at hinv htable hun ⊢
  refine h.frame hinv htable rfl rfl (fun i ↦ ?_) hun
  -- the task counts on the thread as it did in the queue
  have hset := countP_threads_set (x := Running.settle ⟨t, t.task.work, 0, false⟩) hw i
  rw [owes_settle (work_answers_once t.task)] at hset
  rw [owed_eq, owed_eq, hq, List.countP_cons]
  simp only [owes, Running.owed, Option.bind_none, Option.bind_some, Option.map_none,
    Option.map_some, Option.getD_none, Option.getD_some, Bool.false_eq_true, if_false] at hset ⊢
  omega

theorem Ordered.call (h : s.Ordered) (w : ℕ) (out : Outcome) :
    (s.step file (.call w out)).Ordered := by
  have hinv : (s.step file (.call w out)).Inv := h.inv.call w out
  have htable := h.table.step file (.call w out)
  have hun := unanswered_call file s w out
  rcases step_call_cases file s w out with heq | ⟨k, o, next, store, r, hk, hrest, ho, hexec, heq⟩
  · rwa [heq]
  rw [heq] at hinv htable hun ⊢
  refine h.frame hinv htable rfl rfl (fun i ↦ ?_) hun
  have hnext := h.inv.once.calling (List.mem_of_getElem? hk) hrest ho hexec
  have hset := countP_threads_set (x := Running.settle { k with rest := next r }) hk i
  rw [owes_settle (k := { k with rest := next r }) hnext] at hset
  have hsame : owes i (some { k with rest := next r }) = owes i (some k) := rfl
  rw [hsame] at hset
  rw [owed_eq, owed_eq]
  dsimp only
  omega

/-- A thread that is through with its response owes it no longer. -/
theorem owed_sent {w : ℕ} {k : Running} (hk : s.threads[w]? = some (some k))
    (howed : k.owed = some k.ticket) {next : Job PUnit} (hqueue : s'.queue = s.queue)
    (hthreads : s'.threads = s.threads.set w (Running.settle ⟨k.ticket, next, 0, true⟩)) (i : ℕ) :
    s'.owed i + (if k.ticket.origin = i then 1 else 0) = s.owed i := by
  have hset := countP_threads_set (x := Running.settle ⟨k.ticket, next, 0, true⟩) hk i
  have hnone : owes i (Running.settle ⟨k.ticket, next, 0, true⟩) = false := by
    unfold Running.settle
    split <;> rfl
  have hsome : owes i (some k) = decide (k.ticket.origin = i) := by
    rw [owes, Option.bind_some, howed]
    rfl
  rw [hnone, hsome] at hset
  rw [owed_eq, owed_eq, hqueue, hthreads]
  simp only [Bool.false_eq_true, if_false, decide_eq_true_eq] at hset
  omega

/-- The connection has gone, and its response with it. -/
theorem Ordered.dropped (h : s.Ordered) {w : ℕ} {k : Running}
    (hk : s.threads[w]? = some (some k)) (howed : k.owed = some k.ticket)
    (hclosed : s.sockets k.ticket.task.fd = none) {next : Job PUnit}
    (hclients : s'.clients = s.clients) (hsockets : s'.sockets = s.sockets)
    (hqueue : s'.queue = s.queue)
    (hthreads : s'.threads = s.threads.set w (Running.settle ⟨k.ticket, next, 0, true⟩))
    (hun : ∀ t ∈ s'.unanswered, t ∈ s.unanswered) (hinv : s'.Inv) (htable : s'.Table) :
    s'.Ordered := by
  have hcount := owed_sent hk howed hqueue hthreads
  obtain ⟨c₀, hc₀, hfd⟩ := h.tickets k.ticket
    (mem_unanswered.mpr (.inr ⟨k, List.mem_of_getElem? hk, howed⟩))
  refine ⟨hinv, htable, fun t ht ↦ ?_, ?_, fun i c hc ↦ ?_⟩
  · rw [hclients]
    exact h.tickets t (hun t ht)
  · rw [hclients]
    exact h.todo
  · rw [hclients] at hc
    have hturn := h.clients i c hc
    by_cases hi : k.ticket.origin = i
    · subst hi
      have hgone : s.sockets c.conn.fd ≠ some k.ticket.origin := by
        rw [Option.some.inj (hc.symm.trans hc₀), hfd, hclosed]
        simp
      refine ⟨hturn.answered, hturn.pending, fun _ ↦ hturn.gone hgone, fun hopen ↦ ?_⟩
      rw [hsockets] at hopen
      exact absurd hopen hgone
    · refine hturn.frame (by rw [hsockets]) ?_ fun t ht _ ↦ hun t ht
      have := hcount i
      rwa [if_neg hi] at this

/-- A task has sent its response: it was the one that was due. -/
theorem Ordered.replied (h : s.Ordered) {w : ℕ} {k : Running}
    (hk : s.threads[w]? = some (some k)) (howed : k.owed = some k.ticket) {j : ℕ}
    (hopen : s.sockets k.ticket.task.fd = some j) {next : Job PUnit}
    (hclients : s'.clients = s.clients.modify j
      (·.addReply (k.ticket.origin, k.ticket.number)))
    (hsockets : s'.sockets = s.sockets) (hqueue : s'.queue = s.queue)
    (hthreads : s'.threads = s.threads.set w (Running.settle ⟨k.ticket, next, 0, true⟩))
    (hun : ∀ t ∈ s'.unanswered, t ∈ s.unanswered) (hinv : s'.Inv) (htable : s'.Table) :
    s'.Ordered := by
  have hcount := owed_sent hk howed hqueue hthreads
  have hmem : k.ticket ∈ s.unanswered :=
    mem_unanswered.mpr (.inr ⟨k, List.mem_of_getElem? hk, howed⟩)
  obtain rfl : j = k.ticket.origin := h.inv.unanswered k.ticket hmem j hopen
  obtain ⟨c, hc, hfd⟩ := h.table.sockets _ _ hopen
  have hturn := h.clients _ c hc
  rw [← hfd] at hopen
  obtain ⟨p, hp⟩ := hturn.tidy hopen
  -- the task is unanswered, so the handler has no request of its own
  have hown := hcount k.ticket.origin
  rw [if_pos rfl] at hown
  have hone := hp.one
  have hidle : p = .idle := by
    by_contra hne
    have := hp.busy hne
    omega
  subst hidle
  have hnumber := hp.tickets k.ticket hmem rfl
  have hasked : c.answered.length + 1 = c.asked := by
    have := hp.count
    rw [if_pos rfl] at this
    omega
  have hset : s'.clients = s.clients.set k.ticket.origin
      (c.addReply (k.ticket.origin, k.ticket.number)) := by
    rw [hclients, modify_addReply hc]
  refine h.set hc hinv htable hset rfl (h.todo _ c hc) (fun t ht ↦ .inl (hun t ht)) ?_
    fun i' c₀ hi _ ↦ ⟨by rw [hsockets], ?_⟩
  · refine ⟨?_, hturn.pending, fun hgone ↦ ?_, fun _ ↦ ⟨.idle, ?_⟩⟩
    · refine answered_append hturn.answered ?_
      rw [hnumber]
      exact hasked
    · rw [hsockets] at hgone
      exact absurd hopen hgone
    · refine ⟨hp.scan, by simp, ?_, by omega, fun e ↦ absurd rfl e, by simp, fun t ht ↦ ?_⟩
      · show (c.answered ++ [(k.ticket.origin, k.ticket.number)]).length +
          s'.owed k.ticket.origin + 0 = c.asked
        rw [List.length_append, List.length_singleton]
        omega
      · exact hp.tickets t (hun t ht)
  · have := hcount i'
    rwa [if_neg fun e ↦ hi e.symm] at this

theorem length_jsonResponse_pos (statusCode : ℕ) (body : Bytes) (keepAlive : Bool) :
    0 < (jsonResponse statusCode body keepAlive).length := by
  have hpos : 0 < (lit "HTTP/1.1 ").length := by decide
  simp only [jsonResponse, buildHttpResponse, responseHeader, List.length_append]
  omega

theorem Ordered.write (h : s.Ordered) {w : ℕ} {r : WriteResult} (hok : s.WholeWrites (.write w r)) :
    (s.step file (.write w r)).Ordered := by
  have hinv : (s.step file (.write w r)).Inv := h.inv.write w r
  have htable := h.table.step file (.write w r)
  have hun := unanswered_write file s w r
  rcases step_write_cases file s w r with heq | ⟨k, statusCode, body, next, hk, hrest, hcases⟩
  · rwa [heq]
  have howed := (h.inv.once.mem_unanswered hk hrest).1
  have htakes : r.takes (jsonResponse statusCode body k.ticket.task.keepAlive).length = true := by
    refine hok _ ?_
    rw [hk]
    show k.reply = _
    rw [Running.reply, hrest]
  obtain ⟨m, hm, hlen⟩ := WriteResult.took_of_takes htakes (length_jsonResponse_pos ..)
  rcases hcases with ⟨hstop, heq⟩ | ⟨j, n, data, hopen, hn, hdata, hcases⟩
  · have hclosed := hstop.resolve_right fun hne ↦ hne m hm
    rw [heq] at hinv htable hun ⊢
    exact h.dropped hk howed hclosed rfl rfl rfl rfl hun hinv htable
  · obtain rfl : m = n := by
      rw [hm] at hn
      simpa using hn
    rcases hcases with ⟨hlt, -⟩ | heq
    · -- the whole response is taken at once
      rw [hdata, List.length_take, List.length_drop] at hlt
      omega
    · rw [heq] at hinv htable hun ⊢
      exact h.replied hk howed hopen rfl rfl rfl rfl hun hinv htable

theorem Ordered.step (h : s.Ordered) {l : Label}
    (hok : s.WholeWrites l ∧ s.NoReuse l ∧ s.InTurn l) : (s.step file l).Ordered := by
  obtain ⟨hwhole, hreuse, hturn⟩ := hok
  cases l with
  | accept fd now => exact h.accept hreuse
  | insert => exact h.insert
  | event i e => exact h.event hwhole
  | act i => exact h.act hturn
  | take w => exact h.take w
  | call w out => exact h.call w out
  | write w r => exact h.write hwhole
  | expire key =>
    exact h.frame (h.inv.step trivial) (h.table.step file (.expire key)) rfl rfl (fun _ ↦ rfl)
      fun t ht ↦ ht

end Sys

/-- **Responses come back in the order of the requests**, in any interleaving in which every write is
taken whole, no connection is accepted under a number that a response is still to be written to, and
no connection starts on a request while a task of an earlier one is unanswered. -/
theorem responses_in_order (file : Option Bytes) (ls : List Label)
    (h : Meets (Sys.step file) (fun s l ↦ s.WholeWrites l ∧ s.NoReuse l ∧ s.InTurn l) Sys.start
      ls) : (Sys.start.run file ls).InOrder := by
  have hordered : (Sys.start.run file ls).Ordered :=
    h.invariant (fun _ _ hs hok ↦ hs.step hok) Sys.ordered_start
  exact fun i c hc ↦ (hordered.clients i c hc).answered

/-- A client asks for its profile, gets an answer, and then asks for a page. -/
def oneByOne : List Label :=
  [.accept 7 0, .insert, .event 0 askProfile] ++ List.replicate 8 (.act 0) ++ answerProfile ++
    [.event 0 (.readable 1 [.got (lit "GET /hello HTTP/1.1\r\n\r\n")] ⟨[], []⟩)] ++
    List.replicate 20 (.act 0)

/-- It gets two responses, in this order. -/
theorem responses_in_order_oneByOne :
    Meets (Sys.step none) (fun s l ↦ s.WholeWrites l ∧ s.NoReuse l ∧ s.InTurn l) Sys.start
        oneByOne ∧
      (Sys.start.run none oneByOne).clients.map (·.answered) = [[(0, 1), (0, 2)]] ∧
      (Sys.start.run none oneByOne).InOrder := by
  have hmeets : Meets (Sys.step none) (fun s l ↦ s.WholeWrites l ∧ s.NoReuse l ∧ s.InTurn l)
      Sys.start oneByOne := by
    decide +kernel
  exact ⟨hmeets, by decide +kernel, responses_in_order none oneByOne hmeets⟩

/-- A client asks for its profile and for a page, without waiting. -/
def pipelined : List Label :=
  [.accept 7 0, .insert, .event 0 (.readable 0
    [.got (lit "GET /profile HTTP/1.1\r\nAuthorization: Bearer abc\r\n\r\nGET /hello HTTP/1.1\r\n\r\n")]
    ⟨[], []⟩)] ++ List.replicate 20 (.act 0) ++ answerProfile

/-- **The page comes first**, with every write taken whole. -/
theorem responses_out_of_order :
    Meets (Sys.step none) Sys.WholeWrites Sys.start pipelined ∧
      (Sys.start.run none pipelined).clients.map (·.answered) = [[(0, 2), (0, 1)]] ∧
      ¬(Sys.start.run none pipelined).InOrder := by
  have hanswered : (Sys.start.run none pipelined).clients.map (·.answered) =
      [[(0, 2), (0, 1)]] := by
    decide +kernel
  refine ⟨by decide +kernel, hanswered, fun h ↦ ?_⟩
  have hfirst := congrArg (·[0]?) hanswered
  rw [List.getElem?_map] at hfirst
  obtain ⟨c, hc, he⟩ := Option.map_eq_some_iff.mp hfirst
  exact absurd (h 0 c hc 0 (0, 2) (by rw [he]; rfl)) (by decide)

end ReactorServer
