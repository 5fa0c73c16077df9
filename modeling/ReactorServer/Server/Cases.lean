import ReactorServer.Connection.Cases
import ReactorServer.Server.Defs

/-!
# What a move of the server can do

The moves of `Sys.step`, each with everything it can come to, and the few facts about handlers and
about the list of unanswered tasks that the properties of the whole server rest on.
-/

set_option autoImplicit false

namespace ReactorServer

/-! ## Handlers -/

theorem processRequests_fd (file : Option Bytes) (c : Conn) (k : Kernel) :
    (processRequests file c k).conn.fd = c.fd := by
  refine processRequests_induct file (P := fun c _ r ↦ r.conn.fd = c.fd) ?_ ?_ ?_ ?_ c k
  · intro c k _
    rfl
  · intro c k status message _
    obtain ⟨c', reply, hl, h⟩ := rejectInput_loaded c k status message
    rw [h]
    exact (writeFromBuffer_sameInput c' k).fd.trans hl.sameInput.fd
  · intro c k headers text rest _ _
    exact (serve_sameInput ..).fd
  · intro c k headers text rest _ _ ih
    exact ih.trans (serve_sameInput ..).fd

/-- A handler does not change the descriptor of its connection. -/
theorem handle_fd (file : Option Bytes) (c : Conn) (e : Event) :
    (handle file c e).conn.fd = c.fd := by
  cases e with
  | readable now reads k =>
    obtain ⟨acts, -, ⟨-, -, h⟩ | ⟨-, h⟩⟩ := handleMessage_cases file c now reads k
    · rw [handle, h]
      exact processRequests_fd file _ k
    · rw [handle, h]
      rfl
  | writable k =>
    rw [handle, handleWrite]
    split
    · exact (writeFromBuffer_sameInput c k).fd
    · rfl

theorem not_submit_writeFromBuffer (c : Conn) (k : Kernel) (t : Task) :
    .submit t ∉ (writeFromBuffer c k).acts := by
  obtain ⟨c', ios, io', hd, -, hcases⟩ := writeFromBuffer_cases c k
  have hios : .submit t ∉ ios := by
    intro hmem
    rcases hd.acts _ hmem with h | ⟨r, bs, h⟩
    · exact absurd h (by simp)
    · exact absurd h (by simp)
  rcases hcases with ⟨h, -⟩ | ⟨h, -⟩ | ⟨h, -⟩
  · simp [h, hios, stopWrite, enableWriting, updateChannel]
  · simp [h, hios, stopWrite]
  · simp [h, hios, finishWrite, disableWriting, updateChannel]

theorem turn_submit {file : Option Bytes} {c : Conn} {k : Kernel} {headers text rest : Bytes}
    {t : Task} (h : .submit t ∈ (turn file c k headers text rest).acts) : t.fd = c.fd := by
  rw [turn] at h
  simp only [Run.after_acts, List.mem_append, List.mem_cons, reduceCtorEq, List.not_mem_nil,
    or_self, false_or] at h
  rcases serve_cases file { c with inputBuffer := rest } (allowRequest k).2 text
      (wantKeepAlive text headers) (allowRequest k).1 with
    ⟨c', reply, -, -, he⟩ | ⟨status, body, -, he⟩ | ⟨t', -, ht', he⟩
  · rw [he] at h
    simp only [Run.after_acts, List.mem_append, List.mem_singleton, reduceCtorEq, false_or] at h
    exact absurd h (not_submit_writeFromBuffer c' _ t)
  · rw [he] at h
    rcases sendJson_acts h with ⟨_, h⟩ | ⟨_, _, h⟩ | h
    all_goals exact absurd h (by simp)
  · rw [he] at h
    obtain rfl : t = t' := by simpa using h
    exact ht'

theorem processRequests_submit (file : Option Bytes) (c : Conn) (k : Kernel) {t : Task} :
    .submit t ∈ (processRequests file c k).acts → t.fd = c.fd := by
  refine processRequests_induct file (P := fun c _ r ↦ .submit t ∈ r.acts → t.fd = c.fd)
    ?_ ?_ ?_ ?_ c k
  · intro c k _ h
    exact absurd h (by simp)
  · intro c k status message _ h
    obtain ⟨c', reply, -, he⟩ := rejectInput_loaded c k status message
    rw [he] at h
    exact absurd h (by simp [not_submit_writeFromBuffer])
  · intro c k headers text rest _ _ h
    exact turn_submit h
  · intro c k headers text rest _ _ ih h
    rcases List.mem_append.mp h with h | h
    · exact turn_submit h
    · exact (ih h).trans (serve_sameInput ..).fd

/-- **A task carries the descriptor of the connection that submits it.** -/
theorem handle_submit {file : Option Bytes} {c : Conn} {e : Event} {t : Task}
    (h : .submit t ∈ (handle file c e).acts) : t.fd = c.fd := by
  cases e with
  | readable now reads k =>
    obtain ⟨acts, hacts, hcases⟩ := handleMessage_cases file c now reads k
    have hreads : .submit t ∉ acts := by
      intro hmem
      rcases hacts _ hmem with h | ⟨r, h⟩
      · exact absurd h (by simp)
      · exact absurd h (by simp)
    rcases hcases with ⟨-, -, he⟩ | ⟨-, he⟩
    · rw [handle, he, Run.after_acts, List.mem_append] at h
      exact processRequests_submit file (c.received now (readAll reads).1) k (h.resolve_left hreads)
    · rw [handle, he] at h
      simp [hreads] at h
  | writable k =>
    rw [handle, handleWrite] at h
    split at h
    · simp [not_submit_writeFromBuffer] at h
    · simp [disableWriting, updateChannel] at h

namespace Sys

/-! ## The list of unanswered tasks -/

theorem mem_unanswered {s : Sys} {t : Ticket} :
    t ∈ s.unanswered ↔ t ∈ s.queue ∨ ∃ k, some k ∈ s.threads ∧ k.owed = some t := by
  rw [unanswered, List.mem_append, List.mem_filterMap]
  refine or_congr_right ⟨?_, ?_⟩
  · rintro ⟨_ | k, hk, h⟩
    · exact absurd h (by simp)
    · exact ⟨k, hk, h⟩
  · rintro ⟨k, hk, h⟩
    exact ⟨some k, hk, h⟩

theorem some_of_settle {k k' : Running} (h : some k' = k.settle) : k' = k := by
  unfold Running.settle at h
  split at h
  · exact Option.some.inj h
  · exact absurd h (by simp)

/-- A thread that is set to something else. -/
theorem mem_threads_set {threads : List (Option Running)} {w : ℕ} {k k' : Running}
    (h : some k' ∈ threads.set w k.settle) : some k' ∈ threads ∨ k' = k :=
  (List.mem_or_eq_of_mem_set h).imp_right some_of_settle

/-! ## Moves of a handler -/

theorem step_event_cases (file : Option Bytes) (s : Sys) (i : ℕ) (e : Event) :
    s.step file (.event i e) = s ∨ ∃ c, s.clients[i]? = some c ∧ c.todo = [] ∧
      s.sockets c.conn.fd = some i ∧
      s.step file (.event i e) =
        { s with clients := s.clients.set i
                  { c with conn := (handle file c.conn e).conn, todo := (handle file c.conn e).acts,
                           direct := none } } := by
  rw [step]
  cases hi : s.clients[i]? with
  | none => exact .inl rfl
  | some c =>
    dsimp only
    by_cases hc : c.todo = [] ∧ s.sockets c.conn.fd = some i
    · rw [if_pos hc]
      exact .inr ⟨c, rfl, hc.1, hc.2, rfl⟩
    · rw [if_neg hc]
      exact .inl rfl

/-- The next action of the handler that is running on a connection. -/
def nextAct (s : Sys) (i : ℕ) : Option Act := s.clients[i]?.bind (·.todo.head?)

theorem nextAct_eq {s : Sys} {i : ℕ} {c : Client} {a : Act} {todo : List Act}
    (hc : s.clients[i]? = some c) (htodo : c.todo = a :: todo) : s.nextAct i = some a := by
  simp [nextAct, hc, htodo]

theorem step_act_cases (file : Option Bytes) (s : Sys) (i : ℕ) :
    (s.nextAct i = none ∧ s.step file (.act i) = s) ∨
      ∃ c a todo, s.clients[i]? = some c ∧ c.todo = a :: todo ∧
        s.step file (.act i) =
          effect { s with clients := s.clients.set i { c.note a with todo := todo } } i c a := by
  show (_ ∧ s.act i = s) ∨ _
  cases hi : s.clients[i]? with
  | none => exact .inl ⟨by simp [nextAct, hi], by rw [act, hi]⟩
  | some c =>
    cases htodo : c.todo with
    | nil => exact .inl ⟨by simp [nextAct, hi, htodo], by simp only [act, hi, htodo]⟩
    | cons a todo =>
      refine .inr ⟨c, a, todo, rfl, htodo, ?_⟩
      show s.act i = _
      simp only [act, hi, htodo]

theorem deleteConnection_clients (s : Sys) (fd : ℕ) :
    (s.deleteConnection fd).clients = s.clients := by
  rw [deleteConnection]
  split <;> rfl

/-! ## What a thread can do -/

theorem step_take_cases (file : Option Bytes) (s : Sys) (w : ℕ) :
    s.step file (.take w) = s ∨ ∃ t queue, s.threads[w]? = some none ∧ s.queue = t :: queue ∧
      s.step file (.take w) =
        { s with queue := queue
                 threads := s.threads.set w (Running.settle ⟨t, t.task.work, 0, false⟩) } := by
  rw [step]
  split
  · rename_i t queue hw hq
    exact .inr ⟨t, queue, hw, hq, rfl⟩
  · exact .inl rfl

theorem step_call_cases (file : Option Bytes) (s : Sys) (w : ℕ) (out : Outcome) :
    s.step file (.call w out) = s ∨ ∃ k o next store r, s.threads[w]? = some (some k) ∧
      k.rest = .call o next ∧ o.isSend = false ∧ s.store.exec o out = some (store, r) ∧
      s.step file (.call w out) =
        { s with store := store
                 threads := s.threads.set w (Running.settle { k with rest := next r }) } := by
  rw [step]
  split
  · rename_i t o next written sent hw
    by_cases ho : o.isSend = true
    · rw [if_pos ho]
      exact .inl rfl
    rw [if_neg ho]
    cases hexec : s.store.exec o out with
    | none => exact .inl rfl
    | some res => exact .inr ⟨_, o, next, res.1, res.2, hw, rfl, by simpa using ho, hexec, rfl⟩
  · exact .inl rfl

/-- A turn of the send loop of a thread: nothing happens, the loop ends, some of the response goes
out, or the rest of it does. -/
theorem step_write_cases (file : Option Bytes) (s : Sys) (w : ℕ) (r : WriteResult) :
    s.step file (.write w r) = s ∨ ∃ k statusCode body next, s.threads[w]? = some (some k) ∧
      k.rest = .call (.send statusCode body) next ∧
      ((s.sockets k.ticket.task.fd = none ∨ ∀ n, r ≠ .took (n + 1)) ∧
          s.step file (.write w r) =
            { s with threads := s.threads.set w
                      (Running.settle ⟨k.ticket, next (some ⟨⟩), 0, true⟩) } ∨
        ∃ j n data, s.sockets k.ticket.task.fd = some j ∧ r = .took (n + 1) ∧
          data = ((jsonResponse statusCode body k.ticket.task.keepAlive).drop k.written).take
            (n + 1) ∧
          (k.written + data.length <
              (jsonResponse statusCode body k.ticket.task.keepAlive).length ∧
            s.step file (.write w r) =
              { s with wire := s.wire ++ [⟨k.ticket.origin, j, data⟩]
                       threads := s.threads.set w
                        (some { k with written := k.written + data.length }) } ∨
          s.step file (.write w r) =
            { s with wire := s.wire ++ [⟨k.ticket.origin, j, data⟩]
                     threads := s.threads.set w
                      (Running.settle ⟨k.ticket, next (some ⟨⟩), 0, true⟩)
                     clients := s.clients.modify j
                      (·.addReply (k.ticket.origin, k.ticket.number)) })) := by
  rw [step]
  split
  · rename_i t statusCode body next written sent hw
    unfold sendStep
    dsimp only
    cases hfd : s.sockets t.task.fd with
    | none => exact .inr ⟨_, statusCode, body, next, hw, rfl, .inl ⟨.inl hfd, rfl⟩⟩
    | some j =>
      match r with
      | .took 0 => exact .inr ⟨_, statusCode, body, next, hw, rfl, .inl ⟨.inr (by simp), rfl⟩⟩
      | .took (n + 1) =>
        refine .inr ⟨_, statusCode, body, next, hw, rfl, .inr ⟨j, n, _, hfd, rfl, rfl, ?_⟩⟩
        dsimp only
        split
        · rename_i hlt
          exact .inl ⟨hlt, rfl⟩
        · exact .inr rfl
      | .fail .EINTR => exact .inl rfl
      | .fail .EAGAIN =>
        exact .inr ⟨_, statusCode, body, next, hw, rfl, .inl ⟨.inr (by simp), rfl⟩⟩
      | .fail .other =>
        exact .inr ⟨_, statusCode, body, next, hw, rfl, .inl ⟨.inr (by simp), rfl⟩⟩
  · exact .inl rfl

end Sys

end ReactorServer
