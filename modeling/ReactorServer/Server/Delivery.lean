import ReactorServer.Lib.Machine
import ReactorServer.Server.Cases

/-!
# Whose response is it?

A task is given the descriptor of its connection, a bare number, and writes its response to whoever
has that number by then.  `Sys.Private` says that this has always been the connection the request
came from.

That is not so in general: the connection can be closed while its task is in the queue, and the
next `accept` may well be given the same number (`response_misdelivered`).  What it takes is an
`accept` of a number that someone still holds who is going to write to it, and nothing else:
`responses_private` says that without one, every interleaving keeps the responses apart.
-/

set_option autoImplicit false

namespace ReactorServer

open Machine Program

/-- The number that a task is submitted with. -/
def Act.submits : Act → Option ℕ
  | .submit t => some t.fd
  | _ => none

namespace Sys

/-- **Every byte a task has written went to the connection its request came from.** -/
def Private (s : Sys) : Prop := ∀ d ∈ s.wire, d.receiver = d.origin

/-- The numbers that are still going to be written to: those of the unanswered tasks, and of the
tasks that a handler is about to submit. -/
def captured (s : Sys) : List ℕ :=
  s.unanswered.map (·.task.fd) ++ s.clients.flatMap fun c ↦ c.todo.filterMap Act.submits

/-- The condition on a move: no connection is accepted under such a number. -/
def NoReuse (s : Sys) : Label → Prop
  | .accept fd _ => fd ∉ s.captured
  | _ => True

instance (s : Sys) : ∀ l : Label, Decidable (s.NoReuse l)
  | .accept fd _ => inferInstanceAs (Decidable (fd ∉ s.captured))
  | .insert => inferInstanceAs (Decidable True)
  | .event .. => inferInstanceAs (Decidable True)
  | .act _ => inferInstanceAs (Decidable True)
  | .take _ => inferInstanceAs (Decidable True)
  | .call .. => inferInstanceAs (Decidable True)
  | .write .. => inferInstanceAs (Decidable True)
  | .expire _ => inferInstanceAs (Decidable True)

/-! ## Every thread answers once -/

/-- A task at a thread answers once if it has not answered, and not again if it has. -/
def OneAnswer (s : Sys) : Prop :=
  ∀ k, some k ∈ s.threads → wp onceSpec k.rest (fun sent _ ↦ sent = true) k.sent

variable {file : Option Bytes} {s : Sys}

theorem oneAnswer_start : start.OneAnswer := by
  intro k hk
  exact absurd (List.eq_of_mem_replicate hk) (by simp)

/-- A thread that is at `sendJson` has not answered yet. -/
theorem OneAnswer.sending (h : s.OneAnswer) {k : Running} (hk : some k ∈ s.threads) {statusCode : ℕ}
    {body : Bytes} {next : Option PUnit → Job PUnit} (hrest : k.rest = .call (.send statusCode body) next) :
    k.sent = false ∧ wp onceSpec (next (some ⟨⟩)) (fun sent _ ↦ sent = true) true := by
  have hk := h k hk
  rw [hrest] at hk
  have hsent : k.sent = false := hk.1 rfl
  refine ⟨hsent, hk.2 true (some ⟨⟩) ⟨?_, by simp⟩⟩
  rw [hsent]
  rfl

/-- Any other call leaves that as it is. -/
theorem OneAnswer.calling (h : s.OneAnswer) {k : Running} (hk : some k ∈ s.threads) {o : Call}
    {next : Option o.Res → Job PUnit} (hrest : k.rest = .call o next) (ho : o.isSend = false)
    {store store' : Store} {out : Outcome} {r : Option o.Res}
    (hexec : store.exec o out = some (store', r)) :
    wp onceSpec (next r) (fun sent _ ↦ sent = true) k.sent := by
  have hk := h k hk
  rw [hrest] at hk
  refine hk.2 k.sent r ⟨?_, Store.exec_noexcept hexec⟩
  rw [ho, Bool.or_false]

theorem OneAnswer.set (h : s.OneAnswer) {w : ℕ} {k : Running}
    (hk : wp onceSpec k.rest (fun sent _ ↦ sent = true) k.sent) {s' : Sys}
    (hs' : s'.threads = s.threads.set w k.settle) : s'.OneAnswer := by
  intro k' hk'
  rw [hs'] at hk'
  rcases mem_threads_set hk' with hk' | rfl
  · exact h k' hk'
  · exact hk

theorem OneAnswer.of_threads (h : s.OneAnswer) {s' : Sys} (hs' : s'.threads = s.threads) :
    s'.OneAnswer := by
  intro k hk
  rw [hs'] at hk
  exact h k hk

theorem act_threads (s : Sys) (i : ℕ) : (s.step file (.act i)).threads = s.threads := by
  rcases step_act_cases file s i with ⟨-, h⟩ | ⟨c, a, todo, -, -, h⟩
  · rw [h]
  · rw [h]
    unfold effect deleteConnection logReply
    split
    · rfl
    · split <;> rfl
    · split <;> rfl
    · rfl

/-- **No task answers twice**, whatever happens. -/
theorem OneAnswer.step (file : Option Bytes) (h : s.OneAnswer) (l : Label) : (s.step file l).OneAnswer := by
  cases l with
  | accept fd now =>
    refine h.of_threads ?_
    rw [Sys.step]
    split <;> rfl
  | insert =>
    refine h.of_threads ?_
    rw [Sys.step]
    split <;> rfl
  | event i e =>
    rcases step_event_cases file s i e with e | ⟨c, -, -, -, e⟩
    · exact h.of_threads (by rw [e])
    · exact h.of_threads (by rw [e])
  | act i => exact h.of_threads (act_threads s i)
  | take w =>
    rcases step_take_cases file s w with e | ⟨t, queue, -, -, e⟩
    · rwa [e]
    · exact h.set (work_answers_once t.task) (by rw [e])
  | call w out =>
    rcases step_call_cases file s w out with e | ⟨k, o, next, store, r, hk, hrest, ho, hexec, e⟩
    · rwa [e]
    · have hnext := h.calling (List.mem_of_getElem? hk) hrest ho hexec
      exact h.set (k := { k with rest := next r }) hnext (by rw [e])
  | write w r =>
    rcases step_write_cases file s w r with e | ⟨k, statusCode, body, next, hk, hrest, hcases⟩
    · rwa [e]
    · have hmem := List.mem_of_getElem? hk
      obtain ⟨-, hnext⟩ := h.sending hmem hrest
      rcases hcases with ⟨-, e⟩ | ⟨j, n, data, -, -, -, ⟨-, e⟩ | e⟩
      · exact h.set hnext (by rw [e])
      · intro k' hk'
        rw [e] at hk'
        rcases List.mem_or_eq_of_mem_set hk' with hk' | hk'
        · exact h k' hk'
        · rw [Option.some.inj hk']
          exact h k hmem
      · exact h.set hnext (by rw [e])
  | expire key => exact h.of_threads rfl

/-! ## Every number leads home -/

/-- If the number is open, it is this connection's. -/
def Leads (s : Sys) (fd i : ℕ) : Prop := ∀ j, s.sockets fd = some j → j = i

/-- Nothing in the state leads a response astray. -/
structure Inv (s : Sys) : Prop where
  once : s.OneAnswer
  unanswered : ∀ t ∈ s.unanswered, s.Leads t.task.fd t.origin
  todo : ∀ i c, s.clients[i]? = some c → ∀ t, .submit t ∈ c.todo → s.Leads t.fd i
  wire : s.Private

theorem inv_start : start.Inv where
  once := oneAnswer_start
  unanswered t ht := by
    rcases mem_unanswered.mp ht with h | ⟨k, hk, -⟩
    · exact absurd h (by simp [start])
    · exact absurd (List.eq_of_mem_replicate hk) (by simp)
  todo i c hc := absurd hc (by simp [start])
  wire := by simp [Private, start]

/-- A move that opens no socket and adds no task keeps all that is owed in order. -/
theorem Inv.frame (h : s.Inv) {s' : Sys} (hstep : s'.OneAnswer) (hwire : s'.Private)
    (hsockets : ∀ n j, s'.sockets n = some j → s.sockets n = some j)
    (hunanswered : ∀ t ∈ s'.unanswered, t ∈ s.unanswered)
    (htodo : ∀ (i : ℕ) (c' : Client), s'.clients[i]? = some c' → ∃ c : Client,
      s.clients[i]? = some c ∧ ∀ t : Task, .submit t ∈ c'.todo → .submit t ∈ c.todo) :
    s'.Inv where
  once := hstep
  unanswered t ht j hj := h.unanswered t (hunanswered t ht) j (hsockets _ _ hj)
  todo i c' hc' t ht j hj := by
    obtain ⟨c, hc, hsub⟩ := htodo i c' hc'
    exact h.todo i c hc t (hsub t ht) j (hsockets _ _ hj)
  wire := hwire

theorem Inv.accept (h : s.Inv) {fd now : ℕ} (hok : s.NoReuse (.accept fd now)) :
    (s.step file (.accept fd now)).Inv := by
  have hstep := h.once.step file (.accept fd now)
  rw [Sys.step] at hstep ⊢
  by_cases hfree : s.sockets fd = none ∧ s.arriving = none
  · rw [if_pos hfree] at hstep ⊢
    have hcaptured : fd ∉ s.captured := hok
    rw [captured, List.mem_append, not_or] at hcaptured
    -- a number that is still in use is not the new one
    have hold : ∀ n i, n ≠ fd → s.Leads n i → ∀ j,
        Function.update s.sockets fd (some s.clients.length) n = some j → j = i := by
      intro n i hn hleads j hj
      rw [Function.update_of_ne hn] at hj
      exact hleads j hj
    refine ⟨hstep, fun t ht ↦ ?_, fun i c hc t ht ↦ ?_, h.wire⟩
    · refine hold _ _ (fun e ↦ hcaptured.1 ?_) (h.unanswered t ht)
      exact List.mem_map.mpr ⟨t, ht, e⟩
    · by_cases hi : i < s.clients.length
      · rw [List.getElem?_append_left hi] at hc
        refine hold _ _ (fun e ↦ hcaptured.2 ?_) (h.todo i c hc t ht)
        refine List.mem_flatMap.mpr ⟨c, List.mem_of_getElem? hc, ?_⟩
        exact List.mem_filterMap.mpr ⟨_, ht, congrArg some e⟩
      · rw [List.getElem?_append_right (Nat.not_lt.mp hi)] at hc
        rw [List.mem_singleton.mp (List.mem_of_getElem? hc)] at ht
        exact absurd ht (by simp [Client.accepted])
  · rw [if_neg hfree]
    exact h

theorem Inv.event (h : s.Inv) (i : ℕ) (e : Event) : (s.step file (.event i e)).Inv := by
  rcases step_event_cases file s i e with heq | ⟨c, hc, -, hsock, heq⟩
  · rwa [heq]
  · have hstep := h.once.step file (.event i e)
    rw [heq] at hstep ⊢
    refine ⟨hstep, h.unanswered, fun i' c' hc' t ht ↦ ?_, h.wire⟩
    rw [List.getElem?_set] at hc'
    by_cases hi : i = i'
    · -- the number is that of the connection itself, which is open
      subst hi
      rw [if_pos rfl, if_pos (List.getElem?_eq_some_iff.mp hc).1] at hc'
      rw [← Option.some.inj hc'] at ht
      intro j hj
      have hfd : t.fd = c.conn.fd := handle_submit ht
      rw [hfd] at hj
      exact Option.some.inj (hj.symm.trans hsock)
    · rw [if_neg hi] at hc'
      exact h.todo i' c' hc' t ht

theorem deleteConnection_sockets {fd n j : ℕ} (h : (s.deleteConnection fd).sockets n = some j) :
    s.sockets n = some j := by
  rw [deleteConnection] at h
  split at h
  · by_cases hn : n = fd
    · subst hn
      simp at h
    · simpa [Function.update_of_ne hn] using h
  · exact h

theorem deleteConnection_unanswered (s : Sys) (fd : ℕ) :
    (s.deleteConnection fd).unanswered = s.unanswered := by
  rw [deleteConnection]
  split <;> rfl

theorem deleteConnection_wire (s : Sys) (fd : ℕ) : (s.deleteConnection fd).wire = s.wire := by
  rw [deleteConnection]
  split <;> rfl

/-- A reply that is logged leaves what the handlers have to do alone. -/
theorem todo_modify_addReply {clients : List Client} {i j : ℕ} {a : ℕ × ℕ} {c' : Client}
    (h : (clients.modify j (·.addReply a))[i]? = some c') :
    ∃ c, clients[i]? = some c ∧ c.todo = c'.todo := by
  rw [List.getElem?_modify] at h
  cases hi : clients[i]? with
  | none => simp [hi] at h
  | some c =>
    refine ⟨c, rfl, ?_⟩
    rw [hi] at h
    split at h
    · rw [← Option.some.inj h]
      rfl
    · rw [← Option.some.inj h]

theorem Inv.act (h : s.Inv) (i : ℕ) : (s.step file (.act i)).Inv := by
  rcases step_act_cases file s i with ⟨-, heq⟩ | ⟨c, a, todo, hc, htodo, heq⟩
  · rwa [heq]
  have hstep := h.once.step file (.act i)
  rw [heq] at hstep ⊢
  have hlt := (List.getElem?_eq_some_iff.mp hc).1
  -- the actions that are left were to be done before
  have hleft : ∀ (i' : ℕ) (c' : Client),
      (s.clients.set i { c.note a with todo := todo })[i']? = some c' →
        ∃ c₀ : Client, s.clients[i']? = some c₀ ∧
          ∀ t : Task, .submit t ∈ c'.todo → .submit t ∈ c₀.todo := by
    intro i' c' hc'
    rw [List.getElem?_set] at hc'
    by_cases hi : i = i'
    · subst hi
      rw [if_pos rfl, if_pos hlt] at hc'
      refine ⟨c, hc, fun t ht ↦ ?_⟩
      rw [← Option.some.inj hc'] at ht
      rw [htodo]
      exact List.mem_cons_of_mem _ ht
    · rw [if_neg hi] at hc'
      exact ⟨c', hc', fun t ht ↦ ht⟩
  cases a with
  | submit t =>
    -- the task that is submitted is the next thing the handler had to do
    refine ⟨hstep, fun t' ht' ↦ ?_, fun i' c' hc' t' ht' ↦ ?_, h.wire⟩
    · rcases mem_unanswered.mp ht' with hq | hk
      · rcases List.mem_append.mp hq with hq | hq
        · exact h.unanswered t' (mem_unanswered.mpr (.inl hq))
        · rw [List.mem_singleton.mp hq]
          exact h.todo i c hc t (by rw [htodo]; exact List.mem_cons_self)
      · exact h.unanswered t' (mem_unanswered.mpr (.inr hk))
    · obtain ⟨c₀, hc₀, hsub⟩ := hleft i' c' hc'
      exact h.todo i' c₀ hc₀ t' (hsub t' ht')
  | delete =>
    refine h.frame hstep ?_ (fun n j hj ↦ ?_) (fun t ht ↦ ?_) fun i' c' hc' ↦ ?_
    · rw [Private, effect, deleteConnection_wire]
      exact h.wire
    · have key := deleteConnection_sockets hj
      exact key
    · rw [effect, deleteConnection_unanswered] at ht
      exact ht
    · rw [effect, deleteConnection_clients] at hc'
      exact hleft i' c' hc'
  | complete =>
    rw [effect, logReply] at hstep ⊢
    cases hsock : s.sockets c.conn.fd with
    | none =>
      rw [hsock] at hstep
      exact h.frame hstep h.wire (fun _ _ hj ↦ hj) (fun _ ht ↦ ht) hleft
    | some j =>
      rw [hsock] at hstep
      refine h.frame hstep h.wire (fun _ _ hj ↦ hj) (fun _ ht ↦ ht) fun i' c' hc' ↦ ?_
      obtain ⟨c₁, hc₁, e⟩ := todo_modify_addReply hc'
      rw [← e]
      exact hleft i' c₁ hc₁
  | _ => exact h.frame hstep h.wire (fun _ _ hj ↦ hj) (fun _ ht ↦ ht) hleft

/-- What a thread that is set to something else has still to answer. -/
theorem unanswered_set {w : ℕ} {k : Running} {t : Ticket} {s' : Sys} (ht : t ∈ s'.unanswered)
    (hqueue : s'.queue = s.queue) (hthreads : s'.threads = s.threads.set w k.settle) :
    t ∈ s.unanswered ∨ k.owed = some t := by
  rw [mem_unanswered, hqueue, hthreads] at ht
  rcases ht with hq | ⟨k', hk', howed⟩
  · exact .inl (mem_unanswered.mpr (.inl hq))
  · rcases mem_threads_set hk' with hk' | rfl
    · exact .inl (mem_unanswered.mpr (.inr ⟨k', hk', howed⟩))
    · exact .inr howed

theorem unanswered_take (file : Option Bytes) (s : Sys) (w : ℕ) :
    ∀ t ∈ (s.step file (.take w)).unanswered, t ∈ s.unanswered := by
  intro t ht
  rcases step_take_cases file s w with heq | ⟨t', queue, -, hq, heq⟩
  · rwa [heq] at ht
  rw [heq] at ht
  have ht := unanswered_set (s := { s with queue := queue }) ht rfl rfl
  rw [mem_unanswered] at ht ⊢
  rw [hq]
  rcases ht with (hmem | hmem) | hnew
  · exact .inl (List.mem_cons_of_mem _ hmem)
  · exact .inr hmem
  · rw [← Option.some.inj hnew]
    exact .inl List.mem_cons_self

theorem unanswered_call (file : Option Bytes) (s : Sys) (w : ℕ) (out : Outcome) :
    ∀ t ∈ (s.step file (.call w out)).unanswered, t ∈ s.unanswered := by
  intro t ht
  rcases step_call_cases file s w out with heq | ⟨k, o, next, store, r, hk, -, -, -, heq⟩
  · rwa [heq] at ht
  rw [heq] at ht
  rcases unanswered_set (s := s) ht rfl rfl with ht | howed
  · exact ht
  · exact mem_unanswered.mpr (.inr ⟨k, List.mem_of_getElem? hk, howed⟩)

theorem unanswered_write (file : Option Bytes) (s : Sys) (w : ℕ) (r : WriteResult) :
    ∀ t ∈ (s.step file (.write w r)).unanswered, t ∈ s.unanswered := by
  intro t ht
  rcases step_write_cases file s w r with heq | ⟨k, statusCode, body, next, hk, -, hcases⟩
  · rwa [heq] at ht
  rcases hcases with ⟨-, heq⟩ | ⟨j, n, data, -, -, -, ⟨-, heq⟩ | heq⟩
  · rw [heq] at ht
    exact (unanswered_set (s := s) ht rfl rfl).resolve_right (by simp [Running.owed])
  · -- more to come: the thread goes on with the same task
    rw [heq, mem_unanswered] at ht
    rw [mem_unanswered]
    refine ht.imp_right ?_
    rintro ⟨k', hk', howed⟩
    rcases List.mem_or_eq_of_mem_set hk' with hk' | hk'
    · exact ⟨k', hk', howed⟩
    · rw [Option.some.inj hk'] at howed
      exact ⟨k, List.mem_of_getElem? hk, howed⟩
  · rw [heq] at ht
    exact (unanswered_set (s := s) ht rfl rfl).resolve_right (by simp [Running.owed])

theorem Inv.take (h : s.Inv) (w : ℕ) : (s.step file (.take w)).Inv := by
  have hstep := h.once.step file (.take w)
  have hun := unanswered_take file s w
  rcases step_take_cases file s w with heq | ⟨t, queue, -, -, heq⟩
  · rwa [heq]
  rw [heq] at hstep hun ⊢
  exact h.frame hstep h.wire (fun _ _ hj ↦ hj) hun fun i c hc ↦ ⟨c, hc, fun _ h ↦ h⟩

theorem Inv.call (h : s.Inv) (w : ℕ) (out : Outcome) : (s.step file (.call w out)).Inv := by
  have hstep := h.once.step file (.call w out)
  have hun := unanswered_call file s w out
  rcases step_call_cases file s w out with heq | ⟨k, o, next, store, r, -, -, -, -, heq⟩
  · rwa [heq]
  rw [heq] at hstep hun ⊢
  exact h.frame hstep h.wire (fun _ _ hj ↦ hj) hun fun i c hc ↦ ⟨c, hc, fun _ h ↦ h⟩

/-- A thread that is at `sendJson` has its task still to answer. -/
theorem OneAnswer.mem_unanswered (h : s.OneAnswer) {w : ℕ} {k : Running}
    (hk : s.threads[w]? = some (some k)) {statusCode : ℕ} {body : Bytes}
    {next : Option PUnit → Job PUnit} (hrest : k.rest = .call (.send statusCode body) next) :
    k.owed = some k.ticket ∧ k.ticket ∈ s.unanswered := by
  have hmem := List.mem_of_getElem? hk
  have howed : k.owed = some k.ticket := by
    rw [Running.owed, (h.sending hmem hrest).1]
    rfl
  exact ⟨howed, Sys.mem_unanswered.mpr (.inr ⟨k, hmem, howed⟩)⟩

theorem Inv.write (h : s.Inv) (w : ℕ) (r : WriteResult) : (s.step file (.write w r)).Inv := by
  have hstep := h.once.step file (.write w r)
  have hun := unanswered_write file s w r
  rcases step_write_cases file s w r with heq | ⟨k, statusCode, body, next, hk, hrest, hcases⟩
  · rwa [heq]
  have hleads := h.unanswered k.ticket (h.once.mem_unanswered hk hrest).2
  rcases hcases with ⟨-, heq⟩ | ⟨j, n, data, hsock, -, -, hcases⟩
  · rw [heq] at hstep hun ⊢
    exact h.frame hstep h.wire (fun _ _ hj ↦ hj) hun fun i c hc ↦ ⟨c, hc, fun _ h ↦ h⟩
  have hwire : ∀ d ∈ s.wire ++ [⟨k.ticket.origin, j, data⟩], d.receiver = d.origin := by
    intro d hd
    rcases List.mem_append.mp hd with hd | hd
    · exact h.wire d hd
    · rw [List.mem_singleton.mp hd]
      exact hleads j hsock
  rcases hcases with ⟨-, heq⟩ | heq
  · rw [heq] at hstep hun ⊢
    exact h.frame hstep hwire (fun _ _ hj ↦ hj) hun fun i c hc ↦ ⟨c, hc, fun _ h ↦ h⟩
  · rw [heq] at hstep hun ⊢
    refine h.frame hstep hwire (fun _ _ hj ↦ hj) hun fun i c hc ↦ ?_
    obtain ⟨c₀, hc₀, e⟩ := todo_modify_addReply hc
    exact ⟨c₀, hc₀, fun t ht ↦ by rwa [e]⟩

theorem Inv.step (h : s.Inv) {l : Label} (hok : s.NoReuse l) : (s.step file l).Inv := by
  cases l with
  | accept fd now => exact h.accept hok
  | insert =>
    have hstep := h.once.step file .insert
    rw [Sys.step] at hstep ⊢
    cases harr : s.arriving with
    | none => exact h
    | some p =>
      rw [harr] at hstep
      refine h.frame hstep h.wire (fun n j hj ↦ ?_) (fun _ ht ↦ ht) fun i c hc ↦ ⟨c, hc, fun _ h ↦ h⟩
      dsimp only at hj
      split at hj
      · by_cases hn : n = p.1
        · subst hn
          simp at hj
        · rwa [Function.update_of_ne hn] at hj
      · exact hj
  | event i e => exact h.event i e
  | act i => exact h.act i
  | take w => exact h.take w
  | call w out => exact h.call w out
  | write w r => exact h.write w r
  | expire key =>
    exact h.frame (h.once.of_threads rfl) h.wire (fun _ _ hj ↦ hj) (fun _ ht ↦ ht)
      fun i c hc ↦ ⟨c, hc, fun _ h ↦ h⟩

end Sys

/-- **No response reaches the wrong client**, in any interleaving in which no connection is accepted
under a number that a response is still to be written to. -/
theorem responses_private (file : Option Bytes) (ls : List Label)
    (h : Meets (Sys.step file) Sys.NoReuse Sys.start ls) : (Sys.start.run file ls).Private :=
  (h.invariant (fun _ _ hs hok ↦ hs.step hok) Sys.inv_start).wire

instance (s : Sys) : Decidable s.Private :=
  inferInstanceAs (Decidable (∀ d ∈ s.wire, d.receiver = d.origin))

/-- A client asks for its profile. -/
def askProfile : Event :=
  .readable 0 [.got (lit "GET /profile HTTP/1.1\r\nAuthorization: Bearer abc\r\n\r\n")] ⟨[], []⟩

/-- A thread takes the task, finds no Redis connection, and answers 503. -/
def answerProfile : List Label := [.take 0, .call 0 .refused, .write 0 (.took 1000)]

/-- A client asks, another one arrives, and the task is run. -/
def twoClients : List Label :=
  [.accept 7 0, .insert, .event 0 askProfile] ++ List.replicate 8 (.act 0) ++ [.accept 8 0] ++
    answerProfile

/-- The first client gets its response. -/
theorem responses_private_twoClients :
    Meets (Sys.step none) Sys.NoReuse Sys.start twoClients ∧
      (Sys.start.run none twoClients).wire.map (·.receiver) = [0] ∧
      (Sys.start.run none twoClients).Private := by
  have hmeets : Meets (Sys.step none) Sys.NoReuse Sys.start twoClients := by decide +kernel
  exact ⟨hmeets, by decide +kernel, responses_private none twoClients hmeets⟩

/-- A client asks and leaves, another one arrives under its number, and the task is run. -/
def reusedNumber : List Label :=
  [.accept 7 0, .insert, .event 0 askProfile] ++ List.replicate 8 (.act 0) ++
    [.event 0 (.readable 1 [.got []] ⟨[], []⟩)] ++ List.replicate 3 (.act 0) ++ [.accept 7 2] ++
    answerProfile

/-- **The other client gets the response.** -/
theorem response_misdelivered :
    (Sys.start.run none reusedNumber).wire =
        [⟨0, 1, jsonResponse 503 (errorJson "service unavailable") true⟩] ∧
      ¬(Sys.start.run none reusedNumber).Private := by
  decide +kernel

end ReactorServer
