import ReactorServer.Server.Table
import ReactorServer.Lib.Machine

/-!
# The event loops

`Sys` lets any handler run at any time, as long as the connection has its socket and no handler is
running on it.  In the code it is the loops that see to this.  Each sub-reactor asks its epoll for a
batch of channels, plain pointers, and goes through it one by one; the channels belong to
connections, which handlers destroy, and whose numbers the main reactor gives to new ones in the
meantime.

`Loops` is the server with its sub-reactors.  The channel of a connection is registered with the
sub-reactor `fd % size`, from its construction until its socket is closed.  A loop does not look
whether a channel still exists before it calls `handleEvent`.  It does not have to
(`channels_alive`): what is left of a batch belongs to connections that are alive and on which no
handler is running, since only the handlers of a connection destroy it, and they run on its own
loop.
-/

set_option autoImplicit false

namespace ReactorServer

open Machine

/-- The connection whose handler makes the move, if one does. -/
def Label.subject : Label → Option ℕ
  | .event i _ => some i
  | .act i => some i
  | _ => none

/-- The channel of a connection is registered with this sub-reactor. -/
def Sys.Registered (s : Sys) (size j i : ℕ) : Prop :=
  ∃ c, s.clients[i]? = some c ∧ s.sockets c.conn.fd = some i ∧ c.conn.fd % size = j

instance (s : Sys) (size j i : ℕ) : Decidable (s.Registered size j i) :=
  decidable_of_iff (∃ c ∈ s.clients[i]?, s.sockets c.conn.fd = some i ∧ c.conn.fd % size = j)
    Iff.rfl

/-- The server and its sub-reactors: the channels that each has still to handle in this turn of its
loop, and the connection whose handler it has called last in this turn. -/
structure Loops where
  sys : Sys
  batch : ℕ → List ℕ
  current : ℕ → Option ℕ

/-- The moves. -/
inductive Turn where
  /-- One that is not of a sub-reactor. -/
  | other (l : Label)
  /-- `activeChannels` returns these channels. -/
  | poll (j : ℕ) (ready : List ℕ)
  /-- `handleEvent` of the next one is called. -/
  | next (j : ℕ) (e : Event)
  /-- The handler that is running performs its next action. -/
  | act (j : ℕ)
  deriving DecidableEq, Repr

namespace Loops

/-- The server before its first connection. -/
def start : Loops := ⟨.start, fun _ ↦ [], fun _ ↦ none⟩

/-- The handler that this sub-reactor called last has returned. -/
def Idle (b : Loops) (j : ℕ) : Prop := ∀ i ∈ b.current j, ∀ c ∈ b.sys.clients[i]?, c.todo = []

instance (b : Loops) (j : ℕ) : Decidable (b.Idle j) :=
  inferInstanceAs (Decidable (∀ i ∈ b.current j, ∀ c ∈ b.sys.clients[i]?, c.todo = []))

/-- One move; one that is not possible changes nothing. -/
def step (size : ℕ) (file : Option Bytes) (b : Loops) : Turn → Loops
  | .other l => if l.subject = none then { b with sys := b.sys.step file l } else b
  | .poll j ready =>
    -- epoll reports what is registered, and each of it once
    if b.Idle j ∧ b.batch j = [] ∧ ready.Nodup ∧ ∀ i ∈ ready, b.sys.Registered size j i then
      { b with batch := Function.update b.batch j ready, current := Function.update b.current j none }
    else b
  | .next j e =>
    match b.batch j with
    | [] => b
    | i :: rest =>
      if b.Idle j then
        { sys := b.sys.step file (.event i e), batch := Function.update b.batch j rest
          current := Function.update b.current j (some i) }
      else b
  | .act j =>
    match b.current j with
    | none => b
    | some i => { b with sys := b.sys.step file (.act i) }

/-- Some moves, one after another. -/
def run (size : ℕ) (file : Option Bytes) (b : Loops) (ts : List Turn) : Loops :=
  ts.foldl (step size file) b

end Loops

/-! ## What a move of the server does to the other connections -/

namespace Sys

variable {s : Sys} {i : ℕ} {c : Client} (file : Option Bytes)

/-- A connection that a move is not about keeps its descriptor, and what it has still to do. -/
theorem step_other (hc : s.clients[i]? = some c) {l : Label} (hl : l.subject ≠ some i) :
    ∃ c', (s.step file l).clients[i]? = some c' ∧ c'.conn = c.conn ∧ c'.todo = c.todo := by
  have hlt := (List.getElem?_eq_some_iff.mp hc).1
  have hmodify : ∀ {clients : List Client} {j : ℕ} {a : ℕ × ℕ}, clients[i]? = some c →
      ∃ c', (clients.modify j (·.addReply a))[i]? = some c' ∧ c'.conn = c.conn ∧ c'.todo = c.todo := by
    intro clients j a hc
    rw [List.getElem?_modify, hc]
    by_cases hj : j = i
    · exact ⟨c.addReply a, congrArg some (if_pos hj), rfl, rfl⟩
    · exact ⟨c, congrArg some (if_neg hj), rfl, rfl⟩
  cases l with
  | accept fd now =>
    rw [step]
    split
    · exact ⟨c, by rw [List.getElem?_append_left hlt, hc], rfl, rfl⟩
    · exact ⟨c, hc, rfl, rfl⟩
  | insert =>
    rw [step]
    split
    · exact ⟨c, hc, rfl, rfl⟩
    · exact ⟨c, hc, rfl, rfl⟩
  | event i' e =>
    have hne : i' ≠ i := fun e ↦ hl (congrArg some e)
    rcases step_event_cases file s i' e with h | ⟨c₀, -, -, -, h⟩
    · exact ⟨c, by rw [h, hc], rfl, rfl⟩
    · exact ⟨c, by rw [h, List.getElem?_set_ne hne, hc], rfl, rfl⟩
  | act i' =>
    have hne : i' ≠ i := fun e ↦ hl (congrArg some e)
    rcases step_act_cases file s i' with ⟨-, h⟩ | ⟨c₀, a, todo, -, -, h⟩
    · exact ⟨c, by rw [h, hc], rfl, rfl⟩
    · have hset : (s.clients.set i' { c₀.note a with todo := todo })[i]? = some c := by
        rw [List.getElem?_set_ne hne, hc]
      rw [h]
      cases a with
      | delete =>
        rw [effect, deleteConnection_clients]
        exact ⟨c, hset, rfl, rfl⟩
      | complete =>
        rw [effect, logReply]
        split
        · exact ⟨c, hset, rfl, rfl⟩
        · exact hmodify hset
      | _ => exact ⟨c, hset, rfl, rfl⟩
  | take w =>
    rcases step_take_cases file s w with h | ⟨t, queue, -, -, h⟩
    all_goals exact ⟨c, by rw [h, hc], rfl, rfl⟩
  | call w out =>
    rcases step_call_cases file s w out with h | ⟨k, o, next, store, r, -, -, -, -, h⟩
    all_goals exact ⟨c, by rw [h, hc], rfl, rfl⟩
  | write w r =>
    rcases step_write_cases file s w r with h | ⟨k, statusCode, body, next, -, -, hcases⟩
    · exact ⟨c, by rw [h, hc], rfl, rfl⟩
    rcases hcases with ⟨-, h⟩ | ⟨j, n, data, -, -, -, ⟨-, h⟩ | h⟩
    · exact ⟨c, by rw [h, hc], rfl, rfl⟩
    · exact ⟨c, by rw [h, hc], rfl, rfl⟩
    · rw [h]
      exact hmodify hc
  | expire key => exact ⟨c, hc, rfl, rfl⟩

/-- **Only a handler of a connection with the same descriptor closes a socket.** -/
theorem step_sockets (h : s.Table) {fd : ℕ} (hopen : s.sockets fd = some i) {l : Label}
    (hl : ∀ i' c', l = .act i' → s.clients[i']? = some c' → c'.conn.fd ≠ fd) :
    (s.step file l).sockets fd = some i := by
  rcases table_cases file s l with ⟨fd', now, rfl, hfree, -, e⟩ | ⟨fd', i', rfl, harr, e⟩ |
    ⟨i', c', todo, rfl, hc', -, e⟩ | ⟨hsame, -, -⟩
  · have hne : fd ≠ fd' := by
      rintro rfl
      rw [hfree] at hopen
      exact absurd hopen (by simp)
    rw [e]
    exact (Function.update_of_ne hne ..).trans hopen
  · obtain ⟨hnone, -⟩ := h.arriving fd' i' harr
    rw [e]
    show (if (s.connections fd').isSome then Function.update s.sockets fd' none else s.sockets) fd = _
    rw [if_neg (by simp [hnone])]
    exact hopen
  · rw [e, deleteConnection]
    split
    · exact (Function.update_of_ne (Ne.symm (hl i' c' rfl hc')) ..).trans hopen
    · exact hopen
  · rw [hsame.sockets]
    exact hopen

/-- Descriptors do not change. -/
theorem sameFds_step (s : Sys) (l : Label) : SameFds s (s.step file l) := by
  rcases table_cases file s l with ⟨fd, now, rfl, -, -, e⟩ | ⟨fd, i, rfl, -, e⟩ |
    ⟨i, c, todo, rfl, hc, -, e⟩ | ⟨-, hfds, -⟩
  · intro i c hc
    rw [e]
    exact ⟨c, (List.getElem?_append_left (List.getElem?_eq_some_iff.mp hc).1).trans hc, rfl⟩
  · rw [e]
    exact sameFds_of_eq rfl
  · rw [e]
    have hfd : ({ c with todo := todo } : Client).conn.fd = c.conn.fd := rfl
    exact sameFds_set hc hfd (deleteConnection_clients _ _)
  · exact hfds

/-- A connection that a move is not about was there before, or has nothing to do. -/
theorem step_other_inv {l : Label} (hl : l.subject ≠ some i)
    (hc : (s.step file l).clients[i]? = some c) (htodo : c.todo ≠ []) :
    ∃ c₀, s.clients[i]? = some c₀ ∧ c₀.conn = c.conn ∧ c₀.todo ≠ [] := by
  cases hc₀ : s.clients[i]? with
  | some c₀ =>
    obtain ⟨c', hc', hconn, htodo'⟩ := step_other file hc₀ hl
    obtain rfl := Option.some.inj (hc.symm.trans hc')
    exact ⟨c₀, rfl, hconn.symm, htodo' ▸ htodo⟩
  | none =>
    have hle := List.getElem?_eq_none_iff.mp hc₀
    have hlt := (List.getElem?_eq_some_iff.mp hc).1
    rcases table_cases file s l with ⟨fd, now, rfl, -, -, e⟩ | ⟨fd, i', rfl, -, e⟩ |
      ⟨i', c', todo, rfl, -, -, e⟩ | ⟨hsame, -, -⟩
    · -- it has just been accepted
      rw [e] at hc hlt
      obtain rfl : i = s.clients.length := by
        rw [List.length_append, List.length_singleton] at hlt
        omega
      rw [List.getElem?_concat_length] at hc
      rw [← Option.some.inj hc] at htodo
      exact absurd rfl htodo
    · rw [e] at hlt
      exact absurd hlt (by simpa using hle)
    · rw [e, deleteConnection_clients, List.length_set] at hlt
      omega
    · rw [hsame.clients] at hlt
      omega

end Sys

/-! ## The invariant -/

namespace Loops

/-- The connection is alive, on this sub-reactor, and no handler is running on it. -/
def Waiting (size : ℕ) (s : Sys) (j i : ℕ) : Prop :=
  ∃ c, s.clients[i]? = some c ∧ s.sockets c.conn.fd = some i ∧ c.conn.fd % size = j ∧ c.todo = []

/-- **What holds in every state**: what is left of a batch is waiting, a sub-reactor runs handlers of
its own connections only, and nobody else does. -/
structure Inv (size : ℕ) (b : Loops) : Prop where
  table : b.sys.Table
  batch : ∀ j, ∀ i ∈ b.batch j, Waiting size b.sys j i
  nodup : ∀ j, (b.batch j).Nodup
  current : ∀ j i, b.current j = some i → ∃ c, b.sys.clients[i]? = some c ∧ c.conn.fd % size = j ∧
    ∀ i' ∈ b.batch j, ∀ c', b.sys.clients[i']? = some c' → c'.conn.fd ≠ c.conn.fd
  busy : ∀ i c, b.sys.clients[i]? = some c → c.todo ≠ [] → b.current (c.conn.fd % size) = some i

variable {size : ℕ} {file : Option Bytes} {b : Loops}

theorem inv_start : Inv size start where
  table := Sys.table_start
  batch j i hi := absurd hi List.not_mem_nil
  nodup j := .nil
  current j i hi := absurd hi (by simp [start])
  busy i c hc := absurd hc (by simp [start, Sys.start])

/-- What waits goes on waiting while something else is going on. -/
theorem Waiting.step {s : Sys} {j i : ℕ} (h : Waiting size s j i) (htable : s.Table) {l : Label}
    (hl : l.subject ≠ some i)
    (hfd : ∀ i' c' c, l = .act i' → s.clients[i']? = some c' → s.clients[i]? = some c →
      c'.conn.fd ≠ c.conn.fd) : Waiting size (s.step file l) j i := by
  obtain ⟨c, hc, hopen, hj, htodo⟩ := h
  obtain ⟨c', hc', hconn, htodo'⟩ := Sys.step_other file hc hl
  refine ⟨c', hc', ?_, hconn ▸ hj, htodo'.trans htodo⟩
  rw [hconn]
  exact Sys.step_sockets file htable hopen fun i' c' hl hc' ↦ hfd i' c' c hl hc' hc

/-- Two connections that have their sockets have two. -/
theorem fd_ne {s : Sys} {i i' : ℕ} {c c' : Client} (hopen : s.sockets c.conn.fd = some i)
    (hopen' : s.sockets c'.conn.fd = some i') (hne : i ≠ i') : c.conn.fd ≠ c'.conn.fd := by
  intro e
  rw [e] at hopen
  exact hne (Option.some.inj (hopen.symm.trans hopen'))

/-- The connection that a sub-reactor is at keeps apart from what waits there. -/
theorem Inv.current_step (h : b.Inv size) {j i : ℕ} (hi : b.current j = some i) (l : Label) :
    ∃ c, (b.sys.step file l).clients[i]? = some c ∧ c.conn.fd % size = j ∧
      ∀ i' ∈ b.batch j, ∀ c', (b.sys.step file l).clients[i']? = some c' → c'.conn.fd ≠ c.conn.fd := by
  obtain ⟨c, hc, hj, hapart⟩ := h.current j i hi
  obtain ⟨c', hc', e⟩ := Sys.sameFds_step file b.sys l i c hc
  refine ⟨c', hc', e ▸ hj, fun i' hi' c₁ hc₁ ↦ ?_⟩
  obtain ⟨c₂, hc₂, -⟩ := h.batch j i' hi'
  obtain ⟨c₃, hc₃, e₃⟩ := Sys.sameFds_step file b.sys l i' c₂ hc₂
  obtain rfl := Option.some.inj (hc₁.symm.trans hc₃)
  rw [e, e₃]
  exact hapart i' hi' c₂ hc₂

/-- **A move that is not the call of a handler**: it is none of a sub-reactor, or the next action of a
handler that one has called. -/
theorem Inv.move (h : b.Inv size) {l : Label}
    (hl : l.subject = none ∨ ∃ j i, l = .act i ∧ b.current j = some i) :
    Inv size { b with sys := b.sys.step file l } := by
  -- the descriptor of what runs is not that of anything that waits
  have hfd : ∀ j i c, i ∈ b.batch j → b.sys.clients[i]? = some c → ∀ i' c', l = .act i' →
      b.sys.clients[i']? = some c' → c'.conn.fd ≠ c.conn.fd := by
    rintro j i c hi hc i' c' rfl hc' e
    obtain ⟨j', i₀, he, hcurrent⟩ := hl.resolve_left (by simp [Label.subject])
    obtain rfl : i' = i₀ := by simpa using he
    obtain ⟨c₁, hc₁, hj', hapart⟩ := h.current j' i' hcurrent
    obtain rfl := Option.some.inj (hc'.symm.trans hc₁)
    obtain ⟨c₂, hc₂, -, hj, -⟩ := h.batch j i hi
    obtain rfl := Option.some.inj (hc.symm.trans hc₂)
    obtain rfl : j' = j := by rw [← hj', ← hj, e]
    exact hapart i hi c hc e.symm
  have hsubject : ∀ j i, i ∈ b.batch j → l.subject ≠ some i := by
    intro j i hi e
    obtain ⟨c, hc, -⟩ := h.batch j i hi
    rcases hl with hl | ⟨j', i', rfl, -⟩
    · exact absurd (hl.symm.trans e) (by simp)
    · obtain rfl : i' = i := by simpa [Label.subject] using e
      exact hfd j i' c hi hc i' c rfl hc rfl
  refine ⟨h.table.step file l, fun j i hi ↦ ?_, h.nodup, fun j i hi ↦ h.current_step hi l,
    fun i c hc htodo ↦ ?_⟩
  · exact (h.batch j i hi).step h.table (hsubject j i hi) fun i' c' c hl hc' hc ↦
      hfd j i c hi hc i' c' hl hc'
  · by_cases hsub : l.subject = some i
    · rcases hl with hl | ⟨j, i', rfl, hcurrent⟩
      · exact absurd (hl.symm.trans hsub) (by simp)
      · obtain rfl : i' = i := by simpa [Label.subject] using hsub
        obtain ⟨c₀, hc₀, hj, -⟩ := h.current j i' hcurrent
        obtain ⟨c₁, hc₁, e⟩ := Sys.sameFds_step file b.sys (.act i') i' c₀ hc₀
        obtain rfl := Option.some.inj (hc.symm.trans hc₁)
        rw [e, hj]
        exact hcurrent
    · obtain ⟨c₀, hc₀, hconn, htodo₀⟩ := Sys.step_other_inv file hsub hc htodo
      rw [← hconn]
      exact h.busy i c₀ hc₀ htodo₀

/-- A batch is fetched. -/
theorem Inv.poll (h : b.Inv size) {j : ℕ} {ready : List ℕ} (hidle : b.Idle j) (hnodup : ready.Nodup)
    (hready : ∀ i ∈ ready, b.sys.Registered size j i) :
    Inv size { b with batch := Function.update b.batch j ready
                      current := Function.update b.current j none } := by
  -- of the connections of this sub-reactor, only the last one it called could have something to do
  have hdone : ∀ (i : ℕ) (c : Client), b.sys.clients[i]? = some c → c.conn.fd % size = j →
      c.todo = [] := by
    intro i c hc hj
    by_contra htodo
    have hcurrent := h.busy i c hc htodo
    rw [hj] at hcurrent
    exact htodo (hidle i hcurrent c hc)
  refine ⟨h.table, fun j' i hi ↦ ?_, fun j' ↦ ?_, fun j' i hi ↦ ?_, fun i c hc htodo ↦ ?_⟩
  · by_cases hj : j' = j
    · subst hj
      simp only [Function.update_self] at hi
      obtain ⟨c, hc, hopen, hj'⟩ := hready i hi
      exact ⟨c, hc, hopen, hj', hdone i c hc hj'⟩
    · simp only [Function.update_of_ne hj] at hi
      exact h.batch j' i hi
  · by_cases hj : j' = j
    · subst hj
      simpa using hnodup
    · simpa [Function.update_of_ne hj] using h.nodup j'
  · by_cases hj : j' = j
    · subst hj
      simp at hi
    · simp only [Function.update_of_ne hj] at hi ⊢
      exact h.current j' i hi
  · have hne : c.conn.fd % size ≠ j := fun hj ↦ htodo (hdone i c hc hj)
    simp only [Function.update_of_ne hne]
    exact h.busy i c hc htodo

/-- The next handler is called. -/
theorem Inv.next (h : b.Inv size) {j i : ℕ} {rest : List ℕ} {e : Event} (hbatch : b.batch j = i :: rest)
    (hidle : b.Idle j) :
    Inv size { sys := b.sys.step file (.event i e), batch := Function.update b.batch j rest
               current := Function.update b.current j (some i) } := by
  obtain ⟨c, hc, hopen, hj, htodo⟩ := h.batch j i (by simp [hbatch])
  have hnodup := h.nodup j
  rw [hbatch, List.nodup_cons] at hnodup
  have hmem : ∀ j' i', i' ∈ Function.update b.batch j rest j' → i' ∈ b.batch j' ∧ i' ≠ i := by
    intro j' i' hi'
    by_cases hj' : j' = j
    · subst hj'
      rw [Function.update_self] at hi'
      rw [hbatch]
      exact ⟨List.mem_cons_of_mem _ hi', fun e ↦ hnodup.1 (e ▸ hi')⟩
    · rw [Function.update_of_ne hj'] at hi'
      refine ⟨hi', ?_⟩
      rintro rfl
      obtain ⟨c', hc', -, hj'', -⟩ := h.batch j' i' hi'
      obtain rfl := Option.some.inj (hc.symm.trans hc')
      exact hj' (hj''.symm.trans hj)
  have hwaiting : ∀ j' i', i' ∈ Function.update b.batch j rest j' →
      Waiting size (b.sys.step file (.event i e)) j' i' := by
    intro j' i' hi'
    obtain ⟨hmem', hne⟩ := hmem j' i' hi'
    exact (h.batch j' i' hmem').step h.table (by simpa [Label.subject] using Ne.symm hne) (by simp)
  obtain ⟨c₁, hc₁, e₁⟩ := Sys.sameFds_step file b.sys (.event i e) i c hc
  refine ⟨h.table.step file (.event i e), hwaiting, fun j' ↦ ?_, fun j' i' hi' ↦ ?_, fun i' c' hc' htodo' ↦ ?_⟩
  · by_cases hj' : j' = j
    · subst hj'
      simpa using hnodup.2
    · simpa [Function.update_of_ne hj'] using h.nodup j'
  · by_cases hj' : j' = j
    · subst hj'
      obtain rfl : i = i' := by simpa using hi'
      refine ⟨c₁, hc₁, e₁ ▸ hj, fun i' hi' c' hc' ↦ ?_⟩
      obtain ⟨c₂, hc₂, hopen₂, -⟩ := hwaiting j' i' hi'
      obtain rfl := Option.some.inj (hc'.symm.trans hc₂)
      have hopen₁ : (b.sys.step file (.event i e)).sockets c₁.conn.fd = some i := by
        rw [e₁]
        exact Sys.step_sockets file h.table hopen (by simp)
      exact fd_ne hopen₂ hopen₁ (hmem j' i' hi').2
    · simp only [Function.update_of_ne hj'] at hi' ⊢
      exact h.current_step hi' _
  · by_cases hi' : i = i'
    · subst hi'
      obtain rfl := Option.some.inj (hc'.symm.trans hc₁)
      rw [e₁, hj]
      exact Function.update_self ..
    · obtain ⟨c₀, hc₀, hconn, htodo₀⟩ :=
        Sys.step_other_inv file (by simpa [Label.subject] using hi') hc' htodo'
      have hcurrent := h.busy i' c₀ hc₀ htodo₀
      -- the sub-reactor that has something to do is not the one that was idle
      have hne : c'.conn.fd % size ≠ j := by
        intro hj'
        rw [hconn, hj'] at hcurrent
        exact htodo₀ (hidle i' hcurrent c₀ hc₀)
      show Function.update b.current j (some i) (c'.conn.fd % size) = some i'
      rw [Function.update_of_ne hne, ← hconn]
      exact hcurrent

theorem Inv.step (h : b.Inv size) (t : Turn) : (b.step size file t).Inv size := by
  cases t with
  | other l =>
    rw [Loops.step]
    split
    · next hl => exact h.move (.inl hl)
    · exact h
  | poll j ready =>
    rw [Loops.step]
    split
    · next hpoll => exact h.poll hpoll.1 hpoll.2.2.1 hpoll.2.2.2
    · exact h
  | next j e =>
    rw [Loops.step]
    split
    · exact h
    · next i rest hbatch =>
      split
      · next hidle => exact h.next hbatch hidle
      · exact h
  | act j =>
    rw [Loops.step]
    split
    · exact h
    · next i hcurrent => exact h.move (.inr ⟨j, i, rfl, hcurrent⟩)

theorem inv_run (size : ℕ) (file : Option Bytes) (ts : List Turn) : (start.run size file ts).Inv size :=
  List.foldlRecOn ts (step size file) inv_start fun _ h t _ ↦ h.step t

end Loops

/-- **Every channel that a sub-reactor has still to handle is alive**, whatever the reactors and the
pool do: it belongs to a connection that has its socket, is on this sub-reactor, and on which no handler
is running.  And a handler is running on a connection only at its own sub-reactor. -/
theorem channels_alive (size : ℕ) (file : Option Bytes) (ts : List Turn) :
    (∀ j, ∀ i ∈ (Loops.start.run size file ts).batch j,
      ∃ c, (Loops.start.run size file ts).sys.clients[i]? = some c ∧
        (Loops.start.run size file ts).sys.sockets c.conn.fd = some i ∧ c.conn.fd % size = j ∧
        c.todo = []) ∧
      ∀ i c, (Loops.start.run size file ts).sys.clients[i]? = some c → c.todo ≠ [] →
        ∀ j, (Loops.start.run size file ts).current j = some i ↔ j = c.conn.fd % size := by
  have hinv := Loops.inv_run size file ts
  refine ⟨hinv.batch, fun i c hc htodo j ↦ ⟨fun hcurrent ↦ ?_, ?_⟩⟩
  · obtain ⟨c', hc', hj, -⟩ := hinv.current j i hcurrent
    obtain rfl := Option.some.inj (hc.symm.trans hc')
    exact hj.symm
  · rintro rfl
    exact hinv.busy i c hc htodo

/-- A handler is called only on a connection that has its socket, and on which none is running. -/
def Sys.Callable (s : Sys) : Label → Prop
  | .event i _ => ∃ c, s.clients[i]? = some c ∧ s.sockets c.conn.fd = some i ∧ c.todo = []
  | _ => True

theorem Sys.callable_of_subject {s : Sys} {l : Label} (h : ∀ i e, l ≠ .event i e) : s.Callable l := by
  cases l with
  | event i e => exact absurd rfl (h i e)
  | _ => trivial

/-- What a move of the loops is to the server. -/
theorem Loops.Inv.matched {size : ℕ} {file : Option Bytes} {b : Loops} (h : b.Inv size) (t : Turn) :
    ∃ ls, Meets (Sys.step file) Sys.Callable b.sys ls ∧ (b.step size file t).sys = b.sys.run file ls := by
  cases t with
  | other l =>
    rw [Loops.step]
    split
    · next hl =>
      refine ⟨[l], ⟨Sys.callable_of_subject ?_, trivial⟩, rfl⟩
      rintro i e rfl
      exact absurd hl (by simp [Label.subject])
    · exact ⟨[], trivial, rfl⟩
  | poll j ready =>
    rw [Loops.step]
    split <;> exact ⟨[], trivial, rfl⟩
  | next j e =>
    rw [Loops.step]
    split
    · exact ⟨[], trivial, rfl⟩
    · next i rest hbatch =>
      split
      · obtain ⟨c, hc, hopen, -, htodo⟩ := h.batch j i (by simp [hbatch])
        exact ⟨[.event i e], ⟨⟨c, hc, hopen, htodo⟩, trivial⟩, rfl⟩
      · exact ⟨[], trivial, rfl⟩
  | act j =>
    rw [Loops.step]
    split
    · exact ⟨[], trivial, rfl⟩
    · next i hcurrent => exact ⟨[.act i], ⟨Sys.callable_of_subject (by simp), trivial⟩, rfl⟩

/-- **The loops refine the server**: whatever they do, the connections, the table and the pool end up
as after a run of `Sys` in which no handler is called where it should not be. -/
theorem loops_refine_server (size : ℕ) (file : Option Bytes) (ts : List Turn) :
    ∃ ls, Meets (Sys.step file) Sys.Callable Sys.start ls ∧
      (Loops.start.run size file ts).sys = Sys.start.run file ls := by
  have hmeets : Meets (Loops.step size file) (fun _ _ ↦ True) Loops.start ts :=
    meets_of_forall (fun _ _ _ ↦ trivial) _
  obtain ⟨ls, hls, -, hsys⟩ : ∃ ls, Meets (Sys.step file) Sys.Callable Sys.start ls ∧
      (Loops.start.run size file ts).Inv size ∧
        (Loops.start.run size file ts).sys = Sys.start.run file ls := by
    refine hmeets.simulates (R := fun b s ↦ b.Inv size ∧ b.sys = s) ?_ ⟨Loops.inv_start, rfl⟩
    rintro b _ t ⟨hinv, rfl⟩ -
    obtain ⟨ls, hls, hsys⟩ := hinv.matched t
    exact ⟨ls, hls, hinv.step t, hsys⟩
  exact ⟨ls, hls, hsys⟩

/-- Two connections of one sub-reactor are reported together, and the first hangs up: the second is
alive when its turn comes, although the number of the first belongs to a third one by then. -/
example : (Loops.start.run 4 none
    [.other (.accept 4 0), .other .insert, .other (.accept 8 0), .other .insert, .poll 0 [0, 1],
      .next 0 (.readable 0 [.got []] ⟨[], []⟩), .act 0, .act 0, .act 0, .other (.accept 4 0)]).batch 0 =
      [1] := by
  decide

end ReactorServer
