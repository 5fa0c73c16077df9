import ReactorServer.Server.Table
import ReactorServer.Lib.Machine

/-!
# A deleted connection stays deleted

The constructor of `Connection` registers the channel with the epoll of a sub-reactor, and only then
does `newConnection` put the connection in the table.  In between it is alive, and it can have
nothing better to do than to call `deleteConnection`, which finds no entry; then it is put in the
table, and stays there with its socket open (`deleted_then_inserted`).

That is the only way.  When no connection calls `deleteConnection` before it is in the table
(`Sys.Settled`), one that has called it is never seen there again (`deleted_stays_deleted`).
-/

set_option autoImplicit false

namespace ReactorServer

open Machine

namespace Sys

/-- No connection calls `deleteConnection` before it is in the table. -/
def Settled (s : Sys) (l : Label) : Prop := ∀ i ∈ s.invokes l, s.arriving.map Prod.snd ≠ some i

instance (s : Sys) (l : Label) : Decidable (s.Settled l) :=
  inferInstanceAs (Decidable (∀ i ∈ s.invokes l, s.arriving.map Prod.snd ≠ some i))

/-- The connections that have called `deleteConnection` are not in the table, and are not about to be
put there. -/
structure Gone (s : Sys) (deleted : List ℕ) : Prop where
  table : s.Table
  known : ∀ i ∈ deleted, i < s.clients.length
  absent : ∀ i ∈ deleted, ∀ fd, s.connections fd ≠ some i
  settled : ∀ fd i, s.arriving = some (fd, i) → i < s.clients.length ∧ i ∉ deleted

theorem gone_start : start.Gone [] where
  table := table_start
  known i hi := absurd hi (by simp)
  absent i hi := absurd hi (by simp)
  settled fd i hi := absurd hi (by simp [start])

variable {s s' : Sys} {deleted : List ℕ}

theorem Gone.of_sameTable (h : s.Gone deleted) (htable : s'.Table) (hsame : SameTable s s') :
    s'.Gone deleted where
  table := htable
  known i hi := by
    rw [hsame.clients]
    exact h.known i hi
  absent i hi fd := by
    rw [hsame.connections]
    exact h.absent i hi fd
  settled fd i hi := by
    rw [hsame.arriving] at hi
    rw [hsame.clients]
    exact h.settled fd i hi

/-- An entry stands under the descriptor of its connection. -/
theorem Table.fd_eq (h : s.Table) {fd i : ℕ} {c : Client} (hi : s.connections fd = some i)
    (hc : s.clients[i]? = some c) : c.conn.fd = fd := by
  obtain ⟨c', hc', hfd⟩ := h.sockets fd i (h.connections fd i hi)
  obtain rfl := Option.some.inj (hc.symm.trans hc')
  exact hfd

theorem deleteConnection_connections (s : Sys) (fd : ℕ) :
    (s.deleteConnection fd).connections = Function.update s.connections fd none := by
  rw [deleteConnection]
  by_cases hfd : (s.connections fd).isSome
  · rw [if_pos hfd]
  · have hnone : none = s.connections fd := (Option.not_isSome_iff_eq_none.mp hfd).symm
    rw [if_neg hfd, Function.update_eq_self_iff.mpr hnone]

theorem deleteConnection_arriving (s : Sys) (fd : ℕ) :
    (s.deleteConnection fd).arriving = s.arriving := by
  rw [deleteConnection]
  split <;> rfl

theorem Gone.step (h : s.Gone deleted) {file : Option Bytes} {l : Label} (hl : s.Settled l) :
    (s.step file l).Gone (deleted ++ s.invokes l) := by
  have htable := h.table.step file l
  rcases table_cases file s l with ⟨fd, now, rfl, -, harr, e⟩ | ⟨fd, i, rfl, harr, e⟩ |
    ⟨i, c, todo, rfl, hc, htodo, e⟩ | ⟨hsame, -, hnone⟩
  · rw [e] at htable ⊢
    rw [show s.invokes (.accept fd now) = [] from rfl, List.append_nil]
    refine ⟨htable, fun j hj ↦ ?_, h.absent, fun fd' j hj ↦ ?_⟩
    · rw [List.length_append]
      exact Nat.lt_succ_of_lt (h.known j hj)
    · obtain ⟨-, rfl⟩ : fd = fd' ∧ s.clients.length = j := by simpa using hj
      -- a new connection has not done anything yet
      refine ⟨by simp, fun hj ↦ ?_⟩
      exact absurd (h.known _ hj) (by omega)
  · rw [e] at htable ⊢
    rw [show s.invokes .insert = [] from rfl, List.append_nil]
    refine ⟨htable, h.known, fun j hj fd' ↦ ?_, fun fd' j hj ↦ absurd hj (by simp)⟩
    by_cases hfd : fd' = fd
    · subst hfd
      show Function.update s.connections fd' (some i) fd' ≠ some j
      rw [Function.update_self]
      rintro ⟨rfl⟩
      exact (h.settled fd' i harr).2 hj
    · show Function.update s.connections fd (some i) fd' ≠ some j
      rw [Function.update_of_ne hfd]
      exact h.absent j hj fd'
  · have hinvokes := invokes_delete hc htodo
    have hlen := (List.getElem?_eq_some_iff.mp hc).1
    rw [e] at htable ⊢
    rw [hinvokes]
    have hclients : (deleteConnection { s with clients := s.clients.set i { c with todo := todo } }
        c.conn.fd).clients.length = s.clients.length := by
      rw [deleteConnection_clients, List.length_set]
    refine ⟨htable, fun j hj ↦ ?_, fun j hj fd ↦ ?_, fun fd j hj ↦ ?_⟩
    · rw [hclients]
      rcases List.mem_append.mp hj with hj | hj
      · exact h.known j hj
      · rw [List.mem_singleton.mp hj]
        exact hlen
    · rw [deleteConnection_connections]
      by_cases hfd : fd = c.conn.fd
      · rw [hfd, Function.update_self]
        simp
      · rw [Function.update_of_ne hfd]
        rcases List.mem_append.mp hj with hj | hj
        · exact h.absent j hj fd
        · -- the caller can be in the table only under its own descriptor
          obtain rfl := List.mem_singleton.mp hj
          exact fun hentry ↦ hfd (h.table.fd_eq hentry hc).symm
    · rw [deleteConnection_arriving] at hj
      rw [hclients]
      obtain ⟨hj', hnew⟩ := h.settled fd j hj
      refine ⟨hj', fun hmem ↦ ?_⟩
      rcases List.mem_append.mp hmem with hmem | hmem
      · exact hnew hmem
      · obtain rfl := List.mem_singleton.mp hmem
        refine hl j (by rw [hinvokes]; exact List.mem_singleton_self j) ?_
        rw [show s.arriving = some (fd, j) from hj]
        rfl
  · rw [hnone, List.append_nil]
    exact h.of_sameTable htable hsame

theorem gone_run {file : Option Bytes} {ls : List Label} (h : Meets (step file) Settled start ls) :
    (start.run file ls).Gone (trace (step file) invokes start ls) :=
  h.trace_invariant (fun _ _ _ h hl ↦ h.step hl) gone_start

end Sys

/-- **A deleted connection stays deleted.**  In every run in which no connection calls
`deleteConnection` before it is in the table, one that has called it is not in the table with its
socket open, in any later state. -/
theorem deleted_stays_deleted (file : Option Bytes) (ls : List Label)
    (h : Meets (Sys.step file) Sys.Settled Sys.start ls) :
    ∀ i ∈ trace (Sys.step file) Sys.invokes Sys.start ls, ∀ fd,
      ¬((Sys.start.run file ls).connections fd = some i ∧
        (Sys.start.run file ls).sockets fd = some i) := by
  intro i hi fd hentry
  exact (Sys.gone_run h).absent i hi fd hentry.1

/-- A peer that goes away again at once: an end of the input, and nothing before it. -/
def Event.hangUp : Event := .readable 0 [.got []] ⟨[], []⟩

/-- A connection that is in the table when its peer goes away. -/
theorem deleted_stays_deleted_hangUp :
    trace (Sys.step none) Sys.invokes Sys.start
        [.accept 5 0, .insert, .event 0 .hangUp, .act 0, .act 0, .act 0, .accept 5 0, .insert] = [0] ∧
      ∀ fd, ¬((Sys.start.run none
          [.accept 5 0, .insert, .event 0 .hangUp, .act 0, .act 0, .act 0, .accept 5 0,
            .insert]).connections fd = some 0 ∧
        (Sys.start.run none
          [.accept 5 0, .insert, .event 0 .hangUp, .act 0, .act 0, .act 0, .accept 5 0,
            .insert]).sockets fd = some 0) :=
  ⟨by decide, deleted_stays_deleted none _ (by decide) 0 (by decide)⟩

/-- **A connection that is deleted and then put in the table.**  The peer goes away before
`newConnection` has got that far. -/
theorem deleted_then_inserted :
    trace (Sys.step none) Sys.invokes Sys.start
        [.accept 5 0, .event 0 .hangUp, .act 0, .act 0, .act 0, .insert] = [0] ∧
      (Sys.start.run none
        [.accept 5 0, .event 0 .hangUp, .act 0, .act 0, .act 0, .insert]).connections 5 = some 0 ∧
      (Sys.start.run none
        [.accept 5 0, .event 0 .hangUp, .act 0, .act 0, .act 0, .insert]).sockets 5 = some 0 :=
  ⟨by decide, by decide, by decide⟩

end ReactorServer
