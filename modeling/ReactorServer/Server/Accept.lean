import ReactorServer.Server.Loops

/-!
# The main reactor

The kernel completes connections at its own pace and keeps them in a queue, and the main reactor takes
them off it: `epoll_wait` reports the listening socket, `acceptConnection` calls `accept` until there
is nothing left, and `newConnection` is called with what it returns.  Between two calls of `accept`
everybody else makes moves, and the peer of a connection that is still in the queue may give up, which
`accept` reports as an error.  Any error but `EINTR` ends the loop of `acceptConnection`, even if there
are connections left.

`Reception` is the server with its main reactor.  Connections are numbered in the order in which the
kernel completes them.  They are handed to `newConnection` in this order, and none twice
(`accepted_in_order`).  None is forgotten either: the listening socket is registered without `EPOLLET`,
so it is reported again as long as there is something in the queue, and when a call of
`acceptConnection` does not fail, what was in the queue at its beginning has been handed over at its
end (`drain_serves_backlog`).
-/

set_option autoImplicit false

namespace ReactorServer

open Machine

/-- What the main reactor is at. -/
inductive MainPhase where
  /-- In `epoll_wait` -/
  | polling
  /-- In `acceptConnection` -/
  | draining
  /-- In `loopCallback_` -/
  | housekeeping
  deriving DecidableEq, Repr

/-- The result of `accept`. -/
inductive AcceptResult where
  | took (fd now : ℕ)
  | EAGAIN
  | EINTR
  /-- Another error.  It may be one of the connection at the front of the queue, which is gone then. -/
  | failed (gone : Bool)
  deriving DecidableEq, Repr

/-- The server and its main reactor. -/
structure Reception where
  loops : Loops
  phase : MainPhase
  /-- How many connections the kernel has completed. -/
  arrived : ℕ
  /-- Those that have not been accepted, the oldest first. -/
  backlog : List ℕ
  /-- Those that have failed before they were. -/
  aborted : List ℕ
  /-- Those that have been handed to `newConnection`, in this order. -/
  handed : List ℕ

/-- The moves. -/
inductive Knock where
  /-- The kernel completes a connection. -/
  | connect
  /-- `epoll_wait` of the main reactor returns, or is interrupted. -/
  | poll (interrupted : Bool)
  /-- `acceptConnection` calls `accept`, and `newConnection` if there is a connection. -/
  | accept (r : AcceptResult)
  /-- `newConnection` puts the connection in the table. -/
  | insert
  /-- `loopCallback_` returns. -/
  | callback
  /-- Somebody else makes a move. -/
  | turn (t : Turn)
  deriving DecidableEq, Repr

/-- The move is one of the main reactor. -/
def Turn.isMain : Turn → Bool
  | .other (.accept ..) | .other .insert => true
  | _ => false

namespace Reception

/-- The server before its first connection. -/
def start : Reception := ⟨.start, .polling, 0, [], [], []⟩

/-- One turn of the loop of `acceptConnection`. -/
def acceptConnection (size : ℕ) (file : Option Bytes) (s : Reception) : AcceptResult → Reception
  | .took fd now =>
    match s.backlog with
    | [] => s
    | p :: backlog =>
      if s.loops.sys.sockets fd = none then
        { s with loops := s.loops.step size file (.other (.accept fd now)), backlog := backlog
                 handed := s.handed ++ [p] }
      else s
  | .EAGAIN => if s.backlog = [] then { s with phase := .housekeeping } else s
  | .EINTR => s
  | .failed gone =>
    match gone, s.backlog with
    | false, _ => { s with phase := .housekeeping }
    | true, [] => s
    | true, p :: backlog =>
      { s with phase := .housekeeping, backlog := backlog, aborted := s.aborted ++ [p] }

/-- One move; one that is not possible changes nothing. -/
def step (size : ℕ) (file : Option Bytes) (s : Reception) : Knock → Reception
  | .connect => { s with arrived := s.arrived + 1, backlog := s.backlog ++ [s.arrived] }
  | .poll interrupted =>
    -- the listening socket is reported if and only if there is something to accept
    if s.phase = .polling then
      { s with phase := if interrupted = false ∧ s.backlog ≠ [] then .draining else .housekeeping }
    else s
  | .accept r =>
    if s.phase = .draining ∧ s.loops.sys.arriving = none then s.acceptConnection size file r else s
  | .insert => { s with loops := s.loops.step size file (.other .insert) }
  | .callback => if s.phase = .housekeeping then { s with phase := .polling } else s
  | .turn t => if t.isMain then s else { s with loops := s.loops.step size file t }

/-- Some moves, one after another. -/
def run (size : ℕ) (file : Option Bytes) (s : Reception) (ks : List Knock) : Reception :=
  ks.foldl (step size file) s

variable {size : ℕ} {file : Option Bytes} {s : Reception}

/-! ## What a move does -/

/-- **What a move can do to the queue**: a connection comes in, the first one leaves it for
`newConnection` or because it has failed, or nothing happens to it. -/
inductive Change (size : ℕ) (file : Option Bytes) (s : Reception) : Reception → Prop
  | connect : Change size file s { s with arrived := s.arrived + 1, backlog := s.backlog ++ [s.arrived] }
  | hand {p fd now : ℕ} {backlog : List ℕ} (hbacklog : s.backlog = p :: backlog)
      (hfree : s.loops.sys.sockets fd = none) (harriving : s.loops.sys.arriving = none) :
      Change size file s
        { s with loops := s.loops.step size file (.other (.accept fd now)), backlog := backlog
                 handed := s.handed ++ [p] }
  | abort {p : ℕ} {backlog : List ℕ} (hbacklog : s.backlog = p :: backlog) :
      Change size file s
        { s with phase := .housekeeping, backlog := backlog, aborted := s.aborted ++ [p] }
  | phase (phase : MainPhase) : Change size file s { s with phase := phase }
  | turn {t : Turn} (ht : ∀ fd now, t ≠ .other (.accept fd now)) :
      Change size file s { s with loops := s.loops.step size file t }

theorem Change.same : Change size file s s := .phase s.phase

theorem step_change (k : Knock) : Change size file s (s.step size file k) := by
  cases k with
  | connect => exact .connect
  | poll interrupted =>
    rw [step]
    split
    · exact .phase _
    · exact .same
  | accept r =>
    rw [step]
    split
    · next hphase =>
      cases r with
      | took fd now =>
        rw [acceptConnection]
        split
        · exact .same
        · next p backlog hbacklog =>
          split
          · next hfree => exact .hand hbacklog hfree hphase.2
          · exact .same
      | EAGAIN =>
        rw [acceptConnection]
        split
        · exact .phase _
        · exact .same
      | EINTR => exact .same
      | failed gone =>
        rcases gone with _ | _
        · exact .phase .housekeeping
        rcases hbacklog : s.backlog with _ | ⟨p, backlog⟩
        · simp only [acceptConnection, hbacklog]
          exact .same
        · simp only [acceptConnection, hbacklog]
          exact .abort hbacklog
    · exact .same
  | insert => exact .turn (by simp)
  | callback =>
    rw [step]
    split
    · exact .phase _
    · exact .same
  | turn t =>
    rw [step]
    split
    · exact .same
    · next hmain =>
      refine .turn ?_
      rintro fd now rfl
      exact hmain rfl

/-! ## In order, and once -/

/-- The number of connections that have been accepted. -/
def clientCount (s : Reception) : ℕ := s.loops.sys.clients.length

/-- **What holds in every state.** -/
structure Inv (size : ℕ) (file : Option Bytes) (s : Reception) : Prop where
  /-- What has been handed over, and what waits, is in order. -/
  order : (s.handed ++ s.backlog).Pairwise (· < ·)
  /-- Every connection has been handed over, waits, or has failed. -/
  perm : List.Perm (s.handed ++ s.backlog ++ s.aborted) (List.range s.arrived)
  /-- For every one that has been handed over there is a `Connection`. -/
  clients : s.clientCount = s.handed.length
  /-- The rest of the server does what it can do. -/
  loops : ∃ ts, s.loops = Loops.start.run size file ts

theorem inv_start : Inv size file start where
  order := .nil
  perm := .refl _
  clients := rfl
  loops := ⟨[], rfl⟩

theorem run_concat (size : ℕ) (file : Option Bytes) (ts : List Turn) (t : Turn) :
    Loops.start.run size file (ts ++ [t]) = (Loops.start.run size file ts).step size file t := by
  rw [Loops.run, List.foldl_append]
  rfl

/-- A move of a sub-reactor, or of the pool, accepts nothing. -/
theorem length_clients_turn {b : Loops} {t : Turn} (ht : ∀ fd now, t ≠ .other (.accept fd now)) :
    (b.step size file t).sys.clients.length = b.sys.clients.length := by
  have hstep : ∀ l : Label, (∀ fd now, l ≠ .accept fd now) →
      (b.sys.step file l).clients.length = b.sys.clients.length := by
    intro l hl
    rcases Sys.table_cases file b.sys l with ⟨fd, now, rfl, -⟩ | ⟨fd, i, -, -, e⟩ |
      ⟨i, c, todo, -, -, -, e⟩ | ⟨hsame, -, -⟩
    · exact absurd rfl (hl fd now)
    · rw [e]
    · rw [e, Sys.deleteConnection_clients, List.length_set]
    · exact hsame.clients
  rcases t with l | ⟨j, ready⟩ | ⟨j, e⟩ | j
  · rw [Loops.step]
    split
    · exact hstep l fun fd now e ↦ ht fd now (congrArg Turn.other e)
    · rfl
  · rw [Loops.step]
    split <;> rfl
  · rw [Loops.step]
    split
    · rfl
    · split
      · exact hstep _ (by simp)
      · rfl
  · rw [Loops.step]
    split
    · rfl
    · exact hstep _ (by simp)

theorem length_clients_accept {b : Loops} {fd now : ℕ} (hfree : b.sys.sockets fd = none)
    (harriving : b.sys.arriving = none) :
    (b.step size file (.other (.accept fd now))).sys.clients.length = b.sys.clients.length + 1 := by
  have hstep : b.step size file (.other (.accept fd now)) =
      { b with sys := b.sys.step file (.accept fd now) } := rfl
  rw [hstep, Sys.step, if_pos ⟨hfree, harriving⟩]
  exact List.length_append

/-- **Every move keeps it.** -/
theorem Inv.change {s' : Reception} (h : s.Inv size file) (hc : Change size file s s') :
    s'.Inv size file := by
  obtain ⟨horder, hperm, hclients, ts, hts⟩ := h
  have hloops : ∀ t, ∃ ts, s.loops.step size file t = Loops.start.run size file ts := fun t ↦
    ⟨ts ++ [t], by rw [run_concat, ← hts]⟩
  cases hc with
  | connect =>
    refine ⟨?_, ?_, hclients, ts, hts⟩
    · rw [← List.append_assoc]
      refine List.pairwise_append.mpr ⟨horder, List.pairwise_singleton _ _, fun p hp q hq ↦ ?_⟩
      obtain rfl := List.mem_singleton.mp hq
      exact List.mem_range.mp (hperm.mem_iff.mp (List.mem_append_left _ hp))
    · rw [List.range_succ, ← List.append_assoc, List.append_assoc _ [s.arrived]]
      refine (List.Perm.append_left _ List.perm_append_comm).trans ?_
      rw [← List.append_assoc]
      exact hperm.append_right _
  | @hand p fd now backlog hbacklog hfree harriving =>
    have hmoved : s.handed ++ [p] ++ backlog = s.handed ++ s.backlog := by
      rw [hbacklog, List.append_assoc]
      rfl
    refine ⟨hmoved.symm ▸ horder, hmoved.symm ▸ hperm, ?_, hloops (.other (.accept fd now))⟩
    rw [clientCount, length_clients_accept hfree harriving, List.length_append, List.length_singleton]
    exact congrArg (· + 1) hclients
  | @abort p backlog hbacklog =>
    rw [hbacklog] at horder hperm
    refine ⟨?_, ?_, hclients, ts, hts⟩
    · exact horder.sublist (List.Sublist.append_left (List.sublist_cons_self p backlog) _)
    · refine List.Perm.trans ?_ hperm
      rw [← List.append_assoc]
      refine List.perm_append_comm.trans ?_
      rw [← List.append_assoc]
      have hmiddle : List.Perm (p :: (s.handed ++ backlog)) (s.handed ++ p :: backlog) :=
        List.perm_middle.symm
      exact hmiddle.append_right _
  | phase phase => exact ⟨horder, hperm, hclients, ts, hts⟩
  | @turn t ht =>
    refine ⟨horder, hperm, ?_, hloops t⟩
    rw [clientCount, length_clients_turn ht]
    exact hclients

theorem inv_run (size : ℕ) (file : Option Bytes) (ks : List Knock) :
    (start.run size file ks).Inv size file :=
  List.foldlRecOn ks (step size file) inv_start fun _ h k _ ↦ h.change (step_change k)

end Reception

/-- **Connections are accepted in the order in which the kernel completes them, and each once**: in
every state, those that have been handed to `newConnection` and those that wait are in order, every
other one has failed before its turn, and there is a `Connection` for each that was handed over.  What
the rest of the server does meanwhile is a run of `Loops`. -/
theorem accepted_in_order (size : ℕ) (file : Option Bytes) (ks : List Knock) :
    let s := Reception.start.run size file ks
    (s.handed ++ s.backlog).Pairwise (· < ·) ∧
      List.Perm (s.handed ++ s.backlog ++ s.aborted) (List.range s.arrived) ∧
      s.loops.sys.clients.length = s.handed.length ∧
      ∃ ts, s.loops = Loops.start.run size file ts := by
  obtain ⟨horder, hperm, hclients, hloops⟩ := Reception.inv_run size file ks
  exact ⟨horder, hperm, hclients, hloops⟩

/-- Three connections come in, the peer of the second gives up, and the third is accepted in the next
turn of the loop. -/
example : (Reception.start.run 4 none
    [.connect, .connect, .connect, .poll false, .accept (.took 4 0), .insert, .accept (.failed true),
      .callback, .poll false, .accept (.took 5 0)]).handed = [0, 2] := by
  decide

/-! ## None is forgotten -/

/-- `accept` fails, other than with `EAGAIN` or `EINTR`. -/
def Knock.isFailure : Knock → Bool
  | .accept (.failed _) => true
  | _ => false

namespace Reception

variable {size : ℕ} {file : Option Bytes} {s : Reception}

/-- A move in which `accept` does not fail loses nobody, and ends the loop of `acceptConnection` only
if nobody is left. -/
theorem step_of_not_isFailure (size : ℕ) (file : Option Bytes) (s : Reception) {k : Knock}
    (hk : k.isFailure = false) :
    (∀ p ∈ s.handed, p ∈ (s.step size file k).handed) ∧
      (∀ p ∈ s.backlog, p ∈ (s.step size file k).handed ∨ p ∈ (s.step size file k).backlog) ∧
      (s.phase = .draining → (s.step size file k).phase = .draining ∨ s.backlog = []) := by
  have hsame : (∀ p ∈ s.handed, p ∈ s.handed) ∧ (∀ p ∈ s.backlog, p ∈ s.handed ∨ p ∈ s.backlog) ∧
      (s.phase = .draining → s.phase = .draining ∨ s.backlog = []) :=
    ⟨fun _ hp ↦ hp, fun _ hp ↦ .inr hp, .inl⟩
  cases k with
  | connect => exact ⟨hsame.1, fun p hp ↦ .inr (List.mem_append_left _ hp), .inl⟩
  | poll interrupted =>
    rw [step]
    split
    · next hphase =>
      refine ⟨hsame.1, hsame.2.1, fun hdraining ↦ ?_⟩
      rw [hphase] at hdraining
      cases hdraining
    · exact hsame
  | accept r =>
    rw [step]
    split
    · cases r with
      | took fd now =>
        rw [acceptConnection]
        split
        · exact hsame
        · next q backlog hbacklog =>
          split
          · refine ⟨fun p hp ↦ List.mem_append_left _ hp, fun p hp ↦ ?_, .inl⟩
            rw [hbacklog] at hp
            rcases List.mem_cons.mp hp with rfl | hp
            · exact .inl (List.mem_append_right _ List.mem_cons_self)
            · exact .inr hp
          · exact hsame
      | EAGAIN =>
        rw [acceptConnection]
        split
        · next hnil => exact ⟨hsame.1, hsame.2.1, fun _ ↦ .inr hnil⟩
        · exact hsame
      | EINTR => exact hsame
      | failed gone => cases hk
    · exact hsame
  | insert => exact hsame
  | callback =>
    rw [step]
    split
    · next hphase =>
      refine ⟨hsame.1, hsame.2.1, fun hdraining ↦ ?_⟩
      rw [hphase] at hdraining
      cases hdraining
    · exact hsame
  | turn t =>
    rw [step]
    split
    · exact hsame
    · exact hsame

/-- These connections have been handed over, or are going to be before the loop ends. -/
def Serves (waiting : List ℕ) (s : Reception) : Prop :=
  (∀ p ∈ waiting, p ∈ s.handed) ∨
    s.phase = .draining ∧ ∀ p ∈ waiting, p ∈ s.handed ∨ p ∈ s.backlog

theorem Serves.step {waiting : List ℕ} {k : Knock} (h : s.Serves waiting) (hk : k.isFailure = false) :
    (s.step size file k).Serves waiting := by
  obtain ⟨hhanded, hbacklog, hphase⟩ := step_of_not_isFailure size file s hk
  rcases h with h | ⟨hdraining, h⟩
  · exact .inl fun p hp ↦ hhanded p (h p hp)
  · rcases hphase hdraining with hdraining | hnil
    · refine .inr ⟨hdraining, fun p hp ↦ ?_⟩
      rcases h p hp with hp | hp
      · exact .inl (hhanded p hp)
      · exact hbacklog p hp
    · refine .inl fun p hp ↦ ?_
      rcases h p hp with hp | hp
      · exact hhanded p hp
      · rw [hnil] at hp
        cases hp

theorem Serves.run {waiting : List ℕ} {ks : List Knock} (h : s.Serves waiting)
    (hks : ∀ k ∈ ks, k.isFailure = false) : (s.run size file ks).Serves waiting :=
  List.foldlRecOn ks (Reception.step size file) h fun _ h k hk ↦ h.step (hks k hk)

end Reception

/-- **None is forgotten**: when `epoll_wait` is called and is not interrupted, then as soon as the main
reactor is out of `acceptConnection` again, with no call of `accept` having failed, everybody who was
waiting has been handed over, whatever else has happened in between. -/
theorem drain_serves_backlog (size : ℕ) (file : Option Bytes) {s : Reception}
    (hphase : s.phase = .polling) {ks : List Knock} (hks : ∀ k ∈ ks, k.isFailure = false)
    (hend : (s.run size file (.poll false :: ks)).phase ≠ .draining) :
    ∀ p ∈ s.backlog, p ∈ (s.run size file (.poll false :: ks)).handed := by
  have hstart : (s.step size file (.poll false)).Serves s.backlog := by
    rw [Reception.step, if_pos hphase]
    by_cases hnil : s.backlog = []
    · refine .inl fun p hp ↦ ?_
      rw [hnil] at hp
      cases hp
    · exact .inr ⟨if_pos ⟨rfl, hnil⟩, fun p hp ↦ .inr hp⟩
  have hserves : (s.run size file (.poll false :: ks)).Serves s.backlog := hstart.run hks
  rcases hserves with h | ⟨hdraining, -⟩
  · exact h
  · exact absurd hdraining hend

theorem drain_serves_backlog_two :
    let s := Reception.start.run 4 none [.connect, .connect]
    ∀ p ∈ s.backlog, p ∈ (s.run 4 none [.poll false, .accept (.took 4 0), .connect, .insert,
      .accept .EINTR, .accept (.took 5 0), .insert, .accept (.took 6 0), .insert,
      .accept .EAGAIN]).handed :=
  drain_serves_backlog 4 none (by decide) (by decide) (by decide)

end ReactorServer
