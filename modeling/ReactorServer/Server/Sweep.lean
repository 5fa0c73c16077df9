import ReactorServer.Server.Deletion

/-!
# The connection table, with the idle sweep

`sweepIdle` goes over `connections_` and shuts down the sockets of those that have been idle for too
long, by number.  It holds `connMtx_` all the while, so `newConnection` and `deleteConnection` have
to wait for it; everything else goes on.  `Patrol` is the server with a sweep in it, one entry at a
time, and with the call of `shutdown` apart from the look at the clock.

What is known of the table (`Sys.Table`) holds here too.  So the number under which the sweep has
found an idle connection is still that connection's number when it shuts it down, an entry is never
overwritten, and none goes but by the call of its own connection (`table_invariant`).  The last needs
that a connection that has been destroyed takes no step, or it would delete whoever has inherited
its number.
-/

set_option autoImplicit false

namespace ReactorServer

open Machine

/-! ## The sweep -/

/-- `sweepIdle` at work. -/
structure Sweep where
  /-- What `time` returned. -/
  now : ℕ
  /-- The entries below this number have been looked at. -/
  next : ℕ
  /-- The entry that has been found idle, and is about to be shut down. -/
  idle : Option (ℕ × ℕ)
  deriving DecidableEq, Repr

/-- The server, and the sweep while it holds `connMtx_`. -/
structure Patrol where
  sys : Sys
  sweep : Option Sweep

/-- The moves of the server, and those of the sweep. -/
inductive Beat where
  | move (l : Label)
  /-- `sweepIdle` is called, and locks `connMtx_`. -/
  | sweepIdle (now : ℕ)
  /-- It looks at the next entry, or it is through and unlocks. -/
  | visit
  /-- It calls `shutdown` for the entry it has found idle. -/
  | shutdown
  deriving DecidableEq, Repr

namespace Sys

/-- The first key of `connections_` that is not below a number. -/
def nextKey (s : Sys) (next : ℕ) : Option ℕ :=
  ((s.clients.map (·.conn.fd)).filter fun fd ↦ decide (next ≤ fd) && (s.connections fd).isSome).min?

/-- The entry under a key, if it has been idle for too long. -/
def findIdle (s : Sys) (now fd : ℕ) : Option (ℕ × ℕ) :=
  match s.connections fd with
  | none => none
  | some i =>
    match s.clients[i]? with
    | none => none
    | some c =>
      if (now : ℤ) - c.conn.lastActiveSec > kIdleTimeoutSec then some (fd, i) else none

/-- The move needs `connMtx_`. -/
def locks (s : Sys) (l : Label) : Bool := l = .insert || !(s.invokes l).isEmpty

theorem findIdle_eq {s : Sys} {now fd fd' i : ℕ} (h : s.findIdle now fd = some (fd', i)) :
    fd' = fd ∧ s.connections fd = some i := by
  rw [findIdle] at h
  split at h
  · exact absurd h (by simp)
  · next j hj =>
    split at h
    · exact absurd h (by simp)
    · split at h
      · obtain ⟨rfl, rfl⟩ : fd = fd' ∧ j = i := by simpa using h
        exact ⟨rfl, hj⟩
      · exact absurd h (by simp)

/-- A move that does not need the mutex leaves the table alone. -/
theorem connections_of_not_locks {s : Sys} {l : Label} (h : s.locks l = false) (file : Option Bytes) :
    (s.step file l).connections = s.connections := by
  rcases table_cases file s l with ⟨fd, now, rfl, -, -, e⟩ | ⟨fd, i, rfl, -, -⟩ |
    ⟨i, c, todo, rfl, hc, htodo, -⟩ | ⟨hsame, -⟩
  · rw [e]
  · exact absurd h (by simp [locks])
  · exact absurd h (by simp [locks, invokes_delete hc htodo])
  · exact hsame.connections

/-- **Who takes an entry away**: its own connection, if only live connections take steps. -/
theorem Table.entry_removed {s : Sys} (h : s.Table) {file : Option Bytes} {l : Label} {fd j : ℕ}
    (hlive : ∀ i c, l = .act i → s.clients[i]? = some c → s.sockets c.conn.fd = some i)
    (hentry : s.connections fd = some j) (hgone : (s.step file l).connections fd ≠ some j) :
    l = .act j ∧ s.invokes l = [j] := by
  rcases table_cases file s l with ⟨fd', now, rfl, -, -, e⟩ | ⟨fd', i, rfl, harr, e⟩ |
    ⟨i, c, todo, rfl, hc, htodo, e⟩ | ⟨hsame, -⟩
  · rw [e] at hgone
    exact absurd hentry hgone
  · -- what is put in the table does not stand where there is something
    have hne : fd ≠ fd' := by
      rintro rfl
      exact absurd (hentry.symm.trans (h.arriving fd i harr).1) (by simp)
    rw [e] at hgone
    exact absurd ((Function.update_of_ne hne ..).trans hentry) hgone
  · have hfd : fd = c.conn.fd := by
      by_contra hne
      rw [e, deleteConnection_connections] at hgone
      exact hgone ((Function.update_of_ne hne ..).trans hentry)
    -- the number is the caller's, and the entry's
    have howner := hlive i c rfl hc
    rw [← hfd, h.connections fd j hentry] at howner
    obtain rfl := Option.some.inj howner
    exact ⟨rfl, invokes_delete hc htodo⟩
  · rw [hsame.connections] at hgone
    exact absurd hentry hgone

end Sys

namespace Patrol

/-- The server before its first connection. -/
def start : Patrol := ⟨.start, none⟩

/-- One move; one that is not possible, or has to wait, changes nothing. -/
def step (file : Option Bytes) (s : Patrol) : Beat → Patrol
  | .move l => if s.sweep.isSome && s.sys.locks l then s else { s with sys := s.sys.step file l }
  | .sweepIdle now =>
    if kIdleTimeoutSec ≤ 0 then s
    else
      match s.sweep with
      | none => { s with sweep := some ⟨now, 0, none⟩ }
      | some _ => s
  | .visit =>
    match s.sweep with
    | some ⟨now, next, none⟩ =>
      match s.sys.nextKey next with
      | none => { s with sweep := none }
      | some fd => { s with sweep := some ⟨now, fd + 1, s.sys.findIdle now fd⟩ }
    | _ => s
  | .shutdown =>
    match s.sweep with
    | some ⟨now, next, some _⟩ => { s with sweep := some ⟨now, next, none⟩ }
    | _ => s

/-- Some moves, one after another. -/
def run (file : Option Bytes) (s : Patrol) (ls : List Beat) : Patrol := ls.foldl (step file) s

/-- A call of `shutdown`: the connection that was found idle, and the one whose socket is hit. -/
def hits (s : Patrol) : Beat → List (ℕ × Option ℕ)
  | .shutdown =>
    match s.sweep with
    | some ⟨_, _, some (fd, i)⟩ => [(i, s.sys.sockets fd)]
    | _ => []
  | _ => []

/-- A connection that has been destroyed takes no step. -/
def Live (s : Patrol) : Beat → Prop
  | .move (.act i) => ∀ c ∈ s.sys.clients[i]?, s.sys.sockets c.conn.fd = some i
  | _ => True

instance (s : Patrol) : ∀ b : Beat, Decidable (s.Live b)
  | .move (.act i) => inferInstanceAs (Decidable (∀ c ∈ s.sys.clients[i]?, _ = _))
  | .move (.accept ..) => inferInstanceAs (Decidable True)
  | .move .insert => inferInstanceAs (Decidable True)
  | .move (.event ..) => inferInstanceAs (Decidable True)
  | .move (.take _) => inferInstanceAs (Decidable True)
  | .move (.call ..) => inferInstanceAs (Decidable True)
  | .move (.write ..) => inferInstanceAs (Decidable True)
  | .move (.expire _) => inferInstanceAs (Decidable True)
  | .sweepIdle _ => inferInstanceAs (Decidable True)
  | .visit => inferInstanceAs (Decidable True)
  | .shutdown => inferInstanceAs (Decidable True)

theorem sys_sweepIdle (file : Option Bytes) (s : Patrol) (now : ℕ) :
    (s.step file (.sweepIdle now)).sys = s.sys := by
  rw [step]
  split
  · rfl
  · split <;> rfl

theorem sys_visit (file : Option Bytes) (s : Patrol) : (s.step file .visit).sys = s.sys := by
  rw [step]
  split
  · split <;> rfl
  · rfl

theorem sys_shutdown (file : Option Bytes) (s : Patrol) : (s.step file .shutdown).sys = s.sys := by
  rw [step]
  split <;> rfl

/-! ## The invariant -/

/-- The table is sound, what the sweep has found idle is in it, and what it has shut down was what
it had found. -/
structure Watched (s : Patrol) (log : List (ℕ × Option ℕ)) : Prop where
  table : s.sys.Table
  idle : ∀ sw, s.sweep = some sw → ∀ fd i, sw.idle = some (fd, i) → s.sys.connections fd = some i
  hit : ∀ h ∈ log, h.2 = some h.1

theorem watched_start : start.Watched [] where
  table := Sys.table_start
  idle sw hsw := absurd hsw (by simp [start])
  hit h hh := absurd hh (by simp)

variable {s : Patrol} {log : List (ℕ × Option ℕ)} {file : Option Bytes}

theorem Watched.move (h : s.Watched log) (l : Label) : (s.step file (.move l)).Watched log := by
  rw [step]
  by_cases hwait : (s.sweep.isSome && s.sys.locks l) = true
  · rw [if_pos hwait]
    exact h
  · rw [if_neg hwait]
    refine ⟨h.table.step file l, fun sw hsw fd i hi ↦ ?_, h.hit⟩
    have hfree : s.sys.locks l = false := by
      have hsweep : s.sweep = some sw := hsw
      simpa [hsweep] using hwait
    show (s.sys.step file l).connections fd = some i
    rw [Sys.connections_of_not_locks hfree]
    exact h.idle sw hsw fd i hi

theorem Watched.step (h : s.Watched log) (b : Beat) : (s.step file b).Watched (log ++ s.hits b) := by
  cases b with
  | move l =>
    rw [show s.hits (.move l) = [] from rfl, List.append_nil]
    exact h.move l
  | sweepIdle now =>
    rw [show s.hits (.sweepIdle now) = [] from rfl, List.append_nil, Patrol.step]
    split
    · exact h
    · split
      · refine ⟨h.table, ?_, h.hit⟩
        rintro _ ⟨rfl⟩ fd i hi
        exact absurd hi (by simp)
      · exact h
  | visit =>
    rw [show s.hits .visit = [] from rfl, List.append_nil, Patrol.step]
    split
    · split
      · exact ⟨h.table, fun sw hsw ↦ absurd hsw (by simp), h.hit⟩
      · refine ⟨h.table, ?_, h.hit⟩
        rintro _ ⟨rfl⟩ fd' i hi
        obtain ⟨rfl, hentry⟩ := Sys.findIdle_eq hi
        exact hentry
    · exact h
  | shutdown =>
    rw [Patrol.step, hits]
    split
    · next now next entry hsweep =>
      rw [hsweep]
      refine ⟨h.table, ?_, fun hit hhit ↦ ?_⟩
      · rintro _ ⟨rfl⟩ fd i hi
        exact absurd hi (by simp)
      · rcases List.mem_append.mp hhit with hhit | hhit
        · exact h.hit hit hhit
        · rw [List.mem_singleton.mp hhit]
          exact h.table.connections _ _ (h.idle _ hsweep _ _ rfl)
    · next hno =>
      have hnone : (match s.sweep with
          | some ⟨_, _, some (fd, i)⟩ => [(i, s.sys.sockets fd)]
          | _ => []) = [] := by
        split
        · next now next fd i hsweep => exact absurd hsweep (hno now next (fd, i))
        · rfl
      rw [hnone, List.append_nil]
      exact h

end Patrol

/-- **The connection table**, in every state that an interleaving of the main reactor, the
sub-reactors, the threads of the pool and the idle sweep can reach.  Every key is an open descriptor,
that of the connection stored under it; what `newConnection` is about to store overwrites nothing;
an entry is removed only by the call of its own connection; and `shutdown` has always hit the
connection that was found idle.  It is assumed that a connection that has been destroyed takes no
further step. -/
theorem table_invariant (file : Option Bytes) (ls : List Beat)
    (h : Meets (Patrol.step file) Patrol.Live Patrol.start ls) :
    (∀ fd i, (Patrol.start.run file ls).sys.connections fd = some i →
        (Patrol.start.run file ls).sys.sockets fd = some i ∧
        ∃ c, (Patrol.start.run file ls).sys.clients[i]? = some c ∧ c.conn.fd = fd) ∧
      (∀ fd i, (Patrol.start.run file ls).sys.arriving = some (fd, i) →
        (Patrol.start.run file ls).sys.connections fd = none) ∧
      (∀ b fd i, (Patrol.start.run file ls).Live b →
        (Patrol.start.run file ls).sys.connections fd = some i →
        ((Patrol.start.run file ls).step file b).sys.connections fd ≠ some i →
        b = .move (.act i) ∧ (Patrol.start.run file ls).sys.invokes (.act i) = [i]) ∧
      ∀ hit ∈ trace (Patrol.step file) Patrol.hits Patrol.start ls, hit.2 = some hit.1 := by
  have hwatched : (Patrol.start.run file ls).Watched
      (trace (Patrol.step file) Patrol.hits Patrol.start ls) :=
    h.trace_invariant (fun _ _ _ h _ ↦ h.step _) Patrol.watched_start
  generalize Patrol.start.run file ls = s at hwatched ⊢
  refine ⟨fun fd i hi ↦ ?_, fun fd i hi ↦ (hwatched.table.arriving fd i hi).1,
    fun b fd i hlive hentry hgone ↦ ?_, hwatched.hit⟩
  · have hopen := hwatched.table.connections fd i hi
    exact ⟨hopen, hwatched.table.sockets fd i hopen⟩
  · cases b with
    | move l =>
      rw [Patrol.step] at hgone
      split at hgone
      · exact absurd hentry hgone
      · have hremoved := hwatched.table.entry_removed (fun j c hl hc ↦ ?_) hentry hgone
        · obtain ⟨rfl, hinvokes⟩ := hremoved
          exact ⟨rfl, hinvokes⟩
        · subst hl
          exact hlive c hc
    | sweepIdle now => exact absurd hentry (by rwa [Patrol.sys_sweepIdle] at hgone)
    | visit => exact absurd hentry (by rwa [Patrol.sys_visit] at hgone)
    | shutdown => exact absurd hentry (by rwa [Patrol.sys_shutdown] at hgone)

/-- A connection that is swept away, while another is accepted. -/
theorem table_invariant_sweep :
    trace (Patrol.step none) Patrol.hits Patrol.start
        [.move (.accept 5 0), .move .insert, .sweepIdle 100, .move (.accept 6 100), .visit,
          .move (.event 0 .hangUp), .shutdown, .move (.act 0), .visit, .move .insert] =
        [(0, some 0)] ∧
      ∀ hit ∈ trace (Patrol.step none) Patrol.hits Patrol.start
        [.move (.accept 5 0), .move .insert, .sweepIdle 100, .move (.accept 6 100), .visit,
          .move (.event 0 .hangUp), .shutdown, .move (.act 0), .visit, .move .insert],
        hit.2 = some hit.1 :=
  ⟨by decide, (table_invariant none _ (by decide)).2.2.2⟩

end ReactorServer
