import ReactorServer.Server.Sweep
import ReactorServer.Server.Loops

/-!
# What a sweep finds

A sweep goes through `connections_` while the sub-reactors go on: connections are accepted, requests
are read and answered, and the clock that it compares with was read at its beginning.  Still it misses
nobody and gets nobody twice.  Of a connection that is in the table when it begins, and from which
nothing is read until it is through, it shuts down the socket once if nothing has been read for more
than `kIdleTimeoutSec` seconds, and otherwise not at all (`sweep_exact`).

Reading is what counts.  A connection that has been busy writing a response for a minute is idle.
-/

set_option autoImplicit false

namespace ReactorServer

open Machine

/-! ## Activity -/

theorem writeFromBuffer_lastActiveSec (c : Conn) (k : Kernel) :
    (writeFromBuffer c k).conn.lastActiveSec = c.lastActiveSec := by
  have hstop : ∀ (c : Conn) (k : Kernel) (e : Exit),
      (stopWrite c k e).conn.lastActiveSec = c.lastActiveSec := by
    intro c k e
    rw [stopWrite]
    split
    · rfl
    · rfl
  rw [writeFromBuffer]
  dsimp only
  split
  · exact hstop ..
  · split
    · exact hstop ..
    · rfl

/-- A write is no activity. -/
theorem handleWrite_lastActiveSec (c : Conn) (k : Kernel) :
    (handleWrite c k).conn.lastActiveSec = c.lastActiveSec := by
  rw [handleWrite]
  split
  · exact writeFromBuffer_lastActiveSec c k
  · rfl

/-- The connection has been idle for too long. -/
def Conn.IsIdle (c : Conn) (now : ℕ) : Prop := (now : ℤ) - c.lastActiveSec > kIdleTimeoutSec

instance (c : Conn) (now : ℕ) : Decidable (c.IsIdle now) :=
  inferInstanceAs (Decidable ((now : ℤ) - c.lastActiveSec > kIdleTimeoutSec))

/-- The move reads from a connection. -/
def Label.reads (i : ℕ) : Label → Bool
  | .event i' (.readable ..) => i' = i
  | _ => false

namespace Sys

variable {s : Sys} {i : ℕ} {c : Client}

/-- Nothing but a read makes a connection active. -/
theorem step_lastActiveSec (file : Option Bytes) (hc : s.clients[i]? = some c) {l : Label}
    (hl : l.reads i = false) :
    ∃ c', (s.step file l).clients[i]? = some c' ∧ c'.conn.lastActiveSec = c.conn.lastActiveSec := by
  by_cases hsubject : l.subject = some i
  swap
  · obtain ⟨c', hc', hconn, -⟩ := step_other file hc hsubject
    exact ⟨c', hc', congrArg Conn.lastActiveSec hconn⟩
  have hlt := (List.getElem?_eq_some_iff.mp hc).1
  cases l with
  | event i' e =>
    obtain rfl : i' = i := by simpa [Label.subject] using hsubject
    rcases step_event_cases file s i' e with h | ⟨c₀, hc₀, -, -, h⟩
    · exact ⟨c, by rw [h, hc], rfl⟩
    · obtain rfl := Option.some.inj (hc.symm.trans hc₀)
      refine ⟨_, by rw [h, List.getElem?_set_self hlt], ?_⟩
      cases e with
      | readable now reads k => simp [Label.reads] at hl
      | writable k => exact handleWrite_lastActiveSec c.conn k
  | act i' =>
    obtain rfl : i' = i := by simpa [Label.subject] using hsubject
    rcases step_act_cases file s i' with ⟨-, h⟩ | ⟨c₀, a, todo, hc₀, -, h⟩
    · exact ⟨c, by rw [h, hc], rfl⟩
    · obtain rfl := Option.some.inj (hc.symm.trans hc₀)
      have hset : (s.clients.set i' { c.note a with todo := todo })[i']? =
          some { c.note a with todo := todo } := List.getElem?_set_self hlt
      have hconn : ({ c.note a with todo := todo } : Client).conn.lastActiveSec = c.conn.lastActiveSec :=
        congrArg Conn.lastActiveSec (note_conn c a)
      rw [h]
      cases a with
      | delete =>
        rw [effect, deleteConnection_clients]
        exact ⟨_, hset, hconn⟩
      | complete =>
        rw [effect, logReply]
        split
        · exact ⟨_, hset, hconn⟩
        · next j hj =>
          refine ⟨_, by rw [List.getElem?_modify, hset]; rfl, ?_⟩
          split
          · exact hconn
          · exact hconn
      | _ => exact ⟨_, hset, hconn⟩
  | _ => simp [Label.subject] at hsubject

/-- A key that is not below the number the sweep is at is still to come. -/
theorem nextKey_le {next fd : ℕ} (h : s.Table) (hentry : s.connections fd = some i) (hle : next ≤ fd) :
    ∃ fd', s.nextKey next = some fd' ∧ next ≤ fd' ∧ fd' ≤ fd := by
  obtain ⟨c, hc, rfl⟩ := h.sockets fd i (h.connections fd i hentry)
  have hmem : c.conn.fd ∈ (s.clients.map (·.conn.fd)).filter
      fun fd ↦ decide (next ≤ fd) && (s.connections fd).isSome := by
    rw [List.mem_filter]
    exact ⟨List.mem_map_of_mem (List.mem_of_getElem? hc), by simp [hle, hentry]⟩
  obtain ⟨fd', hfd'⟩ := Option.isSome_iff_exists.mp (List.isSome_min?_of_mem hmem)
  obtain ⟨hmem', hmin⟩ := List.min?_eq_some_iff.mp hfd'
  refine ⟨fd', hfd', ?_, hmin _ hmem⟩
  have hprop := (List.mem_filter.mp hmem').2
  rw [Bool.and_eq_true, decide_eq_true_iff] at hprop
  exact hprop.1

theorem le_of_nextKey {next fd' : ℕ} (h : s.nextKey next = some fd') : next ≤ fd' := by
  obtain ⟨hmem, -⟩ := List.min?_eq_some_iff.mp h
  have hprop := (List.mem_filter.mp hmem).2
  rw [Bool.and_eq_true, decide_eq_true_iff] at hprop
  exact hprop.1

theorem findIdle_self {now fd : ℕ} (hentry : s.connections fd = some i)
    (hc : s.clients[i]? = some c) :
    s.findIdle now fd = if c.conn.IsIdle now then some (fd, i) else none := by
  rw [findIdle, hentry]
  dsimp only
  rw [hc]
  rfl

end Sys

/-! ## A sweep -/

/-- The move neither begins another sweep nor reads from the connection. -/
def Beat.spares (i : ℕ) : Beat → Bool
  | .move l => !l.reads i
  | .sweepIdle _ => false
  | _ => true

namespace Patrol

/-- **How far a sweep is with an entry**: it has hit the connection once if it is past the entry and
the connection is idle, and is about to if that is what it has just found. -/
structure Passing (now fd i last : ℕ) (s : Patrol) (sw : Sweep) (count : ℕ) : Prop where
  clock : sw.now = now
  entry : s.sys.connections fd = some i
  client : ∃ c, s.sys.clients[i]? = some c ∧ c.conn.lastActiveSec = last
  found : ∀ fd' i', sw.idle = some (fd', i') → s.sys.connections fd' = some i'
  hits : count + (if sw.idle = some (fd, i) then 1 else 0) =
    if fd < sw.next ∧ (now : ℤ) - last > kIdleTimeoutSec then 1 else 0

/-- The sweep is at it, or through. -/
def Counts (now fd i last : ℕ) (s : Patrol) (count : ℕ) : Prop :=
  s.sys.Table ∧
    match s.sweep with
    | some sw => Passing now fd i last s sw count
    | none => count = if (now : ℤ) - last > kIdleTimeoutSec then 1 else 0

variable {file : Option Bytes} {s : Patrol} {now fd i last count : ℕ}

theorem Counts.move (h : Counts now fd i last s count) {l : Label} (hl : l.reads i = false) :
    Counts now fd i last (s.step file (.move l)) count := by
  obtain ⟨htable, h⟩ := h
  rw [step]
  split
  · exact ⟨htable, h⟩
  next hfree =>
  refine ⟨htable.step file l, ?_⟩
  dsimp only
  rcases hsweep : s.sweep with _ | sw
  · rw [hsweep] at h
    exact h
  · rw [hsweep] at h hfree
    have hlocks : s.sys.locks l = false := by simpa using hfree
    have hsame := Sys.connections_of_not_locks hlocks file
    obtain ⟨c, hc, hlast⟩ := h.client
    obtain ⟨c', hc', hlast'⟩ := Sys.step_lastActiveSec file hc hl
    refine ⟨h.clock, ?_, ⟨c', hc', hlast'.trans hlast⟩, fun fd' i' hi' ↦ ?_, h.hits⟩
    · rw [hsame]
      exact h.entry
    · rw [hsame]
      exact h.found fd' i' hi'

theorem Counts.visit (h : Counts now fd i last s count) :
    Counts now fd i last (s.step file .visit) count := by
  obtain ⟨htable, h⟩ := h
  rw [step]
  split
  swap
  · exact ⟨htable, h⟩
  next now' next hsweep =>
  rw [hsweep] at h
  obtain rfl : now' = now := h.clock
  have hcount : count = if fd < next ∧ (now' : ℤ) - last > kIdleTimeoutSec then 1 else 0 := by
    simpa using h.hits
  split
  · -- it is through, and so past the entry
    next hnone =>
    refine ⟨htable, ?_⟩
    have hlt : fd < next := by
      by_contra hle
      obtain ⟨fd', hfd', -⟩ := Sys.nextKey_le htable h.entry (Nat.le_of_not_lt hle)
      rw [hnone] at hfd'
      cases hfd'
    simpa [hlt] using hcount
  · next fd' hkey =>
    refine ⟨htable, ?_⟩
    refine ⟨rfl, h.entry, h.client, fun fd'' i'' hi ↦ ?_, ?_⟩
    · obtain ⟨rfl, hentry⟩ := Sys.findIdle_eq hi
      exact hentry
    obtain ⟨c, hc, hlast⟩ := h.client
    dsimp only
    by_cases hfd : fd' = fd
    · -- this is the entry
      subst hfd
      have hle := Sys.le_of_nextKey hkey
      rw [if_neg (by omega)] at hcount
      have hidle : c.conn.IsIdle now' ↔ (now' : ℤ) - last > kIdleTimeoutSec := by
        rw [← hlast]
        exact Iff.rfl
      rw [Sys.findIdle_self h.entry hc, hcount]
      by_cases hlong : (now' : ℤ) - last > kIdleTimeoutSec
      · simp [hidle, hlong]
      · simp [hidle, hlong]
    · have hne : s.sys.findIdle now' fd' ≠ some (fd, i) := fun hi ↦ hfd (Sys.findIdle_eq hi).1.symm
      have hpast : fd < fd' + 1 ↔ fd < next := by
        constructor
        · intro hlt
          by_contra hle
          obtain ⟨fd'', hfd'', -, hle'⟩ := Sys.nextKey_le htable h.entry (Nat.le_of_not_lt hle)
          obtain rfl := Option.some.inj (hkey.symm.trans hfd'')
          omega
        · intro hlt
          have hle := Sys.le_of_nextKey hkey
          omega
      rw [if_neg hne, Nat.add_zero, hcount]
      simp only [hpast]

theorem Counts.shutdown (h : Counts now fd i last s count) :
    Counts now fd i last (s.step file .shutdown)
      (count + (s.hits .shutdown).countP fun hit ↦ hit.1 = i) := by
  obtain ⟨htable, h⟩ := h
  rcases hsweep : s.sweep with _ | ⟨now', next, _ | ⟨fd', i'⟩⟩
  · rw [step, hits, hsweep]
    exact ⟨htable, by rw [hsweep] at h ⊢; exact h⟩
  · rw [step, hits, hsweep]
    exact ⟨htable, by rw [hsweep] at h ⊢; exact h⟩
  · rw [hsweep] at h
    rw [step, hits, hsweep]
    refine ⟨htable, h.clock, h.entry, h.client, fun _ _ hi ↦ absurd hi (by simp), ?_⟩
    -- the connection stands under one number only
    have hsame : i' = i ↔ (fd', i') = (fd, i) := by
      refine ⟨?_, fun e ↦ congrArg Prod.snd e⟩
      rintro rfl
      have hentry := h.found fd' i' rfl
      obtain ⟨c, hc, hfd⟩ := htable.sockets fd i' (htable.connections fd i' h.entry)
      obtain ⟨c', hc', hfd'⟩ := htable.sockets fd' i' (htable.connections fd' i' hentry)
      obtain rfl := Option.some.inj (hc.symm.trans hc')
      rw [← hfd, ← hfd']
    have hcount := h.hits
    simp only [List.countP_singleton, decide_eq_true_iff, hsame, Option.some.injEq] at hcount ⊢
    simpa using hcount

theorem Counts.step (h : Counts now fd i last s count) {b : Beat} (hb : b.spares i = true) :
    Counts now fd i last (s.step file b) (count + (s.hits b).countP fun hit ↦ hit.1 = i) := by
  cases b with
  | move l => exact h.move (by simpa [Beat.spares] using hb)
  | sweepIdle now => cases hb
  | visit => exact h.visit
  | shutdown => exact h.shutdown

theorem Counts.run {bs : List Beat} (h : Counts now fd i last s 0)
    (hbs : ∀ b ∈ bs, b.spares i = true) :
    Counts now fd i last (s.run file bs)
      ((trace (Patrol.step file) hits s bs).countP fun hit ↦ hit.1 = i) := by
  have hmeets : Meets (Patrol.step file) (fun _ b ↦ b.spares i = true) s bs :=
    meets_of_forall (fun b hb _ ↦ hbs b hb) s
  have hstep : ∀ (s : Patrol) (es : List (ℕ × Option ℕ)) (b : Beat),
      Counts now fd i last s (es.countP fun hit ↦ hit.1 = i) → b.spares i = true →
      Counts now fd i last (s.step file b) ((es ++ s.hits b).countP fun hit ↦ hit.1 = i) := by
    intro s es b h hb
    rw [List.countP_append]
    exact h.step hb
  exact hmeets.trace_invariant hstep (show Counts now fd i last s (List.countP _ []) from h)

/-- The table is sound in every state. -/
theorem table_run (file : Option Bytes) (ls : List Beat) : (start.run file ls).sys.Table := by
  have hmeets : Meets (Patrol.step file) (fun _ _ ↦ True) start ls :=
    meets_of_forall (fun _ _ _ ↦ trivial) start
  exact (hmeets.trace_invariant (fun _ _ b h _ ↦ h.step b) watched_start).table

end Patrol

/-- **A sweep finds exactly the idle connections**: from every state in which no sweep is under way, a
sweep calls `shutdown` once for a connection of the table from which nothing is read until it is
through, if nothing has been read for more than `kIdleTimeoutSec` seconds, and not at all otherwise,
whatever else the reactors and the pool do in the meantime. -/
theorem sweep_exact (file : Option Bytes) (ls bs : List Beat) (now fd : ℕ) {i : ℕ} {c : Client}
    (hsweep : (Patrol.start.run file ls).sweep = none)
    (hentry : (Patrol.start.run file ls).sys.connections fd = some i)
    (hc : (Patrol.start.run file ls).sys.clients[i]? = some c)
    (hbs : ∀ b ∈ bs, b.spares i = true)
    (hend : ((Patrol.start.run file ls).run file (.sweepIdle now :: bs)).sweep = none) :
    (trace (Patrol.step file) Patrol.hits (Patrol.start.run file ls) (.sweepIdle now :: bs)).countP
      (fun hit ↦ hit.1 = i) = if c.conn.IsIdle now then 1 else 0 := by
  have htable := Patrol.table_run file ls
  generalize Patrol.start.run file ls = s at *
  have hbegin : s.step file (.sweepIdle now) = { s with sweep := some ⟨now, 0, none⟩ } := by
    rw [Patrol.step, if_neg (by decide), hsweep]
  have hcounts : Patrol.Counts now fd i c.conn.lastActiveSec (s.step file (.sweepIdle now)) 0 := by
    rw [hbegin]
    exact ⟨htable, rfl, hentry, ⟨c, hc, rfl⟩, fun _ _ hi ↦ absurd hi (by simp), by simp⟩
  have hrun : Patrol.Counts now fd i c.conn.lastActiveSec (s.run file (.sweepIdle now :: bs))
      ((trace (Patrol.step file) Patrol.hits s (.sweepIdle now :: bs)).countP fun hit ↦ hit.1 = i) :=
    hcounts.run hbs
  rw [Patrol.Counts, hend] at hrun
  exact hrun.2

/-- Two connections are in the table, one is idle, and the other begins to write while the sweep is
going on. -/
def sweepOne : List Beat :=
  [.visit, .move (.event 1 (.writable ⟨[], []⟩)), .visit, .shutdown, .move (.accept 7 100), .visit]

theorem sweep_exact_sweepOne :
    (trace (Patrol.step none) Patrol.hits
      (Patrol.start.run none [.move (.accept 5 90), .move .insert, .move (.accept 6 0), .move .insert])
      (.sweepIdle 100 :: sweepOne)).countP (fun hit ↦ hit.1 = 1) = 1 :=
  (sweep_exact none
    [.move (.accept 5 90), .move .insert, .move (.accept 6 0), .move .insert] sweepOne 100 6
    (c := .accepted 6 0) (by decide) (by decide) (by decide) (by decide) (by decide)).trans
    (by decide)

end ReactorServer
