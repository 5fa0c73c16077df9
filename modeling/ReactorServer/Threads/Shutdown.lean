import ReactorServer.Server.Submit
import ReactorServer.Threads.Pool

/-!
# Shutting down

A signal makes the main reactor call `Server::stop`, which sets `quit_` on every reactor; the main
loop sees its own flag and is left, and the `Server` goes out of scope.  Its members are destroyed
in reverse order of declaration: first `dbPool_`, which runs what is left in its queue, and only
then `thPool_`, which waits for the sub-reactors.  A sub-reactor looks at its flag at the top of its
loop, so it may still be in `epoll_wait` by then, or in the middle of a handler, and a handler that
comes to a request for the database pool calls `add` on it.

`Shutdown` is the server (`Sys`) together with the threads that drive it: the main thread, and the
sub-reactors with the stage they are at in `EventLoop::loop`.  `Moves` is what a step can be, and
`step_moves` says that there is nothing else.

After a late call the process is beyond help: `add` throws out of the event loop, or works on an
object that is gone.  The thread is taken to have left its loop in both cases.  The destruction of
the other members of `Server` comes after all of this and is left out, as is `sweepIdle`.
-/

set_option autoImplicit false

namespace ReactorServer

/-! ## Threads -/

/-- Where the thread of a sub-reactor is in `EventLoop::loop`. -/
inductive Stage where
  /-- `loop` is a task in the queue of `thPool_`. -/
  | queued
  /-- It is about to load `quit_`. -/
  | top
  /-- It is in `epoll_wait`. -/
  | polling
  /-- It goes through the active channels: the connection whose handler is running, and those that
  are still to come. -/
  | handling (running : Option ℕ) (active : List ℕ)
  /-- `loop` has returned, or an exception has left it. -/
  | left
  deriving DecidableEq, Repr

/-- A sub-reactor. -/
structure SubReactor where
  quit : Bool
  stage : Stage
  deriving DecidableEq, Repr

/-- Where the main thread is. -/
inductive MainThread where
  /-- In the loop of the main reactor. -/
  | looping
  /-- In `Server::stop`, called from that loop: its own flag is set, and those of this many
  sub-reactors. -/
  | stopping (told : ℕ)
  /-- The loop has been left. -/
  | left
  /-- In the destructor of `dbPool_`. -/
  | dbPool
  /-- In the destructor of `thPool_`. -/
  | thPool
  /-- Both pools are gone. -/
  | gone
  deriving DecidableEq, Repr

/-- The destructor of `dbPool_` has begun. -/
def MainThread.begun : MainThread → Bool
  | .dbPool | .thPool | .gone => true
  | _ => false

/-- The server, and the threads that drive it. -/
structure Shutdown where
  sys : Sys
  reactors : List SubReactor
  main : MainThread
  /-- `stop_` of `dbPool_`. -/
  dbStop : Bool
  /-- The calls of `dbPool_->add` after its destructor has begun. -/
  late : List Ticket

/-- What the threads do. -/
inductive Signal where
  /-- The main reactor accepts a connection. -/
  | accept (fd now : ℕ)
  /-- It puts the connection in the table. -/
  | insert
  /-- It has seen the signal and calls `Server::stop`. -/
  | stop
  /-- `stop` goes on to the next sub-reactor, or is through and the loop is left. -/
  | tell
  /-- The destructor of `dbPool_` is called. -/
  | destroy
  /-- It sets `stop_`. -/
  | setStop
  /-- It has joined its threads. -/
  | joinDb
  /-- The destructor of `thPool_` has joined the sub-reactors. -/
  | joinTh
  /-- A thread of `thPool_` takes the loop of this sub-reactor. -/
  | enter (r : ℕ)
  /-- The sub-reactor loads `quit_`. -/
  | check (r : ℕ)
  /-- Its `epoll_wait` returns these connections. -/
  | wake (r : ℕ) (active : List ℕ)
  /-- It calls the handler of the next one. -/
  | call (r : ℕ) (e : Event)
  /-- It is through with them and goes back to the top. -/
  | again (r : ℕ)
  /-- The handler that is running performs its next action, or returns. -/
  | act (r : ℕ)
  /-- The threads of `dbPool_` and Redis go on. -/
  | db (l : Label)
  deriving DecidableEq, Repr

/-- A move of the database side. -/
def Label.isDb : Label → Bool
  | .take _ | .call .. | .write .. | .expire _ => true
  | _ => false

namespace Shutdown

/-- The server as it starts, with this many sub-reactors. -/
def start (n : ℕ) : Shutdown := ⟨.start, List.replicate n ⟨false, .queued⟩, .looping, false, []⟩

/-- The sub-reactor is at another stage. -/
def setStage (s : Shutdown) (r : ℕ) (stage : Stage) : Shutdown :=
  { s with reactors := s.reactors.modify r ({ · with stage := stage }) }

/-- The connection belongs to this sub-reactor. -/
def owns (s : Shutdown) (r i : ℕ) : Bool :=
  s.sys.clients[i]?.any fun c ↦ c.conn.fd % s.reactors.length == r

/-- The late calls, with one more call. -/
def lateWith (s : Shutdown) (ticket : Ticket) : List Ticket :=
  if s.main.begun then s.late ++ [ticket] else s.late

/-- The handler of connection `i`, on sub-reactor `r`, calls `dbPool_->add`. -/
def submit (file : Option Bytes) (s : Shutdown) (r i : ℕ) (c : Client) (t : Task) : Shutdown :=
  let ticket : Ticket := ⟨i, c.asked, t⟩
  let late := s.lateWith ticket
  match ThreadPool.add ⟨s.sys.queue, s.dbStop⟩ ticket with
  | .ok _ => { s with sys := s.sys.step file (.act i), late := late }
  | .error _ =>
    -- the exception goes through the handler and the loop
    { s.setStage r .left with
      sys := { s.sys with clients := s.sys.clients.set i { c with todo := [] } }, late := late }

/-- The next action of the handler of connection `i`, on sub-reactor `r`; `active` are the channels
after it. -/
def act (file : Option Bytes) (s : Shutdown) (r i : ℕ) (active : List ℕ) : Shutdown :=
  match s.sys.clients[i]? with
  | none => s.setStage r (.handling none active)
  | some c =>
    match c.todo with
    | [] => s.setStage r (.handling none active)
    | .submit t :: _ => s.submit file r i c t
    | _ :: _ => { s with sys := s.sys.step file (.act i) }

/-- One move; one that is not possible changes nothing. -/
def step (file : Option Bytes) (s : Shutdown) : Signal → Shutdown
  | .accept fd now =>
    if s.main = .looping then { s with sys := s.sys.step file (.accept fd now) } else s
  | .insert => if s.main = .looping then { s with sys := s.sys.step file .insert } else s
  | .stop => if s.main = .looping ∧ s.sys.arriving = none then { s with main := .stopping 0 } else s
  | .tell =>
    match s.main with
    | .stopping k =>
      if k < s.reactors.length then
        { s with reactors := s.reactors.modify k ({ · with quit := true }), main := .stopping (k + 1) }
      else { s with main := .left }
    | _ => s
  | .destroy => if s.main = .left then { s with main := .dbPool } else s
  | .setStop => if s.main = .dbPool then { s with dbStop := true } else s
  | .joinDb =>
    if s.main = .dbPool ∧ s.dbStop = true ∧ s.sys.queue = [] ∧ s.sys.threads.all Option.isNone then
      { s with main := .thPool }
    else s
  | .joinTh =>
    if s.main = .thPool ∧ ∀ r ∈ s.reactors, r.stage = .left then { s with main := .gone } else s
  | .enter r =>
    match s.reactors[r]? with
    | some ⟨_, .queued⟩ => s.setStage r .top
    | _ => s
  | .check r =>
    match s.reactors[r]? with
    | some ⟨quit, .top⟩ => s.setStage r (if quit then .left else .polling)
    | _ => s
  | .wake r active =>
    match s.reactors[r]? with
    | some ⟨_, .polling⟩ => if active.all (s.owns r) then s.setStage r (.handling none active) else s
    | _ => s
  | .call r e =>
    match s.reactors[r]? with
    | some ⟨_, .handling none (i :: active)⟩ =>
      { s.setStage r (.handling (some i) active) with sys := s.sys.step file (.event i e) }
    | _ => s
  | .again r =>
    match s.reactors[r]? with
    | some ⟨_, .handling none []⟩ => s.setStage r .top
    | _ => s
  | .act r =>
    match s.reactors[r]? with
    | some ⟨_, .handling (some i) active⟩ => s.act file r i active
    | _ => s
  | .db l => if l.isDb then { s with sys := s.sys.step file l } else s

/-- A run. -/
def run (file : Option Bytes) (s : Shutdown) (ls : List Signal) : Shutdown := ls.foldl (step file) s

/-! ## What a step can be -/

/-- **Everything that can happen**, with what it takes. -/
inductive Moves (file : Option Bytes) (s : Shutdown) : Signal → Shutdown → Prop
  | accept {fd now : ℕ} (hmain : s.main = .looping) :
      Moves file s (.accept fd now) { s with sys := s.sys.step file (.accept fd now) }
  | insert (hmain : s.main = .looping) :
      Moves file s .insert { s with sys := s.sys.step file .insert }
  | stop (hmain : s.main = .looping) : Moves file s .stop { s with main := .stopping 0 }
  | tell {k : ℕ} (hmain : s.main = .stopping k) (hk : k < s.reactors.length) :
      Moves file s .tell { s with
        reactors := s.reactors.modify k ({ · with quit := true }), main := .stopping (k + 1) }
  | leave {k : ℕ} (hmain : s.main = .stopping k) (hk : s.reactors.length ≤ k) :
      Moves file s .tell { s with main := .left }
  | destroy (hmain : s.main = .left) : Moves file s .destroy { s with main := .dbPool }
  | setStop (hmain : s.main = .dbPool) : Moves file s .setStop { s with dbStop := true }
  | joinDb (hmain : s.main = .dbPool) (hstop : s.dbStop = true) (hqueue : s.sys.queue = [])
      (hthreads : ∀ k ∈ s.sys.threads, k = none) : Moves file s .joinDb { s with main := .thPool }
  | joinTh (hmain : s.main = .thPool) (hleft : ∀ r ∈ s.reactors, r.stage = .left) :
      Moves file s .joinTh { s with main := .gone }
  | enter {r : ℕ} {quit : Bool} (hr : s.reactors[r]? = some ⟨quit, .queued⟩) :
      Moves file s (.enter r) (s.setStage r .top)
  | check {r : ℕ} {quit : Bool} (hr : s.reactors[r]? = some ⟨quit, .top⟩) :
      Moves file s (.check r) (s.setStage r (if quit then .left else .polling))
  | wake {r : ℕ} {quit : Bool} {active : List ℕ} (hr : s.reactors[r]? = some ⟨quit, .polling⟩)
      (howns : ∀ i ∈ active, s.owns r i = true) :
      Moves file s (.wake r active) (s.setStage r (.handling none active))
  | call {r i : ℕ} {quit : Bool} {active : List ℕ} {e : Event}
      (hr : s.reactors[r]? = some ⟨quit, .handling none (i :: active)⟩) :
      Moves file s (.call r e) { s.setStage r (.handling (some i) active) with
        sys := s.sys.step file (.event i e) }
  | again {r : ℕ} {quit : Bool} (hr : s.reactors[r]? = some ⟨quit, .handling none []⟩) :
      Moves file s (.again r) (s.setStage r .top)
  | finish {r i : ℕ} {quit : Bool} {active : List ℕ}
      (hr : s.reactors[r]? = some ⟨quit, .handling (some i) active⟩)
      (hdone : ∀ c, s.sys.clients[i]? = some c → c.todo = []) :
      Moves file s (.act r) (s.setStage r (.handling none active))
  | act {r i : ℕ} {quit : Bool} {active : List ℕ} {c : Client} {a : Act} {todo : List Act}
      (hr : s.reactors[r]? = some ⟨quit, .handling (some i) active⟩)
      (hc : s.sys.clients[i]? = some c) (htodo : c.todo = a :: todo) (ha : a.isSubmit = false) :
      Moves file s (.act r) { s with sys := s.sys.step file (.act i) }
  | add {r i : ℕ} {quit : Bool} {active : List ℕ} {c : Client} {t : Task} {todo : List Act}
      (hr : s.reactors[r]? = some ⟨quit, .handling (some i) active⟩)
      (hc : s.sys.clients[i]? = some c) (htodo : c.todo = .submit t :: todo)
      (hstop : s.dbStop = false) :
      Moves file s (.act r) { s with
        sys := s.sys.step file (.act i), late := s.lateWith ⟨i, c.asked, t⟩ }
  | refuse {r i : ℕ} {quit : Bool} {active : List ℕ} {c : Client} {t : Task} {todo : List Act}
      (hr : s.reactors[r]? = some ⟨quit, .handling (some i) active⟩)
      (hc : s.sys.clients[i]? = some c) (htodo : c.todo = .submit t :: todo)
      (hstop : s.dbStop = true) :
      Moves file s (.act r) { s.setStage r .left with
        sys := { s.sys with clients := s.sys.clients.set i { c with todo := [] } }
        late := s.lateWith ⟨i, c.asked, t⟩ }
  | db {l : Label} (hl : l.isDb = true) : Moves file s (.db l) { s with sys := s.sys.step file l }

variable {s s' : Shutdown} {file : Option Bytes} {l : Signal}

/-- The handler that is running goes on, or it is over, or `add` throws. -/
theorem step_act {r i : ℕ} {quit : Bool} {active : List ℕ}
    (hr : s.reactors[r]? = some ⟨quit, .handling (some i) active⟩) :
    Moves file s (.act r) (s.step file (.act r)) := by
  have hstep : s.step file (.act r) = s.act file r i active := by
    rw [step, hr]
  rw [hstep, act]
  split
  · next hnone => exact .finish hr fun c hc ↦ by cases hnone.symm.trans hc
  · next c hc =>
    split
    · next hnil =>
      refine .finish hr fun c' hc' ↦ ?_
      rwa [← Option.some.inj (hc.symm.trans hc')]
    · next t todo htodo =>
      rw [submit]
      dsimp only
      by_cases hstop : s.dbStop = true
      · rw [ThreadPool.add_of_stop _ hstop]
        exact .refuse hr hc htodo hstop
      · have hstop' : s.dbStop = false := Bool.eq_false_iff.mpr hstop
        rw [ThreadPool.add_of_not_stop _ hstop']
        exact .add hr hc htodo hstop'
    · next a todo hnot htodo =>
      refine .act hr hc htodo ?_
      cases a with
      | submit t => exact absurd rfl (hnot t)
      | _ => rfl

theorem step_moves (s : Shutdown) (file : Option Bytes) (l : Signal) :
    s.step file l = s ∨ Moves file s l (s.step file l) := by
  cases l with
  | accept fd now =>
    rw [step]
    split
    · next h => exact .inr (.accept h)
    · exact .inl rfl
  | insert =>
    rw [step]
    split
    · next h => exact .inr (.insert h)
    · exact .inl rfl
  | stop =>
    rw [step]
    split
    · next h => exact .inr (.stop h.1)
    · exact .inl rfl
  | tell =>
    rw [step]
    split
    · next k h =>
      split
      · next hk => exact .inr (.tell h hk)
      · next hk => exact .inr (.leave h (Nat.le_of_not_lt hk))
    · exact .inl rfl
  | destroy =>
    rw [step]
    split
    · next h => exact .inr (.destroy h)
    · exact .inl rfl
  | setStop =>
    rw [step]
    split
    · next h => exact .inr (.setStop h)
    · exact .inl rfl
  | joinDb =>
    rw [step]
    split
    · next h =>
      refine .inr (.joinDb h.1 h.2.1 h.2.2.1 fun k hk ↦ ?_)
      exact Option.isNone_iff_eq_none.mp (List.all_eq_true.mp h.2.2.2 k hk)
    · exact .inl rfl
  | joinTh =>
    rw [step]
    split
    · next h => exact .inr (.joinTh h.1 h.2)
    · exact .inl rfl
  | enter r =>
    rw [step]
    split
    · next quit hr => exact .inr (.enter hr)
    · exact .inl rfl
  | check r =>
    rw [step]
    split
    · next quit hr => exact .inr (.check hr)
    · exact .inl rfl
  | wake r active =>
    rw [step]
    split
    · next quit hr =>
      split
      · next howns => exact .inr (.wake hr (List.all_eq_true.mp howns))
      · exact .inl rfl
    · exact .inl rfl
  | call r e =>
    rw [step]
    split
    · next quit i active hr => exact .inr (.call hr)
    · exact .inl rfl
  | again r =>
    rw [step]
    split
    · next quit hr => exact .inr (.again hr)
    · exact .inl rfl
  | act r =>
    by_cases hr : ∃ quit i active, s.reactors[r]? = some ⟨quit, .handling (some i) active⟩
    · obtain ⟨quit, i, active, hr⟩ := hr
      exact .inr (step_act hr)
    · left
      rw [step]
      split
      · next quit i active h => exact absurd ⟨quit, i, active, h⟩ hr
      · rfl
  | db l =>
    rw [step]
    split
    · next hl => exact .inr (.db hl)
    · exact .inl rfl

theorem setStage_reactors {r : ℕ} {quit : Bool} {stage stage' : Stage}
    (hr : s.reactors[r]? = some ⟨quit, stage⟩) :
    (s.setStage r stage').reactors = s.reactors.set r ⟨quit, stage'⟩ := by
  refine List.ext_getElem? fun j ↦ ?_
  rw [setStage, List.getElem?_modify, List.getElem?_set]
  by_cases hj : r = j
  · subst hj
    rw [hr, if_pos rfl, if_pos (List.getElem?_eq_some_iff.mp hr).1]
    simp
  · simp [hj]

end Shutdown

end ReactorServer
