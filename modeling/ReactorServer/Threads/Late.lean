import ReactorServer.Threads.Shutdown

/-!
# Submissions that come too late

`dbPool_` is destroyed while the sub-reactors may still be running, and a handler that comes to a
request for the pool by then calls `add` on an object that is being destroyed, or is gone.

`late_add_iff` says exactly when that happens.  It takes the requests for the pool that an event
completes, which are a matter of the bytes that have arrived (`Event.forPool`), and looks at two
moments: when the destructor begins, every handler that is running must have handed in all that its
event has completed; and an event that is handled after that must complete none.  `Watched` is the
server with a count of what is still to be handed in.
-/

set_option autoImplicit false

namespace ReactorServer

open Machine

/-! ## What handlers have still to do -/

namespace Sys

/-- What the handler that is running on a connection has still to do. -/
def todoOf (s : Sys) (i : ℕ) : List Act := (s.clients[i]?.map Client.todo).getD []

/-- How many tasks it has still to submit. -/
def owing (s : Sys) (i : ℕ) : ℕ := (s.todoOf i).countP Act.isSubmit

variable {s s' : Sys} (file : Option Bytes)

theorem todoOf_of_getElem? {i : ℕ} {c : Client} (hc : s.clients[i]? = some c) :
    s.todoOf i = c.todo := by
  rw [todoOf, hc]
  rfl

theorem todoOf_eq (h : s'.clients.map Client.todo = s.clients.map Client.todo) :
    s'.todoOf = s.todoOf := by
  funext i
  rw [todoOf, todoOf, ← List.getElem?_map, ← List.getElem?_map, h]

theorem owing_eq (h : s'.todoOf = s.todoOf) (i : ℕ) : s'.owing i = s.owing i := by
  rw [owing, owing, h]

theorem todo_modify (clients : List Client) (j : ℕ) (a : ℕ × ℕ) :
    (clients.modify j (·.addReply a)).map Client.todo = clients.map Client.todo := by
  refine List.ext_getElem? fun i ↦ ?_
  rw [List.getElem?_map, List.getElem?_map, List.getElem?_modify]
  cases clients[i]? with
  | none => rfl
  | some c =>
    split
    · rfl
    · rfl

/-- The database side does not touch the handlers. -/
theorem todoOf_db {l : Label} (hl : l.isDb = true) : (s.step file l).todoOf = s.todoOf := by
  cases l with
  | take w =>
    rcases step_take_cases file s w with h | ⟨t, queue, -, -, h⟩
    · rw [h]
    · rw [h]; rfl
  | call w out =>
    rcases step_call_cases file s w out with h | ⟨k, o, next, store, r, -, -, -, -, h⟩
    · rw [h]
    · rw [h]; rfl
  | write w r =>
    rcases step_write_cases file s w r with h | ⟨k, statusCode, body, next, -, -, h⟩
    · rw [h]
    · rcases h with ⟨-, h⟩ | ⟨j, n, data, -, -, -, ⟨-, h⟩ | h⟩
      · rw [h]; rfl
      · rw [h]; rfl
      · rw [h]
        exact todoOf_eq (todo_modify s.clients j _)
  | expire key => rfl
  | _ => exact absurd hl (by simp [Label.isDb])

theorem todoOf_accept (fd now : ℕ) : (s.step file (.accept fd now)).todoOf = s.todoOf := by
  rw [step]
  split
  · funext i
    rw [todoOf, todoOf]
    dsimp only
    rw [List.getElem?_append]
    split
    · rfl
    · next hi =>
      rw [List.getElem?_eq_none (Nat.le_of_not_lt hi), List.getElem?_singleton]
      split
      · rfl
      · rfl
  · rfl

theorem todoOf_insert : (s.step file .insert).todoOf = s.todoOf := by
  rw [step]
  split
  · rfl
  · rfl

theorem todoOf_set {i : ℕ} {c : Client} (hc : s.clients[i]? = some c) (c' : Client) :
    todoOf { s with clients := s.clients.set i c' } = Function.update s.todoOf i c'.todo := by
  funext j
  rw [todoOf]
  dsimp only
  by_cases hj : j = i
  · subst hj
    rw [Function.update_self, List.getElem?_set_self (List.getElem?_eq_some_iff.mp hc).1]
    rfl
  · rw [Function.update_of_ne hj, List.getElem?_set_ne (Ne.symm hj), todoOf]

theorem effect_todo (s : Sys) (i : ℕ) (c : Client) (a : Act) :
    (effect s i c a).clients.map Client.todo = s.clients.map Client.todo := by
  rcases a with _ | _ | _ | _ | _ | _ | _ | _ | _ | _ | _ | _ | _
  case complete =>
    rw [effect, logReply]
    split
    · rfl
    · exact todo_modify s.clients _ _
  case delete => rw [effect, deleteConnection_clients]
  all_goals rfl

/-- An action is taken off the list of its handler. -/
theorem todoOf_act {i : ℕ} {c : Client} {a : Act} {todo : List Act} (hc : s.clients[i]? = some c)
    (htodo : c.todo = a :: todo) :
    (s.step file (.act i)).todoOf = Function.update s.todoOf i todo := by
  rcases step_act_cases file s i with ⟨hnone, -⟩ | ⟨c', a', todo', hc', htodo', h⟩
  · rw [nextAct_eq hc htodo] at hnone
    cases hnone
  obtain rfl : c = c' := Option.some_inj.mp (hc.symm.trans hc')
  obtain ⟨rfl, rfl⟩ := List.cons_eq_cons.mp (htodo.symm.trans htodo')
  rw [h, todoOf_eq (effect_todo ..)]
  exact todoOf_set hc _

/-- A handler that is called has everything to do. -/
theorem todoOf_event {i : ℕ} {c : Client} (e : Event) (hc : s.clients[i]? = some c)
    (hcall : c.todo = [] ∧ s.sockets c.conn.fd = some i) :
    (s.step file (.event i e)).todoOf = Function.update s.todoOf i (handle file c.conn e).acts := by
  rw [step, hc]
  dsimp only
  rw [if_pos hcall]
  exact todoOf_set hc _

/-- A handler that cannot be called is not. -/
theorem todoOf_event_of_not {i : ℕ} (e : Event)
    (hcall : ∀ c, s.clients[i]? = some c → ¬(c.todo = [] ∧ s.sockets c.conn.fd = some i)) :
    (s.step file (.event i e)).todoOf = s.todoOf := by
  rw [step]
  split
  · rfl
  · next c hc => rw [if_neg (hcall c hc)]

/-- The number for one handler. -/
theorem owing_update {i : ℕ} {todo : List Act} (h : s'.todoOf = Function.update s.todoOf i todo) :
    s'.owing = Function.update s.owing i (todo.countP Act.isSubmit) := by
  funext j
  rw [owing, h]
  by_cases hj : j = i
  · subst hj
    rw [Function.update_self, Function.update_self]
  · rw [Function.update_of_ne hj, Function.update_of_ne hj, owing]

end Sys

/-! ## The count -/

/-- The connection whose handler is running. -/
def Stage.running : Stage → Option ℕ
  | .handling running _ => running
  | _ => none

namespace Shutdown

/-- The connection whose handler the sub-reactor is about to call. -/
def callee (s : Shutdown) (r : ℕ) : Option (ℕ × Client) :=
  match s.reactors[r]? with
  | some ⟨_, .handling none (i :: _)⟩ =>
    (s.sys.clients[i]?.filter fun c ↦
      decide (c.todo = [] ∧ s.sys.sockets c.conn.fd = some i)).map (i, ·)
  | _ => none

/-- The connection whose handler, on this sub-reactor, is about to call `add`. -/
def adder (s : Shutdown) (r : ℕ) : Option ℕ :=
  (s.reactors[r]?.bind (·.stage.running)).filter fun i ↦
    s.sys.clients[i]?.any (·.todo.head?.any Act.isSubmit)

/-- How many of the requests for the pool that its event has completed each handler has not handed
in, after a move.  An event makes it the number of those that it completes; a call of `add` takes one
off, or all of them, if it throws. -/
def count (s : Shutdown) (l : Signal) (ahead : ℕ → ℕ) : ℕ → ℕ :=
  match l with
  | .call r e =>
    match s.callee r with
    | some (i, c) => Function.update ahead i (e.forPool c.conn).length
    | none => ahead
  | .act r =>
    match s.adder r with
    | some i => Function.update ahead i (if s.dbStop then 0 else ahead i - 1)
    | none => ahead
  | _ => ahead

variable {s s' : Shutdown} {file : Option Bytes} {l : Signal}

section Act

variable {r i : ℕ} {quit : Bool} {active : List ℕ} {c : Client} {a : Act} {todo : List Act}

theorem adder_of_running (hr : s.reactors[r]? = some ⟨quit, .handling (some i) active⟩)
    (hc : s.sys.clients[i]? = some c) (htodo : c.todo = a :: todo) :
    s.adder r = if a.isSubmit then some i else none := by
  rw [adder, hr, Option.bind_some, Stage.running, Option.filter_some, hc, Option.any_some, htodo]
  rfl

theorem owing_of_todo (hc : s.sys.clients[i]? = some c) (htodo : c.todo = a :: todo) :
    s.sys.owing i = todo.countP Act.isSubmit + a.isSubmit.toNat := by
  rw [Sys.owing, Sys.todoOf_of_getElem? hc, htodo, List.countP_cons]
  cases a.isSubmit with
  | true => rfl
  | false => rfl

end Act

/-- **What an action of a handler can be**: none that matters, or a call of `add`. -/
theorem step_act_adder (s : Shutdown) (file : Option Bytes) (r : ℕ) :
    s.adder r = none ∧ (s.step file (.act r)).sys.owing = s.sys.owing ∧
        (s.step file (.act r)).late = s.late ∨
      ∃ i t, s.adder r = some i ∧ s.sys.owing i ≠ 0 ∧
        (s.step file (.act r)).sys.owing =
          Function.update s.sys.owing i (if s.dbStop then 0 else s.sys.owing i - 1) ∧
        (s.step file (.act r)).late = s.lateWith t := by
  by_cases hrun : ∃ quit i active, s.reactors[r]? = some ⟨quit, .handling (some i) active⟩
  swap
  · left
    rw [step, adder]
    split
    · next quit i active hr => exact absurd ⟨quit, i, active, hr⟩ hrun
    · next hr =>
      refine ⟨?_, rfl, rfl⟩
      rcases hget : s.reactors[r]? with _ | ⟨quit, _ | _ | _ | ⟨_ | i, active⟩ | _⟩
      case some.handling.some => exact absurd ⟨quit, i, active, hget⟩ hrun
      all_goals rfl
  obtain ⟨quit, i, active, hr⟩ := hrun
  have hm : Moves file s (.act r) (s.step file (.act r)) := step_act hr
  clear hr
  generalize s.step file (.act r) = s' at hm
  cases hm with
  | @finish _ i _ _ hr hdone =>
    refine .inl ⟨?_, rfl, rfl⟩
    rw [adder, hr, Option.bind_some, Stage.running, Option.filter_some]
    refine if_neg fun hany ↦ ?_
    rcases hc : s.sys.clients[i]? with _ | c
    · rw [hc] at hany
      cases hany
    · rw [hc, Option.any_some, hdone c hc] at hany
      cases hany
  | act hr hc htodo ha =>
    refine .inl ⟨by rw [adder_of_running hr hc htodo, ha]; rfl, ?_, rfl⟩
    have howing := owing_of_todo hc htodo
    rw [ha] at howing
    rw [Sys.owing_update (Sys.todoOf_act file hc htodo)]
    exact Function.update_eq_self_iff.mpr howing.symm
  | @add _ i _ _ c t todo hr hc htodo hstop =>
    have howing := owing_of_todo hc htodo
    refine .inr ⟨i, ⟨i, c.asked, t⟩, adder_of_running hr hc htodo, by rw [howing]; simp [Act.isSubmit],
      ?_, rfl⟩
    rw [Sys.owing_update (Sys.todoOf_act file hc htodo), hstop, howing]
    rfl
  | @refuse _ i _ _ c t todo hr hc htodo hstop =>
    have howing := owing_of_todo hc htodo
    refine .inr ⟨i, ⟨i, c.asked, t⟩, adder_of_running hr hc htodo, by rw [howing]; simp [Act.isSubmit],
      ?_, rfl⟩
    rw [hstop, if_pos rfl]
    exact Sys.owing_update (Sys.todoOf_set hc _)

/-- What the call of a handler can be. -/
theorem step_call_callee (s : Shutdown) (file : Option Bytes) (r : ℕ) (e : Event) :
    s.callee r = none ∧ (s.step file (.call r e)).sys.owing = s.sys.owing ∨
      ∃ i c, s.callee r = some (i, c) ∧ s.sys.owing i = 0 ∧
        (s.step file (.call r e)).sys.owing =
          Function.update s.sys.owing i (e.forPool c.conn).length := by
  by_cases hr : ∃ quit i active, s.reactors[r]? = some ⟨quit, .handling none (i :: active)⟩
  swap
  · refine .inl ⟨?_, ?_⟩
    · rw [callee]
      split
      · next quit i active h => exact absurd ⟨quit, i, active, h⟩ hr
      · rfl
    · rw [step]
      split
      · next quit i active h => exact absurd ⟨quit, i, active, h⟩ hr
      · rfl
  obtain ⟨quit, i, active, hr⟩ := hr
  have hstep : (s.step file (.call r e)).sys = s.sys.step file (.event i e) := by
    rw [step, hr]
  rw [hstep, callee, hr]
  dsimp only
  by_cases hcall : ∃ c, s.sys.clients[i]? = some c ∧ c.todo = [] ∧ s.sys.sockets c.conn.fd = some i
  · obtain ⟨c, hc, hnext⟩ := hcall
    refine .inr ⟨i, c, ?_, ?_, ?_⟩
    · rw [hc, Option.filter_some, if_pos (decide_eq_true hnext)]
      rfl
    · rw [Sys.owing, Sys.todoOf_of_getElem? hc, hnext.1]
      rfl
    · rw [← countP_isSubmit_handle file]
      exact Sys.owing_update (Sys.todoOf_event file e hc hnext)
  · have hnot : ∀ c, s.sys.clients[i]? = some c → ¬(c.todo = [] ∧ s.sys.sockets c.conn.fd = some i) :=
      fun c hc hnext ↦ hcall ⟨c, hc, hnext⟩
    refine .inl ⟨?_, funext (Sys.owing_eq (Sys.todoOf_event_of_not file e hnot))⟩
    rcases hc : s.sys.clients[i]? with _ | c
    · rfl
    · rw [Option.filter_some, if_neg (by simpa using hnot c hc)]
      rfl

/-- The other moves leave the handlers alone. -/
theorem step_owing_other (s : Shutdown) (file : Option Bytes) (hcall : ∀ r e, l ≠ .call r e)
    (hact : ∀ r, l ≠ .act r) :
    (s.step file l).sys.owing = s.sys.owing := by
  refine funext (Sys.owing_eq ?_)
  rcases s.step_moves file l with h | hm
  · rw [h]
  generalize s.step file l = s' at hm
  cases hm with
  | accept => exact Sys.todoOf_accept file _ _
  | insert => exact Sys.todoOf_insert file
  | db hl => exact Sys.todoOf_db file hl
  | call => exact absurd rfl (hcall _ _)
  | finish | act | add | refuse => exact absurd rfl (hact _)
  | _ => rfl

theorem step_late_other (s : Shutdown) (file : Option Bytes) (hact : ∀ r, l ≠ .act r) :
    (s.step file l).late = s.late := by
  rcases s.step_moves file l with h | hm
  · rw [h]
  generalize s.step file l = s' at hm
  cases hm with
  | finish | act | add | refuse => exact absurd rfl (hact _)
  | _ => rfl

/-- Only the call of the destructor begins it. -/
theorem step_begun (s : Shutdown) (file : Option Bytes) (hl : l ≠ .destroy) :
    (s.step file l).main.begun = s.main.begun := by
  rcases s.step_moves file l with h | hm
  · rw [h]
  generalize s.step file l = s' at hm
  cases hm with
  | destroy => exact absurd rfl hl
  | stop h | tell h | leave h | joinDb h | joinTh h =>
    rw [h]
    rfl
  | _ => rfl

/-- **The number of tasks that a handler has to submit goes by the requests and by the calls of
`add`.** -/
theorem step_owing (s : Shutdown) (file : Option Bytes) (l : Signal) :
    (s.step file l).sys.owing = s.count l s.sys.owing := by
  cases l with
  | call r e =>
    rcases step_call_callee s file r e with ⟨hnone, h⟩ | ⟨i, c, hsome, -, h⟩
    · rw [h, count, hnone]
    · rw [h, count, hsome]
  | act r =>
    rcases step_act_adder s file r with ⟨hnone, h, -⟩ | ⟨i, t, hsome, -, h, -⟩
    · rw [h, count, hnone]
    · rw [h, count, hsome]
  | _ => exact step_owing_other s file (by simp) (by simp)

end Shutdown

/-- The server, watched. -/
structure Watched where
  server : Shutdown
  /-- For each connection, how many of the requests for the pool that the event of its handler has
  completed have not been handed in. -/
  ahead : ℕ → ℕ

namespace Watched

/-- The server as it starts. -/
def start (n : ℕ) : Watched := ⟨.start n, fun _ ↦ 0⟩

/-- A move. -/
def step (file : Option Bytes) (s : Watched) (l : Signal) : Watched :=
  ⟨s.server.step file l, s.server.count l s.ahead⟩

/-- Nothing is submitted from the time on at which `dbPool_` begins to be destroyed: every handler that
is running then has handed in what its event has completed, and no event that is handled after that
completes a request for the pool. -/
def Timely (s : Watched) : Signal → Prop
  | .destroy => s.server.main = .left → ∀ i, s.ahead i = 0
  | .call r e => s.server.main.begun = true →
    ∀ i c, s.server.callee r = some (i, c) → e.forPool c.conn = []
  | _ => True

variable {s : Watched} {file : Option Bytes}

theorem foldl_step_server (file : Option Bytes) (s : Watched) (ls : List Signal) :
    (ls.foldl (step file) s).server = s.server.run file ls := by
  induction ls generalizing s with
  | nil => rfl
  | cons l ls ih => exact ih _

/-- The count is right. -/
def Counts (s : Watched) : Prop := s.ahead = s.server.sys.owing

theorem counts_start (n : ℕ) : (start n).Counts := rfl

theorem Counts.step (h : s.Counts) (file : Option Bytes) (l : Signal) : (s.step file l).Counts := by
  rw [Counts, Watched.step, h]
  exact (s.server.step_owing file l).symm

theorem forall_update_eq_zero {f : ℕ → ℕ} {i : ℕ} (h : f i = 0) (n : ℕ) :
    (∀ j, Function.update f i n j = 0) ↔ (∀ j, f j = 0) ∧ n = 0 := by
  rw [Function.forall_update_iff f fun _ n ↦ n = 0]
  refine ⟨fun ⟨hn, hf⟩ ↦ ⟨fun j ↦ ?_, hn⟩, fun ⟨hf, hn⟩ ↦ ⟨hn, fun j _ ↦ hf j⟩⟩
  by_cases hj : j = i
  · rw [hj, h]
  · exact hf j hj

/-- No task has been submitted too late, and none is going to be by a handler that is running. -/
def InTime (s : Watched) : Prop :=
  s.server.late = [] ∧ (s.server.main.begun = true → ∀ i, s.ahead i = 0)

/-- **One move.** -/
theorem Counts.inTime_step (h : s.Counts) (file : Option Bytes) (l : Signal) :
    (s.step file l).InTime ↔ s.InTime ∧ s.Timely l := by
  have hother : ∀ {l : Signal}, l ≠ .destroy → (∀ r, l ≠ .act r) →
      s.server.count l s.ahead = s.ahead → ((s.step file l).InTime ↔ s.InTime) := by
    intro l hdestroy hact hcount
    rw [InTime, InTime, Watched.step, Shutdown.step_late_other _ _ hact,
      Shutdown.step_begun _ _ hdestroy, hcount]
  cases l with
  | destroy =>
    have hcount : s.server.count .destroy s.ahead = s.ahead := rfl
    rw [InTime, InTime, Watched.step, Timely, Shutdown.step_late_other _ _ (by simp), hcount,
      Shutdown.step]
    split
    · next hleft =>
      simp only [hleft, MainThread.begun]
      tauto
    · next hleft => simp [hleft]
  | call r e =>
    rcases s.server.step_call_callee file r e with ⟨hnone, -⟩ | ⟨i, c, hsome, hzero, -⟩
    · have hcount : s.server.count (.call r e) s.ahead = s.ahead := by rw [Shutdown.count, hnone]
      rw [hother (by simp) (by simp) hcount, Timely, hnone]
      simp
    · have hcount : s.server.count (.call r e) s.ahead =
          Function.update s.ahead i (e.forPool c.conn).length := by rw [Shutdown.count, hsome]
      have hevent : (∀ i' c', s.server.callee r = some (i', c') → e.forPool c'.conn = []) ↔
          e.forPool c.conn = [] := by
        simp [hsome]
      rw [← congrFun h i] at hzero
      rw [InTime, InTime, Watched.step, Timely, hevent, hcount,
        Shutdown.step_late_other _ _ (by simp), Shutdown.step_begun _ _ (by simp), and_assoc]
      refine and_congr_right fun _ ↦ ?_
      rw [← imp_and]
      refine imp_congr_right fun _ ↦ ?_
      rw [forall_update_eq_zero hzero, List.length_eq_zero_iff]
  | act r =>
    refine Iff.trans ?_ (and_iff_left trivial).symm
    rcases s.server.step_act_adder file r with ⟨hnone, -, hlate⟩ | ⟨i, t, -, howing, -, hlate⟩
    · have hcount : s.server.count (.act r) s.ahead = s.ahead := by rw [Shutdown.count, hnone]
      rw [InTime, InTime, Watched.step, hlate, hcount, Shutdown.step_begun _ _ (by simp)]
    · rw [InTime, InTime, Watched.step, hlate, Shutdown.step_begun _ _ (by simp), Shutdown.lateWith]
      cases hbegun : s.server.main.begun with
      | true =>
        rw [← congrFun h i] at howing
        exact iff_of_false (fun hin ↦ by simpa using hin.1) fun hin ↦ howing (hin.2 rfl i)
      | false => simp
  | _ => exact (hother (by simp) (by simp) rfl).trans (and_iff_left trivial).symm

end Watched

/-! ## Handlers that go on -/

namespace Shutdown

variable {s s' : Shutdown} {file : Option Bytes} {l : Signal}

/-- A handler that has a task to submit is running on some sub-reactor. -/
def Manned (s : Shutdown) : Prop :=
  ∀ i, s.sys.owing i ≠ 0 → ∃ r ∈ s.reactors, r.stage.running = some i

theorem manned_start (n : ℕ) : (start n).Manned := fun _ h ↦ absurd rfl h

theorem Manned.congr (h : s.Manned) (hreactors : s'.reactors = s.reactors)
    (howing : ∀ i, s'.sys.owing i ≠ 0 → s.sys.owing i ≠ 0) : s'.Manned := by
  intro i hi
  rw [hreactors]
  exact h i (howing i hi)

/-- A sub-reactor goes on to something else. -/
theorem Manned.set (h : s.Manned) {r : ℕ} {sub sub' : SubReactor} (hr : s.reactors[r]? = some sub)
    (hreactors : s'.reactors = s.reactors.set r sub')
    (howing : ∀ i, s'.sys.owing i ≠ 0 →
      sub'.stage.running = some i ∨ s.sys.owing i ≠ 0 ∧ sub.stage.running ≠ some i) : s'.Manned := by
  obtain ⟨rest, hold, hnew⟩ := exists_perm_set hr
  intro i hi
  rw [hreactors]
  rcases howing i hi with hi | ⟨hi, hne⟩
  · exact ⟨sub', (hnew _).mem_iff.mpr List.mem_cons_self, hi⟩
  · obtain ⟨sub'', hsub, hrun⟩ := h i hi
    rcases List.mem_cons.mp (hold.mem_iff.mp hsub) with rfl | hsub
    · exact absurd hrun hne
    · exact ⟨sub'', (hnew _).mem_iff.mpr (List.mem_cons_of_mem _ hsub), hrun⟩

/-- A sub-reactor that runs no handler goes to another stage. -/
theorem Manned.setStage (h : s.Manned) {r : ℕ} {quit : Bool} {stage : Stage} (stage' : Stage)
    (hr : s.reactors[r]? = some ⟨quit, stage⟩) (hstage : stage.running = none) :
    (s.setStage r stage').Manned :=
  h.set hr (setStage_reactors hr) fun _ hi ↦ .inr ⟨hi, by simp [hstage]⟩

theorem count_act_le (s : Shutdown) (r : ℕ) (ahead : ℕ → ℕ) (i : ℕ) :
    s.count (.act r) ahead i ≤ ahead i := by
  rcases hadder : s.adder r with _ | j
  · rw [count, hadder]
  · rw [count, hadder]
    dsimp only
    by_cases hi : i = j
    · subst hi
      rw [Function.update_self]
      split
      · exact Nat.zero_le _
      · exact Nat.sub_le _ 1
    · rw [Function.update_of_ne hi]

theorem count_call_of_ne {r i j : ℕ} {quit : Bool} {active : List ℕ}
    (hr : s.reactors[r]? = some ⟨quit, .handling none (i :: active)⟩) (e : Event) (ahead : ℕ → ℕ)
    (hj : j ≠ i) : s.count (.call r e) ahead j = ahead j := by
  rcases hcallee : s.callee r with _ | ⟨i', c⟩
  · rw [count, hcallee]
  · rw [count, hcallee]
    rw [callee, hr] at hcallee
    obtain ⟨_, -, h⟩ := Option.map_eq_some_iff.mp hcallee
    obtain rfl : i = i' := congrArg Prod.fst h
    exact Function.update_of_ne hj ..

theorem Manned.step (h : s.Manned) (file : Option Bytes) (l : Signal) : (s.step file l).Manned := by
  have hsys := s.step_owing file l
  rcases s.step_moves file l with e | hm
  · rwa [e]
  generalize s.step file l = s' at hm hsys
  have hact : ∀ {r : ℕ}, l = .act r → ∀ j, s'.sys.owing j ≠ 0 → s.sys.owing j ≠ 0 := by
    rintro r rfl j hj
    rw [hsys] at hj
    exact fun hzero ↦ hj (Nat.eq_zero_of_le_zero (hzero ▸ s.count_act_le r s.sys.owing j))
  cases hm with
  | @tell k _ hk =>
    have hget : s.reactors[k]? = some s.reactors[k] := List.getElem?_eq_getElem hk
    have hset : s.reactors.modify k ({ · with quit := true }) =
        s.reactors.set k { s.reactors[k] with quit := true } := by
      rw [List.modify_eq_set_getElem?, hget]
      rfl
    exact h.set hget hset fun j hj ↦ or_iff_not_imp_left.mpr fun hne ↦ ⟨hj, hne⟩
  | enter hr | check hr | wake hr | again hr => exact h.setStage _ hr rfl
  | @call r i quit active e hr =>
    refine h.set hr (setStage_reactors hr) fun j hj ↦ ?_
    by_cases hi : j = i
    · exact .inl (by rw [hi]; rfl)
    · rw [hsys, count_call_of_ne hr e _ hi] at hj
      exact .inr ⟨hj, by simp [Stage.running]⟩
  | @finish r i quit active hr hdone =>
    refine h.set hr (setStage_reactors hr) fun j hj ↦ .inr ⟨hj, fun hrun ↦ hj ?_⟩
    obtain rfl : i = j := Option.some.inj hrun
    rcases hc : s.sys.clients[i]? with _ | c
    · exact congrArg (List.countP _) (congrArg (Option.getD · []) (congrArg (Option.map _) hc))
    · exact congrArg (List.countP _) ((Sys.todoOf_of_getElem? hc).trans (hdone c hc))
  | act | add => exact h.congr rfl (hact rfl)
  | @refuse r i quit active c t todo hr hc htodo hstop =>
    refine h.set hr (setStage_reactors hr) fun j hj ↦ .inr ⟨hact rfl j hj, fun hrun ↦ hj ?_⟩
    obtain rfl : i = j := Option.some.inj hrun
    rw [hsys, count, adder_of_running hr hc htodo, hstop]
    exact Function.update_self ..
  | _ => exact h.congr rfl fun j hj ↦ by rwa [hsys] at hj

/-- A handler that has a task to submit comes to it. -/
theorem exists_late {r i : ℕ} {quit : Bool} {active : List ℕ} (file : Option Bytes)
    (hr : s.reactors[r]? = some ⟨quit, .handling (some i) active⟩) (hbegun : s.main.begun = true)
    (howing : s.sys.owing i ≠ 0) : ∃ k, (s.run file (List.replicate k (.act r))).late ≠ [] := by
  induction htodo : s.sys.todoOf i generalizing s with
  | nil =>
    rw [Sys.owing, htodo] at howing
    exact absurd rfl howing
  | cons a todo ih =>
    obtain ⟨c, hc, hctodo⟩ : ∃ c, s.sys.clients[i]? = some c ∧ c.todo = a :: todo := by
      rcases hc : s.sys.clients[i]? with _ | c
      · rw [Sys.todoOf, hc] at htodo
        cases htodo
      · exact ⟨c, rfl, (Sys.todoOf_of_getElem? hc).symm.trans htodo⟩
    cases ha : a.isSubmit with
    | true =>
      refine ⟨1, ?_⟩
      rcases s.step_act_adder file r with ⟨hnone, -⟩ | ⟨_, t, -, -, -, hlate⟩
      · rw [adder_of_running hr hc hctodo, ha] at hnone
        cases hnone
      · rw [lateWith, if_pos hbegun] at hlate
        show (s.step file (.act r)).late ≠ []
        rw [hlate]
        simp
    | false =>
      have hstep : s.step file (.act r) = { s with sys := s.sys.step file (.act i) } := by
        rw [step, hr]
        show s.act file r i active = _
        rw [act, hc]
        dsimp only
        rw [hctodo]
        cases a with
        | submit t => cases ha
        | _ => rfl
      have htodo' : (s.step file (.act r)).sys.todoOf i = todo := by
        rw [hstep, Sys.todoOf_act file hc hctodo, Function.update_self]
      have howing' : (s.step file (.act r)).sys.owing i ≠ 0 := by
        have hcount := owing_of_todo hc hctodo
        rw [ha] at hcount
        rw [Sys.owing, htodo']
        rwa [hcount] at howing
      obtain ⟨k, hk⟩ := ih (s := s.step file (.act r)) (by rw [hstep]; exact hr)
        (by rw [hstep]; exact hbegun) howing' htodo'
      exact ⟨k + 1, hk⟩

/-- **No task is submitted to a pool that is being destroyed**, however far the handlers that are
running get, if and only if the run is timely. -/
theorem late_add_iff (file : Option Bytes) (n : ℕ) (ls : List Signal) :
    (∀ rs : List ℕ, ((start n).run file (ls ++ rs.map .act)).late = []) ↔
      Meets (Watched.step file) Watched.Timely (Watched.start n) ls := by
  have hin : ∀ ls, (ls.foldl (Watched.step file) (Watched.start n)).InTime ↔
      Meets (Watched.step file) Watched.Timely (Watched.start n) ls := fun ls ↦
    (holds_iff_meets (I := Watched.Counts) (fun _ l _ h ↦ h.step file l)
      (fun _ l _ h ↦ h.inTime_step file l) (Watched.counts_start n)).trans
      (and_iff_right ⟨rfl, fun h ↦ by cases h⟩)
  have hrun : ∀ ls, (ls.foldl (Watched.step file) (Watched.start n)).server =
      (start n).run file ls := Watched.foldl_step_server file _
  refine ⟨fun h ↦ (hin ls).mp ⟨?_, fun hbegun i ↦ ?_⟩, fun h rs ↦ ?_⟩
  · have hlate := h []
    rwa [List.map_nil, List.append_nil, ← hrun] at hlate
  · -- a handler that has a task to submit would come to it
    by_contra hahead
    have hinv : (ls.foldl (Watched.step file) (Watched.start n)).Counts ∧
        (ls.foldl (Watched.step file) (Watched.start n)).server.Manned :=
      (meets_of_forall (fun _ _ _ ↦ trivial) (Watched.start n) :
        Meets (Watched.step file) (fun _ _ ↦ True) (Watched.start n) ls).invariant
        (I := fun s ↦ s.Counts ∧ s.server.Manned)
        (fun s l h _ ↦ ⟨h.1.step file l, h.2.step file l⟩) ⟨Watched.counts_start n, manned_start n⟩
    rw [hinv.1] at hahead
    obtain ⟨⟨quit, stage⟩, hsub, hrunning⟩ := hinv.2 i hahead
    obtain ⟨r, hr⟩ := List.getElem?_of_mem hsub
    obtain ⟨active, rfl⟩ : ∃ active, stage = .handling (some i) active := by
      rcases stage with _ | _ | _ | ⟨running, active⟩ | _
      case handling => exact ⟨active, congrArg (Stage.handling · active) hrunning⟩
      all_goals cases hrunning
    obtain ⟨k, hk⟩ := exists_late file hr hbegun hahead
    refine hk ?_
    have hlate := h (List.replicate k r)
    rw [List.map_replicate, run, List.foldl_append] at hlate
    rw [hrun]
    exact hlate
  · have hin' : (List.foldl (Watched.step file) (Watched.start n) (ls ++ rs.map .act)).InTime := by
      refine (hin _).mpr (meets_append.mpr ⟨h, meets_of_forall (fun l hl s ↦ ?_) _⟩)
      obtain ⟨r, -, rfl⟩ := List.mem_map.mp hl
      trivial
    rw [← hrun]
    exact hin'.1

/-- A connection is accepted, and the server is stopped while the sub-reactor waits for it to send
something. -/
def stopWhilePolling : List Signal :=
  [.accept 5 0, .insert, .enter 0, .check 0, .stop, .tell, .tell, .destroy, .setStop]

-- If nothing comes, the sub-reactor wakes up after a second and sees the flag.
example : ((start 1).run none (stopWhilePolling ++
    [.wake 0 [], .again 0, .joinDb, .check 0, .joinTh])).main = .gone := by decide

/-- A request for the database pool. -/
def profileEvent : Event :=
  .readable 1 [.got (lit "GET /profile HTTP/1.1\r\nAuthorization: Bearer abc\r\n\r\n")] ⟨[], []⟩

/-- It comes in while the main thread is in the destructor of `dbPool_` already and the sub-reactor
is still in its last `epoll_wait`.  The handler gets as far as this many actions. -/
def profileTooLate (k : ℕ) : List Signal :=
  stopWhilePolling ++ .wake 0 [0] :: .call 0 profileEvent :: List.replicate k (.act 0)

/-- **A task is submitted to a pool that is being destroyed**, and `add` throws out of the event
loop. -/
theorem submitted_too_late :
    ((start 1).run none (profileTooLate 6)).main.begun = true ∧
      ((start 1).run none (profileTooLate 6)).late = [] ∧
      ((start 1).run none (profileTooLate 7)).late = [⟨0, 1, .profile 5 true (lit "abc")⟩] ∧
      ((start 1).run none (profileTooLate 7)).reactors = [⟨true, .left⟩] :=
  ⟨by decide +kernel, by decide +kernel, by decide +kernel, by decide +kernel⟩

end Shutdown

end ReactorServer
