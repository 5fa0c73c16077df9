import ReactorServer.Threads.Late
import ReactorServer.Lib.Progress
import Mathlib

/-!
# The server comes to an end

Once `Server::stop` has been called nothing keeps the process from ending.  Every thread has
something to wait for: the main thread joins the workers of `dbPool_`, which run what is left in the
queue, and then the sub-reactors, each of which may be in `epoll_wait`, or in the middle of a
handler that submits another task.  Nobody waits for anybody who waits for him, and nobody goes
round for ever: a sub-reactor that has been told to quit polls at most once more, and whatever its
last poll brings is a finite number of events, each of which makes a finite number of tasks.

`shutdown_completes` is both of it.  As long as the process is not gone there is a move that changes
something, and a schedule in which such a move always comes at some time reaches the end, with every
loop left, the queue empty, and no thread at a task.

How much there is to do is not bounded when the signal comes, since nobody knows what the last poll
brings.  So the rank is a tuple, and an event may add to what comes behind in it.
-/

set_option autoImplicit false

namespace ReactorServer

open Machine Program

/-- A sum over a list one entry of which is replaced. -/
theorem sum_map_set {γ : Type} {l : List γ} {i : ℕ} {a : γ} (h : l[i]? = some a) (f : γ → ℕ) (b : γ) :
    ((l.set i b).map f).sum + f a = (l.map f).sum + f b := by
  obtain ⟨rest, hold, hnew⟩ := exists_perm_set h
  rw [(hold.map f).sum_eq, ((hnew b).map f).sum_eq, List.map_cons, List.map_cons, List.sum_cons,
    List.sum_cons]
  omega

/-! ## What is left to do for the database pool -/

/-- The bytes of the response that a thread is writing. -/
def Running.unsent (k : Running) : ℕ :=
  match k.rest with
  | .call (.send statusCode body) _ =>
    (jsonResponse statusCode body k.ticket.task.keepAlive).length - k.written
  | _ => 0

/-- The calls a thread has still to make. -/
noncomputable def Running.calls (k : Running) : ℕ := k.rest.calls

/-- A thread that has a task has a call to make, and will be through with it. -/
def Running.Ends (k : Running) : Prop :=
  (∃ o next, k.rest = .call o next) ∧ ∃ n, AtMost n k.rest

theorem Running.ends_of_settle {k k' : Running} (h : k.settle = some k') {n : ℕ}
    (hn : AtMost n k.rest) : k'.Ends := by
  rw [settle] at h
  split at h
  · next o next hrest =>
    cases h
    exact ⟨⟨o, next, hrest⟩, n, hn⟩
  · cases h

theorem Running.calls_settle (k : Running) : (k.settle.map Running.calls).getD 0 ≤ k.rest.calls := by
  rw [settle]
  split
  · exact le_rfl
  · exact Nat.zero_le _

namespace Sys

variable {s s' : Sys} (file : Option Bytes)

/-- The actions that handlers have still to perform. -/
def todos (s : Sys) : ℕ := (s.clients.map fun c ↦ c.todo.length).sum

/-- A bound for what handlers and threads have still to do: an action may submit a task, and a task
makes at most fifteen calls. -/
noncomputable def work (s : Sys) : ℕ :=
  17 * s.todos + 16 * s.queue.length + (s.threads.map fun k ↦ (k.map Running.calls).getD 0).sum

/-- The bytes that threads are writing. -/
def unsent (s : Sys) : ℕ := (s.threads.map fun k ↦ (k.map Running.unsent).getD 0).sum

theorem todos_eq (h : s'.clients.map Client.todo = s.clients.map Client.todo) : s'.todos = s.todos := by
  have key : ∀ s : Sys, s.todos = ((s.clients.map Client.todo).map List.length).sum := by
    intro s
    rw [todos, List.map_map]
    rfl
  rw [key, key, h]

/-! ### Actions -/

theorem effect_threads (s : Sys) (i : ℕ) (c : Client) (a : Act) :
    (effect s i c a).threads = s.threads := by
  rcases a with _ | _ | _ | _ | _ | _ | _ | _ | _ | _ | _ | _ | _
  case complete =>
    rw [effect, logReply]
    split
    · rfl
    · rfl
  case delete =>
    rw [effect, deleteConnection]
    split
    · rfl
    · rfl
  all_goals rfl

theorem effect_queue (s : Sys) (i : ℕ) (c : Client) (a : Act) :
    (effect s i c a).queue = s.queue ∨
      ∃ t, a = .submit t ∧ (effect s i c a).queue = s.queue ++ [⟨i, c.asked, t⟩] := by
  rcases a with _ | _ | _ | _ | _ | _ | _ | _ | _ | _ | _ | t | _
  case submit => exact .inr ⟨t, rfl, rfl⟩
  case complete =>
    rw [effect, logReply]
    split
    · exact .inl rfl
    · exact .inl rfl
  case delete =>
    rw [effect, deleteConnection]
    split
    · exact .inl rfl
    · exact .inl rfl
  all_goals exact .inl rfl

section Act

variable {i : ℕ} {c : Client} {a : Act} {todo : List Act}

/-- An action is taken off the list of its handler; a submission goes to the queue. -/
theorem step_act_work (hc : s.clients[i]? = some c) (htodo : c.todo = a :: todo) :
    (s.step file (.act i)).threads = s.threads ∧
      ((s.step file (.act i)).queue = s.queue ∨
        ∃ t, a = .submit t ∧ (s.step file (.act i)).queue.length = s.queue.length + 1) ∧
      (s.step file (.act i)).todos + 1 = s.todos := by
  rcases step_act_cases file s i with ⟨hnone, -⟩ | ⟨c', a', todo', hc', htodo', h⟩
  · rw [nextAct_eq hc htodo] at hnone
    cases hnone
  obtain rfl := Option.some.inj (hc.symm.trans hc')
  obtain ⟨rfl, rfl⟩ := List.cons_eq_cons.mp (htodo.symm.trans htodo')
  rw [h]
  refine ⟨effect_threads .., ?_, ?_⟩
  · rcases effect_queue { s with clients := s.clients.set i { c.note a with todo := todo } } i c a
      with hqueue | ⟨t, rfl, hqueue⟩
    · exact .inl hqueue
    · refine .inr ⟨t, rfl, ?_⟩
      rw [hqueue, List.length_append]
      rfl
  · rw [todos_eq (effect_todo ..)]
    have hset : ((s.clients.set i { c.note a with todo := todo }).map fun c ↦ c.todo.length).sum +
        c.todo.length = (s.clients.map fun c ↦ c.todo.length).sum + todo.length :=
      sum_map_set hc (fun c ↦ c.todo.length) _
    rw [htodo, List.length_cons] at hset
    show ((s.clients.set i { c.note a with todo := todo }).map fun c ↦ c.todo.length).sum + 1 =
      (s.clients.map fun c ↦ c.todo.length).sum
    omega

theorem work_act_lt (hc : s.clients[i]? = some c) (htodo : c.todo = a :: todo) :
    (s.step file (.act i)).work < s.work := by
  obtain ⟨hthreads, hqueue, htodos⟩ := step_act_work file hc htodo
  rw [work, work, hthreads]
  rcases hqueue with hqueue | ⟨t, -, hqueue⟩
  · rw [hqueue]
    omega
  · rw [hqueue]
    omega

end Act

/-! ### Threads -/

/-- What holds of the threads at any time. -/
structure Staffed (s : Sys) : Prop where
  size : s.threads.length = kDbThreads
  ends : ∀ k, some k ∈ s.threads → k.Ends

theorem staffed_start : start.Staffed :=
  ⟨rfl, fun k hk ↦ absurd (List.eq_of_mem_replicate hk) (by simp)⟩

theorem Staffed.congr (h : s.Staffed) (hthreads : s'.threads = s.threads) : s'.Staffed :=
  ⟨by rw [hthreads, h.size], fun k hk ↦ h.ends k (hthreads ▸ hk)⟩

/-- A new connection, and the call of a handler, are nothing to the threads. -/
theorem step_threads (s : Sys) {l : Label} (hl : l.isDb = false) (hact : ∀ i, l ≠ .act i) :
    (s.step file l).queue = s.queue ∧ (s.step file l).threads = s.threads := by
  cases l with
  | accept fd now =>
    rw [step]
    split
    · exact ⟨rfl, rfl⟩
    · exact ⟨rfl, rfl⟩
  | insert =>
    rw [step]
    split
    · exact ⟨rfl, rfl⟩
    · exact ⟨rfl, rfl⟩
  | event i e =>
    rcases step_event_cases file s i e with h | ⟨c, -, -, -, h⟩
    · rw [h]
      exact ⟨rfl, rfl⟩
    · rw [h]
      exact ⟨rfl, rfl⟩
  | act i => exact absurd rfl (hact i)
  | _ => cases hl

/-- A thread goes on. -/
theorem Staffed.set (h : s.Staffed) {w : ℕ} {k : Running} {n : ℕ} (hn : AtMost n k.rest)
    (hthreads : s'.threads = s.threads.set w k.settle) : s'.Staffed := by
  refine ⟨by rw [hthreads, List.length_set, h.size], fun k' hk' ↦ ?_⟩
  rw [hthreads] at hk'
  rcases List.mem_or_eq_of_mem_set hk' with hk' | hk'
  · exact h.ends k' hk'
  · exact Running.ends_of_settle hk'.symm hn

/-- Another number of calls for one thread. -/
theorem work_set {w : ℕ} {old new : Option Running} (hw : s.threads[w]? = some old)
    (hthreads : s'.threads = s.threads.set w new) (htodos : s'.todos = s.todos) :
    s'.work + 16 * s.queue.length + (old.map Running.calls).getD 0 =
      s.work + 16 * s'.queue.length + (new.map Running.calls).getD 0 := by
  have hset := sum_map_set hw (fun k ↦ (k.map Running.calls).getD 0) new
  rw [work, work, hthreads, htodos]
  omega

/-- **A step on the way to the end** of the tasks: a call has been made, or some bytes of a response
have been written. -/
structure Proceeds (s s' : Sys) : Prop where
  staffed : s'.Staffed
  todos : s'.todos = s.todos
  busy : s.queue ≠ [] ∨ ∃ k, some k ∈ s.threads
  lt : s'.work < s.work ∨ s'.work = s.work ∧ s'.unsent < s.unsent

/-- A call of a thread is behind it. -/
theorem Staffed.proceeds (h : s.Staffed) {w : ℕ} {k : Running} (k' : Running) {o : Call}
    {next : Option o.Res → Job PUnit} {r : Option o.Res} (hw : s.threads[w]? = some (some k))
    (hrest : k.rest = .call o next) (hrest' : k'.rest = next r)
    (hthreads : s'.threads = s.threads.set w k'.settle) (hqueue : s'.queue = s.queue)
    (htodos : s'.todos = s.todos) : Proceeds s s' := by
  obtain ⟨-, n, hn⟩ := h.ends k (List.mem_of_getElem? hw)
  rw [hrest] at hn
  have hlt : (next r).calls < (Program.call o next).calls := calls_next_lt hn r
  have hnext : AtMost n (next r) := by
    rcases n with _ | n
    · exact absurd hn id
    · exact atMost_mono (Nat.le_succ n) (hn r)
  refine ⟨h.set (hrest' ▸ hnext) hthreads, htodos, .inr ⟨k, List.mem_of_getElem? hw⟩, .inl ?_⟩
  have hset := work_set hw hthreads htodos
  have hcalls := k'.calls_settle
  have hold : k.calls = (Program.call o next).calls := congrArg Program.calls hrest
  rw [hrest'] at hcalls
  simp only [Option.map_some, Option.getD_some, hqueue] at hset
  omega

theorem proceeds_take (h : s.Staffed) {w : ℕ} {t : Ticket} {queue : List Ticket}
    (hw : s.threads[w]? = some none) (hqueue : s.queue = t :: queue) :
    Proceeds s { s with queue := queue
                        threads := s.threads.set w (Running.settle ⟨t, t.task.work, 0, false⟩) } := by
  refine ⟨h.set (k := ⟨t, t.task.work, 0, false⟩) (work_atMost t.task) rfl, rfl,
    .inl (by simp [hqueue]), .inl ?_⟩
  set s' : Sys := { s with
    queue := queue, threads := s.threads.set w (Running.settle ⟨t, t.task.work, 0, false⟩) }
  have hset := work_set hw (show s'.threads = s.threads.set w _ from rfl) rfl
  have hcalls := Running.calls_settle ⟨t, t.task.work, 0, false⟩
  have hmost : t.task.work.calls ≤ 15 := calls_le (work_atMost t.task)
  have hlen : s.queue.length = s'.queue.length + 1 := by
    rw [hqueue]
    rfl
  simp only [Option.map_none, Option.getD_none] at hset
  dsimp only at hcalls
  omega

/-- Some bytes of a response go out, and not the last ones. -/
theorem proceeds_write (h : s.Staffed) {w n : ℕ} {k : Running} {statusCode : ℕ} {body data : Bytes}
    {next : Option PUnit → Job PUnit} {wire : List Delivery} (hw : s.threads[w]? = some (some k))
    (hrest : k.rest = .call (.send statusCode body) next)
    (hdata : data = ((jsonResponse statusCode body k.ticket.task.keepAlive).drop k.written).take (n + 1))
    (hlt : k.written + data.length <
      (jsonResponse statusCode body k.ticket.task.keepAlive).length) :
    Proceeds s { s with wire := wire
                        threads := s.threads.set w
                          (some { k with written := k.written + data.length }) } := by
  obtain ⟨hcall, m, hm⟩ := h.ends k (List.mem_of_getElem? hw)
  have hpos : 0 < data.length := by
    rw [hdata, List.length_take, List.length_drop]
    omega
  refine ⟨⟨by rw [List.length_set, h.size], fun k' hk' ↦ ?_⟩, rfl, .inr ⟨k, List.mem_of_getElem? hw⟩,
    .inr ⟨?_, ?_⟩⟩
  · rcases List.mem_or_eq_of_mem_set hk' with hk' | hk'
    · exact h.ends k' hk'
    · cases hk'
      exact ⟨hcall, m, hm⟩
  · set s' : Sys := { s with
      wire := wire, threads := s.threads.set w (some { k with written := k.written + data.length }) }
    have hset : s'.work + 16 * s.queue.length + k.calls = s.work + 16 * s.queue.length + k.calls :=
      work_set hw (show s'.threads = s.threads.set w _ from rfl) rfl
    omega
  · set k' : Running := { k with written := k.written + data.length }
    have hset : ((s.threads.set w (some k')).map fun k ↦ (k.map Running.unsent).getD 0).sum + k.unsent =
        (s.threads.map fun k ↦ (k.map Running.unsent).getD 0).sum + k'.unsent :=
      sum_map_set hw (fun k ↦ (k.map Running.unsent).getD 0) (some k')
    have hold : k.unsent =
        (jsonResponse statusCode body k.ticket.task.keepAlive).length - k.written := by
      rw [Running.unsent, hrest]
    have hnew : k'.unsent = (jsonResponse statusCode body k.ticket.task.keepAlive).length -
        (k.written + data.length) := by
      rw [Running.unsent, show k'.rest = .call (.send statusCode body) next from hrest]
    show ((s.threads.set w (some k')).map fun k ↦ (k.map Running.unsent).getD 0).sum <
      (s.threads.map fun k ↦ (k.map Running.unsent).getD 0).sum
    omega

/-- **What the database side does**: nothing, an entry expires, or it gets on. -/
theorem db_cases (h : s.Staffed) {l : Label} (hl : l.isDb = true) :
    s.step file l = s ∨ (∃ key, l = .expire key) ∨ Proceeds s (s.step file l) := by
  cases l with
  | take w =>
    rcases step_take_cases file s w with e | ⟨t, queue, hw, hqueue, e⟩
    · exact .inl e
    · rw [e]
      exact .inr (.inr (proceeds_take h hw hqueue))
  | call w out =>
    rcases step_call_cases file s w out with e | ⟨k, o, next, store, r, hw, hrest, -, -, e⟩
    · exact .inl e
    · rw [e]
      exact .inr (.inr (h.proceeds { k with rest := next r } hw hrest rfl rfl rfl rfl))
  | write w r =>
    rcases step_write_cases file s w r with e | ⟨k, statusCode, body, next, hw, hrest, hcases⟩
    · exact .inl e
    · refine .inr (.inr ?_)
      have hended : ∀ s' : Sys, s'.threads = s.threads.set w
          (Running.settle ⟨k.ticket, next (some ⟨⟩), 0, true⟩) → s'.queue = s.queue →
          s'.todos = s.todos → Proceeds s s' := fun s' hthreads hqueue htodos ↦
        h.proceeds ⟨k.ticket, next (some ⟨⟩), 0, true⟩ hw hrest rfl hthreads hqueue htodos
      rcases hcases with ⟨-, e⟩ | ⟨j, n, data, -, -, hdata, ⟨hlt, e⟩ | e⟩
      · rw [e]
        exact hended _ rfl rfl rfl
      · rw [e]
        exact proceeds_write h hw hrest hdata hlt
      · rw [e]
        exact hended _ rfl rfl (todos_eq (todo_modify s.clients j _))
  | expire key => exact .inr (.inl ⟨key, rfl⟩)
  | _ => exact absurd hl (by simp [Label.isDb])

end Sys

namespace Store

/-- Every call can come out in some way. -/
theorem exists_exec (s : Store) (o : Call) : ∃ out, (s.exec o out).isSome = true := by
  rcases o with _ | _ | _ | _ | _ | _ | _ | _ | _
  case redisRelease | redisDiscard | mysqlRelease | send => exact ⟨.served, rfl⟩
  all_goals exact ⟨.throws, rfl⟩

end Store

namespace Sys

/-- As long as there is a task, some thread can go on. -/
theorem Staffed.exists_proceeds {s : Sys} (h : s.Staffed) (file : Option Bytes)
    (hbusy : s.queue ≠ [] ∨ ∃ k, some k ∈ s.threads) :
    ∃ l, l.isDb = true ∧ (∀ key, l ≠ .expire key) ∧ Proceeds s (s.step file l) := by
  by_cases hthread : ∃ k, some k ∈ s.threads
  · obtain ⟨k, hk⟩ := hthread
    obtain ⟨w, hw⟩ := List.getElem?_of_mem hk
    obtain ⟨⟨o, next, hrest⟩, -⟩ := h.ends k hk
    obtain ⟨ticket, rest, written, sent⟩ := k
    dsimp only at hrest
    subst hrest
    by_cases ho : ∃ statusCode body, o = .send statusCode body
    · -- the peer is gone, or does not read
      obtain ⟨statusCode, body, rfl⟩ := ho
      refine ⟨.write w (.fail .EAGAIN), rfl, by simp,
        h.proceeds ⟨ticket, next (some ⟨⟩), 0, true⟩ hw rfl rfl ?_ ?_ ?_⟩
      all_goals rw [step, hw]
      all_goals dsimp only [sendStep]
      all_goals split
      all_goals rfl
    · have ho' : o.isSend = false := by
        rcases o with _ | _ | _ | _ | _ | _ | _ | _ | ⟨statusCode, body⟩
        case send => exact absurd ⟨statusCode, body, rfl⟩ ho
        all_goals rfl
      obtain ⟨out, hout⟩ := s.store.exists_exec o
      obtain ⟨⟨store, r⟩, hexec⟩ := Option.isSome_iff_exists.mp hout
      have hstep : s.step file (.call w out) = { s with
          store := store, threads := s.threads.set w (Running.settle ⟨ticket, next r, written, sent⟩) } := by
        rw [step, hw]
        dsimp only
        rw [ho', hexec]
        rfl
      refine ⟨.call w out, rfl, by simp, ?_⟩
      rw [hstep]
      exact h.proceeds ⟨ticket, next r, written, sent⟩ hw rfl rfl rfl rfl rfl
  · obtain ⟨t, queue, hqueue⟩ := List.exists_cons_of_ne_nil (hbusy.resolve_right hthread)
    have hlt : 0 < s.threads.length := by
      rw [h.size]
      decide
    have hidle : s.threads[0]? = some none := by
      rw [List.getElem?_eq_getElem hlt, Option.some_inj]
      by_contra hne
      obtain ⟨k, hk⟩ := Option.ne_none_iff_exists'.mp hne
      exact hthread ⟨k, hk ▸ List.getElem_mem hlt⟩
    have hstep : s.step file (.take 0) = { s with
        queue := queue, threads := s.threads.set 0 (Running.settle ⟨t, t.task.work, 0, false⟩) } := by
      rw [step, hidle, hqueue]
    refine ⟨.take 0, rfl, by simp, ?_⟩
    rw [hstep]
    exact proceeds_take h hidle hqueue

end Sys

/-! ## What a move can do -/

/-- How many of `n` sub-reactors `Server::stop` has told. -/
def MainThread.told (n : ℕ) : MainThread → ℕ
  | .looping => 0
  | .stopping k => k
  | _ => n

/-- The threads of `dbPool_` have been joined. -/
def MainThread.joined : MainThread → Bool
  | .thPool | .gone => true
  | _ => false

namespace Shutdown

variable {s s' : Shutdown} {file : Option Bytes} {l : Signal}

/-! ## What holds along the way -/

/-- The flags of the sub-reactors. -/
def flags (s : Shutdown) : List Bool := s.reactors.map SubReactor.quit

/-- What holds in every state. -/
structure Inv (s : Shutdown) : Prop where
  staffed : s.sys.Staffed
  told : ∀ (r : ℕ) (q : Bool), s.flags[r]? = some q → r < s.main.told s.reactors.length → q = true
  joined : s.main.joined = true →
    s.dbStop = true ∧ s.sys.queue = [] ∧ ∀ k ∈ s.sys.threads, k = none
  left : s.main = .gone → ∀ r ∈ s.reactors, r.stage = .left

theorem inv_start (n : ℕ) : (start n).Inv where
  staffed := Sys.staffed_start
  told _ _ _ hr := absurd hr (Nat.not_lt_zero _)
  joined h := by cases h
  left h := by cases h

section Reactors

variable {r : ℕ} {quit : Bool} {stage stage' : Stage}

theorem setStage_flags (s : Shutdown) (r : ℕ) (stage : Stage) : (s.setStage r stage).flags = s.flags := by
  refine List.ext_getElem? fun j ↦ ?_
  rw [flags, flags, List.getElem?_map, List.getElem?_map, setStage, List.getElem?_modify]
  rcases s.reactors[j]? with _ | sub
  · rfl
  · by_cases hj : r = j
    · simp [hj]
    · simp [hj]

/-- A sub-reactor is at something else now. -/
theorem Inv.setStage (h : s.Inv) (hr : s.reactors[r]? = some ⟨quit, stage⟩) (hstage : stage ≠ .left) :
    (s.setStage r stage').Inv := by
  refine ⟨h.staffed, fun j q hj hlt ↦ ?_, h.joined, fun hgone ↦ ?_⟩
  · rw [setStage_flags] at hj
    rw [setStage_reactors hr, List.length_set] at hlt
    exact h.told j q hj hlt
  · exact absurd (h.left hgone _ (List.mem_of_getElem? hr)) hstage

end Reactors

/-- Handlers and threads go on. -/
theorem Inv.sys (h : s.Inv) {sys : Sys} {late : List Ticket} (hstaffed : sys.Staffed)
    (hjoined : s.main.joined = true → sys.queue = s.sys.queue ∧ sys.threads = s.sys.threads) :
    Inv { s with sys := sys, late := late } := by
  refine ⟨hstaffed, h.told, fun hj ↦ ?_, h.left⟩
  obtain ⟨hstop, hqueue, hthreads⟩ := h.joined hj
  obtain ⟨hqueue', hthreads'⟩ := hjoined hj
  exact ⟨hstop, hqueue'.trans hqueue, fun k hk ↦ hthreads k (hthreads' ▸ hk)⟩

/-- The main thread goes on. -/
theorem Inv.main (h : s.Inv) {m : MainThread}
    (htold : m.told s.reactors.length ≤ s.main.told s.reactors.length)
    (hjoined : m.joined = true →
      s.dbStop = true ∧ s.sys.queue = [] ∧ ∀ k ∈ s.sys.threads, k = none)
    (hleft : m = .gone → ∀ r ∈ s.reactors, r.stage = .left) : Inv { s with main := m } :=
  ⟨h.staffed, fun r q hq hr ↦ h.told r q hq (hr.trans_le htold), hjoined, hleft⟩

/-- The next sub-reactor is told to quit. -/
theorem Inv.tell (h : s.Inv) {k : ℕ} (hmain : s.main = .stopping k) : Inv { s with
    reactors := s.reactors.modify k ({ · with quit := true }), main := .stopping (k + 1) } := by
  refine ⟨h.staffed, fun r q hq hr ↦ ?_, nofun, nofun⟩
  change ((s.reactors.modify k ({ · with quit := true })).map SubReactor.quit)[r]? = some q at hq
  rw [List.getElem?_map, List.getElem?_modify] at hq
  rcases Nat.lt_succ_iff_lt_or_eq.mp hr with hlt | rfl
  · have hold : s.flags[r]? = some q := by
      rw [flags, List.getElem?_map]
      simpa [(Nat.ne_of_lt hlt).symm] using hq
    refine h.told r q hold ?_
    rw [hmain]
    exact hlt
  · obtain ⟨sub, hsub, rfl⟩ := Option.map_eq_some_iff.mp hq
    obtain ⟨old, -, rfl⟩ := Option.map_eq_some_iff.mp hsub
    rw [if_pos rfl]

theorem Inv.moves (h : s.Inv) (hm : Moves file s l s') : s'.Inv := by
  cases hm with
  | @accept fd now hmain =>
    have hsame := s.sys.step_threads file (l := .accept fd now) rfl nofun
    exact h.sys (h.staffed.congr hsame.2) fun _ ↦ hsame
  | insert hmain =>
    have hsame := s.sys.step_threads file (l := .insert) rfl nofun
    exact h.sys (h.staffed.congr hsame.2) fun _ ↦ hsame
  | stop hmain => exact h.main (Nat.zero_le _) nofun nofun
  | tell hmain hk => exact h.tell hmain
  | leave hmain hk => exact h.main (by rw [hmain]; exact hk) nofun nofun
  | destroy hmain => exact h.main (by rw [hmain]; exact le_rfl) nofun nofun
  | setStop hmain => exact ⟨h.staffed, h.told, fun hj ↦ ⟨rfl, (h.joined hj).2⟩, h.left⟩
  | joinDb hmain hstop hqueue hthreads =>
    exact h.main (by rw [hmain]; exact le_rfl) (fun _ ↦ ⟨hstop, hqueue, hthreads⟩) nofun
  | joinTh hmain hleft =>
    refine h.main (by rw [hmain]; exact le_rfl) (fun _ ↦ h.joined ?_) fun _ ↦ hleft
    rw [hmain]
    rfl
  | @call r i quit active e hr =>
    have hsame := s.sys.step_threads file (l := .event i e) rfl nofun
    exact (h.setStage hr (by simp)).sys (h.staffed.congr hsame.2) fun _ ↦ hsame
  | act hr hc htodo ha =>
    obtain ⟨hthreads, hqueue, -⟩ := Sys.step_act_work file hc htodo
    refine h.sys (h.staffed.congr hthreads) fun _ ↦ ⟨hqueue.resolve_right ?_, hthreads⟩
    rintro ⟨t, rfl, -⟩
    cases ha
  | add hr hc htodo hstop =>
    obtain ⟨hthreads, -, -⟩ := Sys.step_act_work file hc htodo
    refine h.sys (h.staffed.congr hthreads) fun hj ↦ ?_
    cases (h.joined hj).1.symm.trans hstop
  | refuse hr => exact (h.setStage hr (by simp)).sys (h.staffed.congr rfl) fun _ ↦ ⟨rfl, rfl⟩
  | db hl =>
    rcases Sys.db_cases file h.staffed hl with e | ⟨key, rfl⟩ | hproceeds
    · rw [e]
      exact h
    · exact h.sys (h.staffed.congr rfl) fun _ ↦ ⟨rfl, rfl⟩
    · refine h.sys hproceeds.staffed fun hj ↦ ?_
      obtain ⟨-, hqueue, hthreads⟩ := h.joined hj
      rcases hproceeds.busy with hbusy | ⟨k, hk⟩
      · exact absurd hqueue hbusy
      · cases hthreads _ hk
  | enter hr | check hr | wake hr | again hr | finish hr => exact h.setStage hr (by simp)

theorem Inv.step (h : s.Inv) (file : Option Bytes) (l : Signal) : (s.step file l).Inv := by
  rcases s.step_moves file l with e | hm
  · rwa [e]
  · exact h.moves hm

end Shutdown

/-! ## The way to the end -/

/-- How far a sub-reactor is from the end of its loop, when it has been told to quit. -/
def Stage.rank : Stage → ℕ
  | .left => 0
  | .top => 1
  | .queued => 2
  | .handling .. => 2
  | .polling => 3

theorem Stage.rank_le (stage : Stage) : stage.rank ≤ 3 := by
  cases stage with
  | top | queued | polling | handling | left => simp [Stage.rank]

/-- The handlers it has to call, and the one it has to get through with. -/
def Stage.handlers : Stage → ℕ
  | .handling running active => 2 * active.length + (if running.isSome then 1 else 0)
  | _ => 0

/-- How far the main thread is from the end, when it has left its loop. -/
def MainThread.rank (dbStop : Bool) : MainThread → ℕ
  | .left => 5
  | .dbPool => if dbStop then 3 else 4
  | .thPool => 2
  | _ => 0

/-- The main thread has left its loop. -/
def MainThread.out : MainThread → Bool
  | .looping | .stopping _ => false
  | _ => true

theorem MainThread.told_of_out {m : MainThread} (h : m.out = true) (n : ℕ) : m.told n = n := by
  rcases m with _ | k | _ | _ | _ | _
  case looping | stopping => cases h
  all_goals rfl

namespace Shutdown

variable {s s' : Shutdown} {file : Option Bytes} {l : Signal}

def distance (s : Shutdown) : ℕ :=
  s.main.rank s.dbStop + (s.reactors.map fun r ↦ r.stage.rank).sum

def handlers (s : Shutdown) : ℕ := (s.reactors.map fun r ↦ r.stage.handlers).sum

/-- What is left to do when the main loop has been left: stages of the threads, then handlers to be
called, then actions and calls to be made, then bytes to be written.  Each may add to the next. -/
noncomputable def remaining (s : Shutdown) : ℕ ×ₗ ℕ ×ₗ ℕ ×ₗ ℕ :=
  toLex (s.distance, toLex (s.handlers, toLex (s.sys.work, s.sys.unsent)))

theorem remaining_lt (h : s'.distance < s.distance ∨ s'.distance = s.distance ∧
    (s'.handlers < s.handlers ∨ s'.handlers = s.handlers ∧
      (s'.sys.work < s.sys.work ∨ s'.sys.work = s.sys.work ∧ s'.sys.unsent < s.sys.unsent))) :
    s'.remaining < s.remaining := by
  simpa only [remaining, Prod.Lex.toLex_lt_toLex, Prod.Lex.toLex_lt_toLex] using h

/-- What `f` says of the stages, when a sub-reactor goes on. -/
theorem sum_setStage {r : ℕ} {quit : Bool} {stage : Stage} (hr : s.reactors[r]? = some ⟨quit, stage⟩)
    (f : Stage → ℕ) (stage' : Stage) :
    ((s.setStage r stage').reactors.map fun r ↦ f r.stage).sum + f stage =
      (s.reactors.map fun r ↦ f r.stage).sum + f stage' := by
  rw [setStage_reactors hr]
  exact sum_map_set hr (fun r ↦ f r.stage) ⟨quit, stage'⟩

theorem distance_setStage_lt {r : ℕ} {quit : Bool} {stage : Stage} (stage' : Stage)
    (hr : s.reactors[r]? = some ⟨quit, stage⟩) (hlt : stage'.rank < stage.rank) :
    (s.setStage r stage').distance < s.distance := by
  have hsum := sum_setStage hr Stage.rank stage'
  have hmain : (s.setStage r stage').main.rank (s.setStage r stage').dbStop = s.main.rank s.dbStop := rfl
  rw [distance, distance, hmain]
  omega

theorem handlers_setStage_lt {r : ℕ} {quit : Bool} {stage : Stage} (stage' : Stage)
    (hr : s.reactors[r]? = some ⟨quit, stage⟩) (hrank : stage'.rank = stage.rank)
    (hlt : stage'.handlers < stage.handlers) :
    (s.setStage r stage').distance = s.distance ∧ (s.setStage r stage').handlers < s.handlers := by
  have hsum := sum_setStage hr Stage.rank stage'
  have hsum' := sum_setStage hr Stage.handlers stage'
  have hmain : (s.setStage r stage').main.rank (s.setStage r stage').dbStop = s.main.rank s.dbStop := rfl
  rw [distance, distance, hmain, handlers, handlers]
  omega

/-- A sub-reactor has been told to quit when the main loop has been left. -/
theorem Inv.quit (h : s.Inv) (hout : s.main.out = true) {r : ℕ} {quit : Bool} {stage : Stage}
    (hr : s.reactors[r]? = some ⟨quit, stage⟩) : quit = true := by
  refine h.told r quit ?_ ?_
  · rw [flags, List.getElem?_map, hr]
    rfl
  · rw [MainThread.told_of_out hout]
    exact (List.getElem?_eq_some_iff.mp hr).1

/-- **Every move gets closer to the end**, those of the database side apart. -/
theorem Moves.remaining_lt (hm : Moves file s l s') (h : s.Inv) (hout : s.main.out = true)
    (hdb : ∀ l', l ≠ .db l') (hset : l = .setStop → s.dbStop = false) : s'.remaining < s.remaining := by
  have hmain : ∀ {m : MainThread}, m.rank s.dbStop < s.main.rank s.dbStop →
      Shutdown.remaining { s with main := m } < s.remaining := fun hlt ↦
    Shutdown.remaining_lt (.inl (Nat.add_lt_add_right hlt _))
  cases hm with
  | accept hlooping | insert hlooping | stop hlooping =>
    rw [hlooping] at hout
    cases hout
  | tell hstopping | leave hstopping =>
    rw [hstopping] at hout
    cases hout
  | destroy hleft =>
    refine hmain ?_
    rw [hleft, MainThread.rank, MainThread.rank]
    split
    · decide
    · decide
  | setStop hpool =>
    refine Shutdown.remaining_lt (.inl (Nat.add_lt_add_right ?_ _))
    show s.main.rank true < s.main.rank s.dbStop
    rw [hpool, hset rfl]
    decide
  | joinDb hpool hstop hqueue hthreads =>
    refine hmain ?_
    rw [hpool, hstop]
    decide
  | joinTh hpool hleft =>
    refine hmain ?_
    rw [hpool]
    exact Nat.zero_lt_two
  | enter hr => exact Shutdown.remaining_lt (.inl (distance_setStage_lt _ hr (by decide)))
  | check hr =>
    obtain rfl := h.quit hout hr
    exact Shutdown.remaining_lt (.inl (distance_setStage_lt _ hr (by decide)))
  | wake hr => exact Shutdown.remaining_lt (.inl (distance_setStage_lt _ hr (by simp [Stage.rank])))
  | @call r i quit active e hr =>
    have hlt := handlers_setStage_lt (.handling (some i) active) hr rfl
      (by simp only [Stage.handlers, List.length_cons, Option.isSome_some, Option.isSome_none]; simp; omega)
    exact Shutdown.remaining_lt (.inr ⟨hlt.1, .inl hlt.2⟩)
  | again hr => exact Shutdown.remaining_lt (.inl (distance_setStage_lt _ hr (by decide)))
  | @finish r i quit active hr =>
    have hlt := handlers_setStage_lt (.handling none active) hr rfl (by simp [Stage.handlers])
    exact Shutdown.remaining_lt (.inr ⟨hlt.1, .inl hlt.2⟩)
  | act hr hc htodo | add hr hc htodo =>
    exact Shutdown.remaining_lt (.inr ⟨rfl, .inr ⟨rfl, .inl (Sys.work_act_lt file hc htodo)⟩⟩)
  | refuse hr =>
    exact Shutdown.remaining_lt (.inl (distance_setStage_lt .left hr Nat.zero_lt_two))
  | db hl => exact absurd rfl (hdb _)

/-- What is left to do from the time on at which `Server::stop` is called. -/
noncomputable def rank (s : Shutdown) : ℕ ×ₗ ℕ ×ₗ ℕ ×ₗ ℕ :=
  match s.main with
  | .stopping k => toLex (6 + 3 * s.reactors.length + (s.reactors.length - k), toLex (0, toLex (0, 0)))
  | _ => s.remaining

/-- The move gets on with it: it changes something, and is not the expiry of a Redis entry.  While
`Server::stop` goes through the sub-reactors, only that counts. -/
def Advances (file : Option Bytes) (s : Shutdown) (l : Signal) : Prop :=
  s.step file l ≠ s ∧ (∀ k, s.main = .stopping k → l = .tell) ∧ ∀ key, l ≠ .db (.expire key)

theorem rank_of_out (h : s.main.out = true) : s.rank = s.remaining := by
  rw [rank]
  split
  · next k hmain =>
    rw [hmain] at h
    cases h
  · rfl

theorem rank_of_stopping {k : ℕ} (h : s.main = .stopping k) : s.rank =
    toLex (6 + 3 * s.reactors.length + (s.reactors.length - k), toLex (0, toLex (0, 0))) := by
  rw [rank, h]

theorem distance_left_lt (s : Shutdown) :
    distance { s with main := .left } < 6 + 3 * s.reactors.length := by
  have hle : ∀ x ∈ s.reactors.map fun r ↦ r.stage.rank, x ≤ 3 := by
    intro x hx
    obtain ⟨r, -, rfl⟩ := List.mem_map.mp hx
    exact r.stage.rank_le
  have hsum := List.sum_le_card_nsmul _ 3 hle
  rw [List.length_map, smul_eq_mul] at hsum
  have hmain : MainThread.rank s.dbStop .left = 5 := rfl
  rw [distance, hmain]
  dsimp only
  omega

/-- While `Server::stop` is under way the others only go round. -/
theorem Moves.rank_stopping (hm : Moves file s l s') {k : ℕ} (hmain : s.main = .stopping k) :
    l = .tell ∧ s'.rank < s.rank ∨ l ≠ .tell ∧ s'.rank = s.rank := by
  have hother : ∀ {m : MainThread}, s.main = m → (∀ k, m ≠ .stopping k) → False := by
    rintro m rfl hm
    exact hm k hmain
  have hsame : ∀ {s'' : Shutdown}, s''.main = s.main → s''.reactors.length = s.reactors.length →
      s''.rank = s.rank := by
    intro s'' hmain' hlen
    rw [rank_of_stopping hmain, rank_of_stopping (hmain'.trans hmain), hlen]
  have hset : ∀ (r : ℕ) (stage : Stage), (s.setStage r stage).reactors.length = s.reactors.length :=
    fun r stage ↦ List.length_modify ..
  cases hm with
  | accept h | insert h | stop h | destroy h | setStop h | joinDb h | joinTh h =>
    exact (hother h nofun).elim
  | @tell k' hmain' hk =>
    obtain rfl : k' = k := by simpa [hmain'] using hmain
    refine .inl ⟨rfl, ?_⟩
    rw [rank_of_stopping hmain', rank_of_stopping rfl, Prod.Lex.toLex_lt_toLex]
    left
    dsimp only
    rw [List.length_modify]
    omega
  | @leave k' hmain' hk =>
    obtain rfl : k' = k := by simpa [hmain'] using hmain
    refine .inl ⟨rfl, ?_⟩
    rw [rank_of_stopping hmain', rank_of_out rfl, remaining, Prod.Lex.toLex_lt_toLex]
    exact .inl (Nat.lt_add_right _ (distance_left_lt s))
  | act | add | db => exact .inr ⟨nofun, hsame rfl rfl⟩
  | enter | check | wake | call | again | finish | refuse =>
    exact .inr ⟨nofun, hsame rfl (hset ..)⟩

/-- The main thread does not go back. -/
theorem Moves.main_ne_looping (hm : Moves file s l s') (hmain : s.main ≠ .looping) :
    s'.main ≠ .looping := by
  cases hm with
  | accept h | insert h | stop h => exact absurd h hmain
  | tell | leave | destroy | joinDb | joinTh => exact nofun
  | _ => exact hmain

theorem step_main_ne_looping (file : Option Bytes) (l : Signal) (hmain : s.main ≠ .looping) :
    (s.step file l).main ≠ .looping := by
  rcases s.step_moves file l with e | hm
  · rwa [e]
  · exact hm.main_ne_looping hmain

theorem Moves.out (hm : Moves file s l s') (hout : s.main.out = true) : s'.main.out = true := by
  cases hm with
  | accept h | insert h | stop h | tell h | leave h =>
    rw [h] at hout
    cases hout
  | destroy | joinDb | joinTh => rfl
  | _ => exact hout

/-- A move of the database side, when the main loop has been left. -/
theorem remaining_db (h : s.Inv) (file : Option Bytes) (l : Label) :
    s.step file (.db l) = s ∨
      (∃ key, l = .expire key) ∧ (s.step file (.db l)).remaining = s.remaining ∨
      (s.step file (.db l)).remaining < s.remaining := by
  rw [step]
  split
  swap
  · exact .inl rfl
  next hl =>
  rcases Sys.db_cases file h.staffed hl with e | ⟨key, rfl⟩ | hproceeds
  · exact .inl (by rw [e])
  · exact .inr (.inl ⟨⟨key, rfl⟩, rfl⟩)
  · exact .inr (.inr (Shutdown.remaining_lt (.inr ⟨rfl, .inr ⟨rfl, hproceeds.lt⟩⟩)))

/-- One step, when the main loop has been left. -/
theorem remaining_step (h : s.Inv) (hout : s.main.out = true) (file : Option Bytes) (l : Signal) :
    (s.step file l).remaining ≤ s.remaining ∧
      (s.Advances file l → (s.step file l).remaining < s.remaining) := by
  have hsame : s.step file l = s → (s.step file l).remaining ≤ s.remaining ∧
      (s.Advances file l → (s.step file l).remaining < s.remaining) := fun e ↦
    ⟨by rw [e], fun hadvances ↦ absurd e hadvances.1⟩
  rcases s.step_moves file l with e | hm
  · exact hsame e
  by_cases hdb : ∃ l', l = .db l'
  · obtain ⟨l', rfl⟩ := hdb
    rcases remaining_db h file l' with e | ⟨⟨key, rfl⟩, e⟩ | hlt
    · exact hsame e
    · exact ⟨e.le, fun hadvances ↦ absurd rfl (hadvances.2.2 key)⟩
    · exact ⟨hlt.le, fun _ ↦ hlt⟩
  by_cases hset : l = .setStop ∧ s.dbStop = true
  · obtain ⟨rfl, hstop⟩ := hset
    refine hsame ?_
    rw [step]
    split
    · rw [← hstop]
    · rfl
  · have hlt := hm.remaining_lt h hout (fun l' hl ↦ hdb ⟨l', hl⟩)
      fun hl ↦ Bool.eq_false_iff.mpr fun hstop ↦ hset ⟨hl, hstop⟩
    exact ⟨hlt.le, fun _ ↦ hlt⟩

/-- **One step**, from the time on at which `Server::stop` is called. -/
theorem rank_step (h : s.Inv) (hmain : s.main ≠ .looping) (file : Option Bytes) (l : Signal) :
    (s.step file l).rank ≤ s.rank ∧ (s.Advances file l → (s.step file l).rank < s.rank) := by
  rcases s.step_moves file l with e | hm
  · rw [e]
    exact ⟨le_rfl, fun hadvances ↦ absurd e hadvances.1⟩
  rcases hstopping : s.main with _ | k | _ | _ | _ | _
  case looping => exact absurd hstopping hmain
  case stopping =>
    rcases hm.rank_stopping hstopping with ⟨-, hlt⟩ | ⟨hne, heq⟩
    · exact ⟨hlt.le, fun _ ↦ hlt⟩
    · exact ⟨heq.le, fun hadvances ↦ absurd (hadvances.2.1 k hstopping) hne⟩
  all_goals
    have hout : s.main.out = true := by rw [hstopping]; rfl
    rw [rank_of_out hout, rank_of_out (hm.out hout)]
    exact remaining_step h hout file l

/-! ## Nobody waits for ever -/

/-- A sub-reactor that has not left its loop can go on. -/
theorem exists_reactor_moves (file : Option Bytes) {r : SubReactor} (hr : r ∈ s.reactors)
    (hstage : r.stage ≠ .left) :
    ∃ l, Moves file s l (s.step file l) ∧ (∀ l', l ≠ .db l') ∧ l ≠ .setStop := by
  obtain ⟨j, hj⟩ := List.getElem?_of_mem hr
  rcases r with ⟨quit, _ | _ | _ | ⟨_ | i, active⟩ | _⟩
  · refine ⟨.enter j, ?_, by simp, by simp⟩
    rw [step, hj]
    exact .enter hj
  · refine ⟨.check j, ?_, by simp, by simp⟩
    rw [step, hj]
    exact .check hj
  · -- the poll times out
    refine ⟨.wake j [], ?_, by simp, by simp⟩
    rw [step, hj]
    exact .wake hj (by simp)
  · rcases active with _ | ⟨i, active⟩
    · refine ⟨.again j, ?_, by simp, by simp⟩
      rw [step, hj]
      exact .again hj
    · refine ⟨.call j (.writable ⟨[], []⟩), ?_, by simp, by simp⟩
      rw [step, hj]
      exact .call hj
  · exact ⟨.act j, step_act hj, by simp, by simp⟩
  · exact absurd rfl hstage

/-- A move that decreases what is left changes something. -/
theorem advances_of_lt (hout : s.main.out = true) (hdb : ∀ key, l ≠ .db (.expire key))
    (hlt : (s.step file l).remaining < s.remaining) : s.Advances file l := by
  refine ⟨fun e ↦ ?_, fun k hk ↦ ?_, hdb⟩
  · rw [e] at hlt
    exact lt_irrefl _ hlt
  · rw [hk] at hout
    cases hout

theorem Moves.advances (hm : Moves file s l (s.step file l)) (h : s.Inv) (hout : s.main.out = true)
    (hdb : ∀ l', l ≠ .db l') (hset : l = .setStop → s.dbStop = false) : s.Advances file l :=
  advances_of_lt hout (fun _ ↦ hdb _) (hm.remaining_lt h hout hdb hset)

/-- **There is no deadlock.** -/
theorem Inv.exists_advances (h : s.Inv) (file : Option Bytes) (hmain : s.main ≠ .looping)
    (hgone : s.main ≠ .gone) : ∃ l, s.Advances file l := by
  have hmoves : ∀ {l : Signal}, s.main.out = true → Moves file s l (s.step file l) →
      (∀ l', l ≠ .db l') → (l = .setStop → s.dbStop = false) → ∃ l, s.Advances file l :=
    fun hout hm hdb hset ↦ ⟨_, hm.advances h hout hdb hset⟩
  rcases hm : s.main with _ | k | _ | _ | _ | _
  case looping => exact absurd hm hmain
  case gone => exact absurd hm hgone
  case stopping =>
    refine ⟨.tell, fun e ↦ ?_, fun _ _ ↦ rfl, by simp⟩
    have hsame := congrArg Shutdown.main e
    rw [Shutdown.step, hm] at hsame
    dsimp only at hsame
    split at hsame
    · simp at hsame
    · cases hsame
  case left =>
    refine hmoves (l := .destroy) (by rw [hm]; rfl) ?_ (by simp) (by simp)
    rw [Shutdown.step, if_pos hm]
    exact .destroy hm
  case dbPool =>
    have hout : s.main.out = true := by rw [hm]; rfl
    by_cases hstop : s.dbStop = true
    swap
    · refine hmoves (l := .setStop) hout ?_ (by simp) fun _ ↦ Bool.eq_false_iff.mpr hstop
      rw [Shutdown.step, if_pos hm]
      exact .setStop hm
    by_cases hbusy : s.sys.queue ≠ [] ∨ ∃ k, some k ∈ s.sys.threads
    · obtain ⟨l, hl, hexpire, hproceeds⟩ := h.staffed.exists_proceeds file hbusy
      refine ⟨.db l, advances_of_lt hout (fun key hkey ↦ hexpire key (Signal.db.inj hkey)) ?_⟩
      rw [Shutdown.step, if_pos hl]
      exact Shutdown.remaining_lt (.inr ⟨rfl, .inr ⟨rfl, hproceeds.lt⟩⟩)
    · obtain ⟨hqueue, hthreads⟩ := not_or.mp hbusy
      have hidle : ∀ k ∈ s.sys.threads, k = none := by
        intro k hk
        by_contra hne
        obtain ⟨k', rfl⟩ := Option.ne_none_iff_exists'.mp hne
        exact hthreads ⟨k', hk⟩
      have hall : s.sys.threads.all Option.isNone = true :=
        List.all_eq_true.mpr fun k hk ↦ Option.isNone_iff_eq_none.mpr (hidle k hk)
      refine hmoves (l := .joinDb) hout ?_ (by simp) (by simp)
      rw [Shutdown.step, if_pos ⟨hm, hstop, not_not.mp hqueue, hall⟩]
      exact .joinDb hm hstop (not_not.mp hqueue) hidle
  case thPool =>
    have hout : s.main.out = true := by rw [hm]; rfl
    by_cases hleft : ∀ r ∈ s.reactors, r.stage = .left
    · refine hmoves (l := .joinTh) hout ?_ (by simp) (by simp)
      rw [Shutdown.step, if_pos ⟨hm, hleft⟩]
      exact .joinTh hm hleft
    · push Not at hleft
      obtain ⟨r, hr, hstage⟩ := hleft
      obtain ⟨l, hmove, hdb, hset⟩ := exists_reactor_moves file hr hstage
      exact hmoves hout hmove hdb fun hl ↦ absurd hl hset

/-- The process is gone, and has left nothing behind: every sub-reactor has left its loop, and all
that was queued has been run. -/
structure Gone (s : Shutdown) : Prop where
  main : s.main = .gone
  reactors : ∀ r ∈ s.reactors, r.stage = .left
  queue : s.sys.queue = []
  threads : ∀ k ∈ s.sys.threads, k = none

/-- **The server shuts down.**  From the time on at which `Server::stop` is called there is always some
move that gets on with it until the process is gone, whatever the connections and the database pool
are at; and if such a move always comes at some time, the process is gone at some time. -/
theorem shutdown_completes (file : Option Bytes) (n : ℕ) (ls : List Signal)
    (hmain : ((start n).run file ls).main ≠ .looping) :
    (∀ ls', ((start n).run file (ls ++ ls')).main ≠ .gone →
      ∃ l, ((start n).run file (ls ++ ls')).Advances file l) ∧
    ∀ schedule : ℕ → Signal,
      FairSchedule (step file) (Advances file) (·.main = .gone) ((start n).run file ls) schedule →
      ∃ m, (states (step file) ((start n).run file ls) schedule m).Gone := by
  have hinv : ∀ ls, ((start n).run file ls).Inv := fun ls ↦
    (meets_of_forall (fun _ _ _ ↦ trivial) (start n) :
      Meets (step file) (fun _ _ ↦ True) (start n) ls).invariant
      (fun s l h _ ↦ h.step file l) (inv_start n)
  have hstep : ∀ (s : Shutdown) (l : Signal), s.Inv ∧ s.main ≠ .looping →
      (s.step file l).Inv ∧ (s.step file l).main ≠ .looping :=
    fun s l h ↦ ⟨h.1.step file l, step_main_ne_looping file l h.2⟩
  refine ⟨fun ls' hgone ↦ (hinv _).exists_advances file ?_ hgone, fun schedule hfair ↦ ?_⟩
  · have hmeets : Meets (step file) (fun _ _ ↦ True) ((start n).run file ls) ls' :=
      meets_of_forall (fun _ _ _ ↦ trivial) _
    have key := hmeets.invariant (fun s l h _ ↦ hstep s l h) ⟨hinv ls, hmain⟩
    rw [run, List.foldl_append]
    exact key.2
  · obtain ⟨m, hgone⟩ := eventually_done (I := fun s : Shutdown ↦ s.Inv ∧ s.main ≠ .looping) rank
      hstep (fun s l h ↦ (rank_step h.1 h.2 file l).1) (fun s l h ↦ (rank_step h.1 h.2 file l).2)
      ⟨hinv ls, hmain⟩ hfair
    have hend : (states (step file) ((start n).run file ls) schedule m).Inv :=
      (states_invariant hstep ⟨hinv ls, hmain⟩ m).1
    obtain ⟨-, hqueue, hthreads⟩ := hend.joined (by rw [hgone]; rfl)
    exact ⟨m, hgone, hend.left hgone, hqueue, hthreads⟩

/-- A connection is accepted, and the server is stopped while the sub-reactor waits. -/
def stopCalled : List Signal := [.accept 5 0, .insert, .enter 0, .check 0, .stop]

/-- The last poll of the sub-reactor brings an event, and the task it makes is refused. -/
def lastPoll : List Signal :=
  [.tell, .tell, .destroy, .setStop, .wake 0 [0], .call 0 profileEvent] ++ List.replicate 7 (.act 0) ++
    [.joinDb]

theorem shutdown_completes_lastPoll :
    ∃ m, (states (step none) ((start 1).run none stopCalled) (lastPoll.getD · .joinTh) m).Gone := by
  refine (shutdown_completes none 1 stopCalled (by decide)).2 (lastPoll.getD · .joinTh) fun m hm ↦ ?_
  have hend : ∀ k, (states (step none) ((start 1).run none stopCalled) (lastPoll.getD · .joinTh)
      (15 + k)).main = .gone := by
    intro k
    induction k with
    | zero => decide +kernel
    | succ k ih =>
      have hlabel : lastPoll.getD (15 + k) .joinTh = .joinTh := by
        rw [List.getD_eq_getElem?_getD, List.getElem?_eq_none (Nat.le_trans (by decide) (Nat.le_add_right 15 k))]
        rfl
      rw [← Nat.add_assoc, states, hlabel, step, if_neg (by rw [ih]; simp)]
      exact ih
  by_cases hlt : m ≤ 14
  · refine ⟨14, hlt, fun e ↦ ?_, fun k hk ↦ ?_, by simp [lastPoll]⟩
    · exact absurd (congrArg Shutdown.main e) (by decide +kernel)
    · have hjoined : (states (step none) ((start 1).run none stopCalled) (lastPoll.getD · .joinTh)
          14).main = .thPool := by decide +kernel
      cases hjoined.symm.trans hk
  · obtain ⟨k, rfl⟩ := Nat.exists_eq_add_of_le (Nat.lt_of_not_le hlt)
    exact absurd (hend k) hm

end Shutdown

end ReactorServer
