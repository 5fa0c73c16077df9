import ReactorServer.Server.Cases
import ReactorServer.Db.Linear

/-!
# The server refines its database pool

`Auth` is the pool by itself: tasks are started at any time, and their calls are interleaved in any
order.  In the server there is more to it.  A task is submitted by a handler, waits in the queue, is
taken by one of a fixed number of threads, and its response is written piece by piece to whoever has
the descriptor.  None of this matters to the stores.  A task that waits is one that has not made its
first call, and a response that is being written is a call that has not been made yet.

`Desk` numbers the tasks of a server in the order of their submission, and follows each through the
queue to its thread.  Each step of the server is then no move of the pool or one
(`Refines.step`), and so what has been proved of the pool is true of the server: the whole of it is
linearizable (`server_linearizable`).
-/

set_option autoImplicit false

namespace ReactorServer

open Program Machine Concurrent

/-! ## The tasks of a server, by number -/

/-- The next call of a thread. -/
def Running.nextCall (k : Running) : Option Call :=
  match k.rest with
  | .call o _ => some o
  | _ => none

/-- This result ends the loop of `sendHttpResponse` on a thread. -/
def Sys.endsSend (s : Sys) (k : Running) (reply : Bytes) (r : WriteResult) : Bool :=
  match s.sockets k.ticket.task.fd, r with
  | none, _ => true
  | some _, .took (n + 1) =>
    decide (reply.length ≤ k.written + ((reply.drop k.written).take (n + 1)).length)
  | some _, .fail .EINTR => false
  | some _, _ => true

/-- The server, and the numbers of its tasks: how many have been submitted, which of them wait, and
which was taken last by each thread. -/
structure Desk where
  sys : Sys
  submitted : ℕ
  queued : List ℕ
  taken : ℕ → ℕ

namespace Desk

/-- The server before its first connection. -/
def start : Desk := ⟨.start, 0, [], fun _ ↦ 0⟩

/-- The numbers after a move. -/
def step (file : Option Bytes) (d : Desk) (l : Label) : Desk :=
  let d' := { d with sys := d.sys.step file l }
  match l with
  | .act i =>
    match d.sys.nextAct i with
    | some (.submit _) => { d' with submitted := d.submitted + 1, queued := d.queued ++ [d.submitted] }
    | _ => d'
  | .take w =>
    match d.sys.threads[w]?, d.sys.queue, d.queued with
    | some none, _ :: _, n :: queued =>
      { d' with queued := queued, taken := Function.update d.taken w n }
    | _, _, _ => d'
  | _ => d'

/-- What is seen of a move: a task is submitted, or a thread is through with the response of one. -/
def seen (d : Desk) : Label → List (Seen Operation Result)
  | .act i =>
    match d.sys.nextAct i with
    | some (.submit t) => [.invoke d.submitted t.operation]
    | _ => []
  | .write w r =>
    match d.sys.threads[w]? with
    | some (some k) =>
      match k.rest with
      | .call (.send statusCode body) _ =>
        if d.sys.endsSend k (jsonResponse statusCode body k.ticket.task.keepAlive) r then
          [.respond (d.taken w) ⟨statusCode, body⟩]
        else []
      | _ => []
    | _ => []
  | _ => []

/-- What is seen of a run of the server. -/
def history (file : Option Bytes) (ls : List Label) : List (Seen Operation Result) :=
  trace (step file) seen start ls

end Desk

/-- An action does not submit a task that is not exact. -/
def Act.Exact : Act → Prop
  | .submit t => t.Exact
  | _ => True

instance : ∀ a : Act, Decidable a.Exact
  | .submit t => inferInstanceAs (Decidable t.Exact)
  | .touch | .read _ | .frame | .dispatch _ | .reject _ | .issue .. | .io .. | .json _ | .jsonIo ..
  | .complete | .ctl .. | .delete => inferInstanceAs (Decidable True)

/-- The condition on a move: a task that is submitted is exact, and no failure is misread. -/
def Sys.Legible (s : Sys) : Label → Prop
  | .act i => ∀ a ∈ s.nextAct i, a.Exact
  | .call w out => ∀ k ∈ (s.threads[w]?).join, ∀ o ∈ k.nextCall, o.isMisread out = false
  | _ => True

instance (s : Sys) : ∀ l : Label, Decidable (s.Legible l)
  | .act i => inferInstanceAs (Decidable (∀ a ∈ s.nextAct i, a.Exact))
  | .call w out => inferInstanceAs
      (Decidable (∀ k ∈ (s.threads[w]?).join, ∀ o ∈ k.nextCall, o.isMisread out = false))
  | .accept .. | .insert | .event .. | .take _ | .write .. | .expire _ =>
    inferInstanceAs (Decidable True)

/-! ## The simulation -/

/-- **The pool has come as far as the server**: the stores are the same, a task that waits has not
made a call, and one at a thread has as much to do as its worker. -/
structure Desk.Refines (d : Desk) (a : Auth) : Prop where
  store : a.store = d.sys.store
  submitted : d.submitted = a.running.length
  queue : d.queued.map (a.running[·]?) = d.sys.queue.map fun t ↦ some ⟨t.task, t.task.work⟩
  threads : ∀ w k, d.sys.threads[w]? = some (some k) →
    a.running[d.taken w]? = some ⟨k.ticket.task, k.rest⟩
  nodup : d.queued.Nodup
  apart : ∀ w k, d.sys.threads[w]? = some (some k) → d.taken w ∉ d.queued
  unique : ∀ w k w' k', d.sys.threads[w]? = some (some k) → d.sys.threads[w']? = some (some k') →
    d.taken w = d.taken w' → w = w'

namespace Desk

variable {file : Option Bytes} {d : Desk} {a : Auth}

theorem refines_start : start.Refines .start where
  store := rfl
  submitted := rfl
  queue := rfl
  threads w k hk := by
    have hnone := List.eq_of_mem_replicate (List.mem_of_getElem? hk)
    exact absurd hnone (by simp)
  nodup := .nil
  apart w k hk := by simp [start]
  unique w k w' k' hk := by
    have hnone := List.eq_of_mem_replicate (List.mem_of_getElem? hk)
    exact absurd hnone (by simp)

/-- A move that leaves the stores, the queue and the threads alone. -/
theorem Refines.frame (h : d.Refines a) {d' : Desk} (hstore : d'.sys.store = d.sys.store)
    (hqueue : d'.sys.queue = d.sys.queue) (hthreads : d'.sys.threads = d.sys.threads)
    (hsubmitted : d'.submitted = d.submitted) (hqueued : d'.queued = d.queued)
    (htaken : d'.taken = d.taken) : d'.Refines a where
  store := h.store.trans hstore.symm
  submitted := hsubmitted.trans h.submitted
  queue := by
    rw [hqueue, hqueued]
    exact h.queue
  threads := by
    rw [hthreads, htaken]
    exact h.threads
  nodup := hqueued ▸ h.nodup
  apart := by
    rw [hthreads, htaken, hqueued]
    exact h.apart
  unique := by
    rw [hthreads, htaken]
    exact h.unique

/-- Only a submission matters to the pool. -/
theorem effect_frame (s : Sys) (i : ℕ) (c : Client) {b : Act} (hb : ∀ t, b ≠ .submit t) :
    (s.effect i c b).store = s.store ∧ (s.effect i c b).queue = s.queue ∧
      (s.effect i c b).threads = s.threads := by
  cases b with
  | submit t => exact absurd rfl (hb t)
  | delete =>
    rw [Sys.effect, Sys.deleteConnection]
    split <;> exact ⟨rfl, rfl, rfl⟩
  | complete =>
    rw [Sys.effect, Sys.logReply]
    split <;> exact ⟨rfl, rfl, rfl⟩
  | _ => exact ⟨rfl, rfl, rfl⟩

theorem Refines.queued_lt (h : d.Refines a) {n : ℕ} (hn : n ∈ d.queued) : n < a.running.length := by
  have hmem := List.mem_map_of_mem (f := (a.running[·]?)) hn
  rw [h.queue] at hmem
  obtain ⟨t, -, ht⟩ := List.mem_map.mp hmem
  exact (List.getElem?_eq_some_iff.mp ht.symm).1

/-- A task is submitted, and started in the pool. -/
theorem Refines.submit (h : d.Refines a) {t : Ticket} {d' : Desk} (hstore : d'.sys.store = d.sys.store)
    (hqueue : d'.sys.queue = d.sys.queue ++ [t]) (hthreads : d'.sys.threads = d.sys.threads)
    (hsubmitted : d'.submitted = d.submitted + 1) (hqueued : d'.queued = d.queued ++ [d.submitted])
    (htaken : d'.taken = d.taken) : d'.Refines (a.step (.start t.task)) := by
  have hrunning : (a.step (.start t.task)).running = a.running ++ [⟨t.task, t.task.work⟩] := rfl
  have hold : ∀ {n : ℕ} {k : Worker}, a.running[n]? = some k → (a.step (.start t.task)).running[n]? = some k := by
    intro n k hk
    rw [hrunning, List.getElem?_append_left (List.getElem?_eq_some_iff.mp hk).1, hk]
  -- the number is new, for all that wait and all that are at a thread have been started
  have hlt : ∀ n ∈ d.queued, n < d.submitted := fun n hn ↦ h.submitted ▸ h.queued_lt hn
  refine ⟨h.store.trans hstore.symm, ?_, ?_, ?_, ?_, ?_, ?_⟩
  · rw [hsubmitted, hrunning, List.length_append, h.submitted]
    rfl
  · rw [hqueue, hqueued, List.map_append, List.map_append, ← h.queue]
    congr 1
    · refine List.map_congr_left fun n hn ↦ ?_
      rw [hrunning, List.getElem?_append_left (h.queued_lt hn)]
    · rw [List.map_singleton, List.map_singleton, h.submitted, hrunning, List.getElem?_concat_length]
  · intro w k hk
    rw [hthreads] at hk
    rw [htaken]
    exact hold (h.threads w k hk)
  · rw [hqueued, List.nodup_append]
    refine ⟨h.nodup, by simp, fun n hn m hm ↦ ?_⟩
    have := hlt n hn
    rw [List.mem_singleton.mp hm]
    omega
  · intro w k hk
    rw [hthreads] at hk
    rw [hqueued, htaken, List.mem_append, List.mem_singleton]
    rintro (hmem | hnew)
    · exact h.apart w k hk hmem
    · have := (List.getElem?_eq_some_iff.mp (h.threads w k hk)).1
      rw [hnew, h.submitted] at this
      omega
  · rw [hthreads, htaken]
    exact h.unique

/-- What the threads are at when one of them has moved on. -/
theorem threads_set_cases {threads : List (Option Running)} {w w' : ℕ} {x : Option Running}
    {k k' : Running} (hw : threads[w]? = some x)
    (h : (threads.set w k'.settle)[w']? = some (some k)) :
    (w' = w ∧ k = k') ∨ w' ≠ w ∧ threads[w']? = some (some k) := by
  rw [List.getElem?_set] at h
  by_cases hw' : w = w'
  · subst hw'
    rw [if_pos rfl, if_pos (List.getElem?_eq_some_iff.mp hw).1] at h
    exact .inl ⟨rfl, Sys.some_of_settle (Option.some.inj h).symm⟩
  · rw [if_neg hw'] at h
    exact .inr ⟨Ne.symm hw', h⟩

/-- A thread takes the first task of the queue. -/
theorem Refines.take (h : d.Refines a) {w n : ℕ} {t : Ticket} {queue : List Ticket} {queued : List ℕ}
    (hw : d.sys.threads[w]? = some none) (hq : d.sys.queue = t :: queue) (hqueued : d.queued = n :: queued)
    {d' : Desk} (hstore : d'.sys.store = d.sys.store) (hqueue : d'.sys.queue = queue)
    (hthreads : d'.sys.threads = d.sys.threads.set w (Running.settle ⟨t, t.task.work, 0, false⟩))
    (hsubmitted : d'.submitted = d.submitted) (hqueued' : d'.queued = queued)
    (htaken : d'.taken = Function.update d.taken w n) : d'.Refines a := by
  have hqueue' := h.queue
  have hnodup := h.nodup
  rw [hq, hqueued, List.map_cons, List.map_cons, List.cons.injEq] at hqueue'
  rw [hqueued, List.nodup_cons] at hnodup
  have hcases := fun w' k (hk : d'.sys.threads[w']? = some (some k)) ↦
    threads_set_cases hw (hthreads ▸ hk)
  have hother : ∀ {w' k}, w' ≠ w → d.sys.threads[w']? = some (some k) → d.taken w' ≠ n := by
    intro w' k _ hk hn
    refine h.apart w' k hk ?_
    rw [hqueued, hn]
    exact List.mem_cons_self
  refine ⟨h.store.trans hstore.symm, hsubmitted.trans h.submitted, ?_, fun w' k hk ↦ ?_, ?_,
    fun w' k hk ↦ ?_, fun w₁ k₁ w₂ k₂ h₁ h₂ htaken' ↦ ?_⟩
  · rw [hqueue, hqueued']
    exact hqueue'.2
  · rw [htaken]
    rcases hcases w' k hk with ⟨rfl, rfl⟩ | ⟨hne, hk⟩
    · rw [Function.update_self]
      exact hqueue'.1
    · rw [Function.update_of_ne hne]
      exact h.threads w' k hk
  · rw [hqueued']
    exact hnodup.2
  · rw [htaken, hqueued']
    rcases hcases w' k hk with ⟨rfl, -⟩ | ⟨hne, hk⟩
    · rw [Function.update_self]
      exact hnodup.1
    · rw [Function.update_of_ne hne]
      intro hmem
      refine h.apart w' k hk ?_
      rw [hqueued]
      exact List.mem_cons_of_mem _ hmem
  · rw [htaken] at htaken'
    rcases hcases w₁ k₁ h₁ with ⟨rfl, -⟩ | ⟨hne₁, h₁⟩ <;>
      rcases hcases w₂ k₂ h₂ with ⟨rfl, -⟩ | ⟨hne₂, h₂⟩
    · rfl
    · rw [Function.update_self, Function.update_of_ne hne₂] at htaken'
      exact absurd htaken'.symm (hother hne₂ h₂)
    · rw [Function.update_self, Function.update_of_ne hne₁] at htaken'
      exact absurd htaken' (hother hne₁ h₁)
    · rw [Function.update_of_ne hne₁, Function.update_of_ne hne₂] at htaken'
      exact h.unique w₁ k₁ w₂ k₂ h₁ h₂ htaken'

/-- A thread is through with a call, and so is its worker. -/
theorem Refines.call (h : d.Refines a) {w : ℕ} {k : Running} (hw : d.sys.threads[w]? = some (some k))
    (k' : Running) (hticket : k'.ticket = k.ticket) {a' : Auth}
    (hrunning : a'.running = a.running.set (d.taken w) ⟨k.ticket.task, k'.rest⟩) {d' : Desk}
    (hstore : a'.store = d'.sys.store) (hqueue : d'.sys.queue = d.sys.queue)
    (hthreads : d'.sys.threads = d.sys.threads.set w k'.settle)
    (hsubmitted : d'.submitted = d.submitted) (hqueued : d'.queued = d.queued)
    (htaken : d'.taken = d.taken) : d'.Refines a' := by
  have hcases := fun w' k₁ (hk : d'.sys.threads[w']? = some (some k₁)) ↦
    threads_set_cases hw (hthreads ▸ hk)
  have hbusy : ∀ {w' : ℕ} {k₁ : Running}, d'.sys.threads[w']? = some (some k₁) →
      ∃ k₂, d.sys.threads[w']? = some (some k₂) := by
    intro w' k₁ hk
    rcases hcases w' k₁ hk with ⟨rfl, -⟩ | ⟨-, hk⟩
    · exact ⟨k, hw⟩
    · exact ⟨k₁, hk⟩
  refine ⟨hstore, ?_, ?_, fun w' k₁ hk ↦ ?_, hqueued ▸ h.nodup, fun w' k₁ hk ↦ ?_,
    fun w₁ k₁ w₂ k₂ h₁ h₂ htaken' ↦ ?_⟩
  · rw [hsubmitted, hrunning, List.length_set, h.submitted]
  · rw [hqueue, hqueued, ← h.queue]
    refine List.map_congr_left fun n hn ↦ ?_
    have hne : d.taken w ≠ n := fun e ↦ h.apart w k hw (e ▸ hn)
    rw [hrunning, List.getElem?_set_ne hne]
  · rw [hrunning, htaken]
    rcases hcases w' k₁ hk with ⟨rfl, rfl⟩ | ⟨hne, hk⟩
    · rw [List.getElem?_set_self (List.getElem?_eq_some_iff.mp (h.threads w' k hw)).1, hticket]
    · rw [List.getElem?_set_ne fun e ↦ hne (h.unique w' k₁ w k hk hw e.symm)]
      exact h.threads w' k₁ hk
  · rw [htaken, hqueued]
    obtain ⟨k₂, hk₂⟩ := hbusy hk
    exact h.apart w' k₂ hk₂
  · rw [htaken] at htaken'
    obtain ⟨_, h₁⟩ := hbusy h₁
    obtain ⟨_, h₂⟩ := hbusy h₂
    exact h.unique w₁ _ w₂ _ h₁ h₂ htaken'

/-! ## Step by step -/

theorem seen_of_call {i : ℕ} {out : Outcome} {t : Task} {o : Call} {next : Option o.Res → Job PUnit}
    (hi : a.running[i]? = some ⟨t, .call o next⟩) {store : Store} {r : Option o.Res}
    (hexec : a.store.exec o out = some (store, r)) :
    a.seen (.call i out) = (o.reply i).map Reply.seen ∧
      (a.step (.call i out)).store = store ∧
      (a.step (.call i out)).running = a.running.set i ⟨t, next r⟩ := by
  refine ⟨?_, ?_, ?_⟩
  · simp only [Auth.seen, Auth.reply, hi, hexec, Option.isSome_some, if_true]
  · simp only [Auth.step, hi, hexec]
  · simp only [Auth.step, hi, hexec]

/-- A step of the server is matched by moves of the pool. -/
def Matched (file : Option Bytes) (d : Desk) (a : Auth) (l : Label) (ms : List Move) : Prop :=
  (d.step file l).Refines (a.run ms) ∧ d.seen l = a.history ms ∧
    (d.sys.Legible l → Meets Auth.step Auth.Legible a ms)

/-- A step that is of no concern to the pool. -/
theorem Refines.idle (h : d.Refines a) {l : Label}
    (hstep : d.step file l = { d with sys := d.sys.step file l }) (hseen : d.seen l = [])
    (hsys : (d.sys.step file l).store = d.sys.store ∧ (d.sys.step file l).queue = d.sys.queue ∧
      (d.sys.step file l).threads = d.sys.threads) : ∃ ms, Matched file d a l ms := by
  refine ⟨[], ?_, hseen, fun _ ↦ trivial⟩
  rw [hstep]
  exact h.frame hsys.1 hsys.2.1 hsys.2.2 rfl rfl rfl

theorem Refines.act (h : d.Refines a) (i : ℕ) : ∃ ms, Matched file d a (.act i) ms := by
  rcases Sys.step_act_cases file d.sys i with ⟨hnext, hsys⟩ | ⟨c, b, todo, hc, htodo, hsys⟩
  · refine h.idle ?_ ?_ ?_
    · simp only [step, hnext]
    · simp only [seen, hnext]
    · rw [hsys]
      exact ⟨rfl, rfl, rfl⟩
  have hnext := Sys.nextAct_eq hc htodo
  by_cases hb : ∃ t, b = .submit t
  · obtain ⟨t, rfl⟩ := hb
    refine ⟨[.start t], ?_, ?_, fun hl ↦ ⟨hl _ hnext, trivial⟩⟩
    · refine h.submit (t := ⟨i, c.asked, t⟩) ?_ ?_ ?_ ?_ ?_ ?_
      all_goals simp only [step, hnext, hsys, Sys.effect]
    · simp only [seen, hnext, Auth.history, trace, Auth.seen, h.submitted, List.append_nil]
  · have hne : ∀ t, b ≠ .submit t := fun t e ↦ hb ⟨t, e⟩
    refine h.idle ?_ ?_ ?_
    · simp only [step, hnext]
      split
      · next t e => exact absurd (Option.some.inj e) (hne t)
      · rfl
    · simp only [seen, hnext]
      split
      · next t e => exact absurd (Option.some.inj e) (hne t)
      · rfl
    · rw [hsys]
      exact effect_frame _ i c hne

theorem Refines.takeStep (h : d.Refines a) (w : ℕ) : ∃ ms, Matched file d a (.take w) ms := by
  by_cases hfree : d.sys.threads[w]? = some none ∧ d.sys.queue ≠ []
  · obtain ⟨hw, hne⟩ := hfree
    obtain ⟨t, queue, hq⟩ := List.exists_cons_of_ne_nil hne
    obtain ⟨n, queued, hqueued⟩ : ∃ n queued, d.queued = n :: queued := by
      refine List.exists_cons_of_ne_nil fun hnil ↦ ?_
      have hqueue := h.queue
      rw [hq, hnil] at hqueue
      exact absurd hqueue (by simp)
    refine ⟨[], h.take hw hq hqueued ?_ ?_ ?_ ?_ ?_ ?_, rfl, fun _ ↦ trivial⟩
    all_goals simp only [step, Sys.step, hw, hq, hqueued]
  · refine h.idle ?_ rfl ?_
    · simp only [step]
      split
      · next hw hq _ => exact absurd ⟨hw, by simp [hq]⟩ hfree
      · rfl
    · rcases Sys.step_take_cases file d.sys w with hsys | ⟨t, queue, hw, hq, -⟩
      · rw [hsys]
        exact ⟨rfl, rfl, rfl⟩
      · exact absurd ⟨hw, by simp [hq]⟩ hfree

theorem Refines.callStep (h : d.Refines a) (w : ℕ) (out : Outcome) :
    ∃ ms, Matched file d a (.call w out) ms := by
  rcases Sys.step_call_cases file d.sys w out with hsys | ⟨k, o, next, store, r, hw, hrest, ho, hexec, hsys⟩
  · exact h.idle rfl rfl (by rw [hsys]; exact ⟨rfl, rfl, rfl⟩)
  have hi := h.threads w k hw
  rw [hrest] at hi
  rw [← h.store] at hexec
  obtain ⟨hseen, hstore, hrunning⟩ := seen_of_call hi hexec
  refine ⟨[.call (d.taken w) out], ?_, ?_, fun hl ↦ ⟨fun o' ho' ↦ ?_, trivial⟩⟩
  · refine h.call hw { k with rest := next r } rfl hrunning ?_ ?_ ?_ rfl rfl rfl
    · show _ = (d.sys.step file (.call w out)).store
      rw [hsys, hstore]
    · show (d.sys.step file (.call w out)).queue = _
      rw [hsys]
    · show (d.sys.step file (.call w out)).threads = _
      rw [hsys]
  · have hnone : o.reply (d.taken w) = [] := by
      cases o with
      | send statusCode body => exact absurd ho (by simp [Call.isSend])
      | _ => rfl
    rw [Auth.history, trace, hseen, hnone]
    rfl
  · refine hl k (by simp [hw]) o' ?_
    rw [Auth.nextCall, hi] at ho'
    rw [Running.nextCall, hrest]
    exact ho'

/-- **A turn of the loop that writes a response**: it is the last one, or the thread stays where it
is. -/
theorem write_cases (file : Option Bytes) (d : Desk) (w : ℕ) (r : WriteResult) :
    (d.seen (.write w r) = [] ∧ (d.sys.step file (.write w r)).threads = d.sys.threads) ∨
      ∃ k statusCode body next, d.sys.threads[w]? = some (some k) ∧
        k.rest = .call (.send statusCode body) next ∧
        ((d.seen (.write w r) = [] ∧ ∃ n, (d.sys.step file (.write w r)).threads =
            d.sys.threads.set w (some { k with written := n })) ∨
          d.seen (.write w r) = [.respond (d.taken w) ⟨statusCode, body⟩] ∧
            (d.sys.step file (.write w r)).threads =
              d.sys.threads.set w (Running.settle ⟨k.ticket, next (some ⟨⟩), 0, true⟩)) := by
  rw [seen, Sys.step]
  rcases hw : d.sys.threads[w]? with _ | _ | ⟨t, rest, written, sent⟩
  · exact .inl ⟨rfl, rfl⟩
  · exact .inl ⟨rfl, rfl⟩
  rcases rest with _ | _ | ⟨o, next⟩
  · exact .inl ⟨rfl, rfl⟩
  · exact .inl ⟨rfl, rfl⟩
  cases o with
  | send statusCode body =>
    dsimp only
    unfold Sys.sendStep Sys.endsSend
    dsimp only
    cases hfd : d.sys.sockets t.task.fd with
    | none => exact .inr ⟨_, statusCode, body, next, rfl, rfl, .inr ⟨rfl, rfl⟩⟩
    | some j =>
      rcases r with (_ | n) | (_ | _ | _)
      · exact .inr ⟨_, statusCode, body, next, rfl, rfl, .inr ⟨rfl, rfl⟩⟩
      · refine .inr ⟨_, statusCode, body, next, rfl, rfl, ?_⟩
        dsimp only
        split
        · next hend =>
          rw [if_neg (Nat.not_lt.mpr (of_decide_eq_true hend))]
          exact .inr ⟨rfl, rfl⟩
        · next hend =>
          rw [if_pos (Nat.not_le.mp fun h ↦ hend (decide_eq_true h))]
          exact .inl ⟨rfl, _, rfl⟩
      · exact .inl ⟨rfl, rfl⟩
      · exact .inr ⟨_, statusCode, body, next, rfl, rfl, .inr ⟨rfl, rfl⟩⟩
      · exact .inr ⟨_, statusCode, body, next, rfl, rfl, .inr ⟨rfl, rfl⟩⟩
  | _ => exact .inl ⟨rfl, rfl⟩

theorem write_frame (file : Option Bytes) (s : Sys) (w : ℕ) (r : WriteResult) :
    (s.step file (.write w r)).store = s.store ∧ (s.step file (.write w r)).queue = s.queue := by
  rcases Sys.step_write_cases file s w r with h | ⟨k, statusCode, body, next, -, -, ⟨-, h⟩ |
    ⟨j, n, data, -, -, -, ⟨-, h⟩ | h⟩⟩
  all_goals
    rw [h]
    exact ⟨rfl, rfl⟩

theorem Refines.writeStep (h : d.Refines a) (w : ℕ) (r : WriteResult) :
    ∃ ms, Matched file d a (.write w r) ms := by
  obtain ⟨hstore, hqueue⟩ := write_frame file d.sys w r
  rcases write_cases file d w r with ⟨hseen, hthreads⟩ | ⟨k, statusCode, body, next, hw, hrest,
    ⟨hseen, n, hthreads⟩ | ⟨hseen, hthreads⟩⟩
  · exact h.idle rfl hseen ⟨hstore, hqueue, hthreads⟩
  · -- some of the response has gone out
    refine ⟨[], ?_, hseen, fun _ ↦ trivial⟩
    have hi := h.threads w k hw
    refine h.call hw { k with written := n } rfl ?_ (h.store.trans hstore.symm) hqueue ?_ rfl
      rfl rfl
    · obtain ⟨hlt, hget⟩ := List.getElem?_eq_some_iff.mp hi
      rw [← hget, List.set_getElem_self]
      rfl
    · have hsettle : Running.settle { k with written := n } = some { k with written := n } := by
        simp only [Running.settle, hrest]
      rw [hsettle]
      exact hthreads
  · have hi := h.threads w k hw
    rw [hrest] at hi
    have hexec : a.store.exec (.send statusCode body) .served = some (a.store, some ⟨⟩) := rfl
    obtain ⟨hseen', hstore', hrunning⟩ := seen_of_call hi hexec
    refine ⟨[.call (d.taken w) .served], ?_, ?_, fun _ ↦ ⟨fun o ho ↦ ?_, trivial⟩⟩
    · refine h.call hw ⟨k.ticket, next (some ⟨⟩), 0, true⟩ rfl hrunning ?_ hqueue hthreads rfl
        rfl rfl
      exact hstore'.trans (h.store.trans hstore.symm)
    · rw [hseen, Auth.history, trace, hseen']
      rfl
    · obtain rfl : o = .send statusCode body := by simpa [Auth.nextCall, hi] using ho.symm
      rfl

/-- **Each step of the server is matched by the pool.** -/
theorem Refines.step (h : d.Refines a) (l : Label) : ∃ ms, Matched file d a l ms := by
  cases l with
  | accept fd now =>
    refine h.idle rfl rfl ?_
    rw [Sys.step]
    split <;> exact ⟨rfl, rfl, rfl⟩
  | insert =>
    refine h.idle rfl rfl ?_
    rw [Sys.step]
    split <;> exact ⟨rfl, rfl, rfl⟩
  | event i e =>
    refine h.idle rfl rfl ?_
    rcases Sys.step_event_cases file d.sys i e with hsys | ⟨c, -, -, -, hsys⟩
    all_goals
      rw [hsys]
      exact ⟨rfl, rfl, rfl⟩
  | act i => exact h.act i
  | take w => exact h.takeStep w
  | call w out => exact h.callStep w out
  | write w r => exact h.writeStep w r
  | expire key =>
    refine ⟨[.expire key], ?_, rfl, fun _ ↦ ⟨trivial, trivial⟩⟩
    have hstore : (a.step (.expire key)).store = (d.sys.step file (.expire key)).store := by
      simp only [Auth.step, Sys.step, h.store]
    exact ⟨hstore, h.submitted, h.queue, h.threads, h.nodup, h.apart, h.unique⟩

/-- What a run of the server does, a run of the pool does. -/
theorem Refines.run (h : d.Refines a) {ls : List Label}
    (hls : Meets (Desk.step file) (fun d l ↦ d.sys.Legible l) d ls) :
    ∃ ms, Meets Auth.step Auth.Legible a ms ∧ (ls.foldl (Desk.step file) d).Refines (a.run ms) ∧
      trace (Desk.step file) Desk.seen d ls = a.history ms := by
  refine hls.refines (R := Refines) (fun d a l hd hl ↦ ?_) h
  obtain ⟨ms, hnext, hseen, hlegible⟩ : ∃ ms, Matched file d a l ms := hd.step l
  exact ⟨ms, hlegible hl, hnext, hseen⟩

theorem sys_run (d : Desk) (ls : List Label) :
    (ls.foldl (step file) d).sys = d.sys.run file ls := by
  induction ls generalizing d with
  | nil => rfl
  | cons l ls ih =>
    have hstep : (d.step file l).sys = d.sys.step file l := by
      unfold step
      split
      · split <;> rfl
      · split <;> rfl
      · rfl
    rw [List.foldl_cons, ih, hstep]
    rfl

/-- The condition on the steps is one on the server. -/
theorem meets_legible {d : Desk} {ls : List Label}
    (h : Meets (Sys.step file) Sys.Legible d.sys ls) :
    Meets (step file) (fun d l ↦ d.sys.Legible l) d ls := by
  induction ls generalizing d with
  | nil => trivial
  | cons l ls ih =>
    refine ⟨h.1, ih ?_⟩
    rw [show (d.step file l).sys = d.sys.step file l from sys_run d [l]]
    exact h.2

end Desk

/-- **The server refines its pool**: whatever it does, there is a run of the pool that ends with the
same stores, in which every task at a thread has a worker with as much to do, every task in the queue
has one that has not begun, and in which the same is seen. -/
theorem server_refines_pool (file : Option Bytes) (ls : List Label) :
    ∃ ms, (Auth.start.run ms).store = (Sys.start.run file ls).store ∧
      (∀ k, some k ∈ (Sys.start.run file ls).threads →
        ⟨k.ticket.task, k.rest⟩ ∈ (Auth.start.run ms).running) ∧
      (∀ t ∈ (Sys.start.run file ls).queue, ⟨t.task, t.task.work⟩ ∈ (Auth.start.run ms).running) ∧
      Desk.history file ls = Auth.start.history ms := by
  have hmeets : Meets (Desk.step file) (fun _ _ ↦ True) Desk.start ls :=
    meets_of_forall (fun _ _ _ ↦ trivial) _
  obtain ⟨ms, -, hrefines, hhistory⟩ : ∃ ms, Meets Auth.step (fun _ _ ↦ True) .start ms ∧
      (ls.foldl (Desk.step file) .start).Refines (Auth.start.run ms) ∧
      Desk.history file ls = Auth.start.history ms := by
    refine hmeets.refines (R := Desk.Refines) (fun d a l hd _ ↦ ?_) Desk.refines_start
    obtain ⟨ms, hnext, hseen, -⟩ : ∃ ms, Desk.Matched file d a l ms := hd.step l
    exact ⟨ms, meets_of_forall (fun _ _ _ ↦ trivial) _, hnext, hseen⟩
  have hsys : (ls.foldl (Desk.step file) Desk.start).sys = Sys.start.run file ls :=
    Desk.sys_run Desk.start ls
  refine ⟨ms, hsys ▸ hrefines.store, fun k hk ↦ ?_, fun t ht ↦ ?_, hhistory⟩
  · rw [← hsys] at hk
    obtain ⟨w, hw⟩ := List.mem_iff_getElem?.mp hk
    exact List.mem_of_getElem? (hrefines.threads w k hw)
  · rw [← hsys] at ht
    have hmem := List.mem_map_of_mem (f := fun t : Ticket ↦ some (⟨t.task, t.task.work⟩ : Worker)) ht
    rw [← hrefines.queue] at hmem
    obtain ⟨n, -, hn⟩ := List.mem_map.mp hmem
    exact List.mem_of_getElem? hn

/-- **The server is linearizable**: whatever its connections, threads and stores do, as long as no token
is drawn twice, the tasks that are submitted are answered as if `service` had carried them out one by
one. -/
theorem server_linearizable {file : Option Bytes} {ls : List Label}
    (h : Meets (Sys.step file) Sys.Legible Sys.start ls) :
    Linearizable service .empty (Desk.history file ls) := by
  obtain ⟨ms, hms, -, hhistory⟩ := Desk.refines_start.run (Desk.meets_legible h)
  obtain ⟨es, s, hlegal, hseen⟩ := exists_annotated hms
  rw [Desk.history, hhistory, ← hseen]
  exact hlegal.linearizable

/-- Two clients register one name at the same time, each on a connection of its own, call by call in
turns; the first response goes out in two pieces, and the second in between. -/
def Label.rivals : List Label :=
  [.accept 7 0, .insert, .accept 8 0, .insert] ++
  [.event 0 (.readable 0 [.got (lit "POST /register HTTP/1.1\r\nContent-Length: 35\r\n\r\n" ++
      lit "\x7b\"username\":\"bob\",\"password\":\"one\"\x7d")] ⟨[], []⟩),
    .event 1 (.readable 0 [.got (lit "POST /register HTTP/1.1\r\nContent-Length: 35\r\n\r\n" ++
      lit "\x7b\"username\":\"bob\",\"password\":\"two\"\x7d")] ⟨[], []⟩)] ++
  List.replicate 8 (.act 0) ++ List.replicate 8 (.act 1) ++ [.take 0, .take 1] ++
  [.handle 0, .served, .served].flatMap (fun out ↦ [.call 0 out, .call 1 out]) ++
  [.write 0 (.took 10), .write 1 (.took 1000), .write 0 (.fail .EINTR), .write 0 (.took 1000),
    .call 0 .served, .call 1 .served]

/-- One of them gets the name, though the other is answered first. -/
theorem server_linearizable_rivals :
    Meets (Sys.step none) Sys.Legible Sys.start Label.rivals ∧
      Desk.history none Label.rivals = [.invoke 0 (.register (lit "bob") (lit "one")),
        .invoke 1 (.register (lit "bob") (lit "two")), .respond 1 (.error 500 "database error"),
        .respond 0 (.message 200 "register success")] ∧
      Linearizable service .empty (Desk.history none Label.rivals) := by
  have hlegible : Meets (Sys.step none) Sys.Legible Sys.start Label.rivals := by
    decide +kernel
  exact ⟨hlegible, by decide +kernel, server_linearizable hlegible⟩

end ReactorServer
