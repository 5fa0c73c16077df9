import ReactorServer.Connection.Cases
import ReactorServer.Db.Answer

/-!
# One response for each request

A request that is dispatched is answered in one of three places: through the output buffer of its
connection, by a `sendJson` on the reactor thread, or by one on the thread of the database pool that
runs its task.  `serve_cases` says that the reactor does exactly one of these, and
`work_answers_once` that a task answers exactly once, whatever its calls come to.  Put together, the
responses issued for a request are one (`answersOne_serve`).

In the trace of a connection the actions for a request are those from its dispatch to the next look
at the buffer, `servings`.
-/

set_option autoImplicit false

namespace ReactorServer

open Program

/-! ## The responses to a request -/

/-- What becomes of the calls of a task, one after another: any result, or an exception where there
can be one.  An exception in a destructor would be the end of the process. -/
structure Outcomes where
  answer : ℕ → (o : Call) → Option o.Res
  noexcept : ∀ n o, o.isNoexcept = true → answer n o ≠ none

/-- How often a task calls `sendJson`. -/
def Task.sends (t : Task) (out : Outcomes) : ℕ :=
  (performed out.answer 0 t.work).countP Call.isSend

/-- The responses an action accounts for: `sendResponse` and `sendFile`, `sendJson`, and what becomes
of a task that is handed to the pool. -/
def Act.responses (out : Outcomes) : Act → ℕ
  | .issue .. => 1
  | .json _ => 1
  | .submit t => t.sends out
  | _ => 0

/-- The responses some actions account for. -/
def responses (out : Outcomes) : List Act → ℕ
  | [] => 0
  | a :: acts => a.responses out + responses out acts

/-- The request loop looks at the buffer. -/
def Act.isFrame : Act → Bool
  | .frame => true
  | _ => false

/-- The actions for each request: from its dispatch to the next look at the buffer. -/
def servings : List Act → List (List Act)
  | [] => []
  | .dispatch _ :: acts => acts.takeWhile (!·.isFrame) :: servings acts
  | _ :: acts => servings acts

/-- One response has been issued for each request dispatched, whatever became of its task. -/
def AnsweredOnce (acts : List Act) : Prop := ∀ serving ∈ servings acts, ∀ out, responses out serving = 1

/-! ## A task -/

/-- **A task calls `sendJson` exactly once**, on every run. -/
theorem countP_performed {α : Type} {p : Job α} {sent : Bool}
    (h : wp onceSpec p (fun sent _ ↦ sent = true) sent) (out : Outcomes) (n : ℕ) :
    (performed out.answer n p).countP Call.isSend = if sent then 0 else 1 := by
  induction p generalizing sent n with
  | ret a =>
    have hsent : sent = true := h
    rw [hsent, if_pos rfl]
    rfl
  | throw =>
    have hsent : sent = true := h
    rw [hsent, if_pos rfl]
    rfl
  | call o next ih =>
    obtain ⟨hpre, hpost⟩ := h
    have hnext := ih _ (hpost (sent || o.isSend) (out.answer n o) ⟨rfl, out.noexcept n o⟩) (n + 1)
    rw [performed, List.countP_cons, hnext]
    by_cases hsend : o.isSend = true
    · rw [hsend, hpre hsend]
      rfl
    · rw [Bool.not_eq_true] at hsend
      rw [hsend, Bool.or_false]
      rfl

theorem sends_eq_one (t : Task) (out : Outcomes) : t.sends out = 1 :=
  countP_performed (work_answers_once t) out 0

/-! ## The rest of what the reactor does -/

/-- Neither a look at the buffer, nor a request, nor a response. -/
def Act.isOther : Act → Bool
  | .touch => true
  | .read _ => true
  | .io .. => true
  | .jsonIo .. => true
  | .complete => true
  | .ctl .. => true
  | .delete => true
  | _ => false

/-- Actions that are neither a look at the buffer, nor a request, nor a response. -/
def Others (acts : List Act) : Prop := ∀ a ∈ acts, a.isOther = true

theorem others_append {as bs : List Act} : Others (as ++ bs) ↔ Others as ∧ Others bs :=
  List.forall_mem_append

theorem Act.isFrame_of_isOther {a : Act} (h : a.isOther = true) : a.isFrame = false := by
  cases a <;> simp_all [Act.isOther, Act.isFrame]

theorem Others.responses {acts : List Act} (h : Others acts) (out : Outcomes) :
    responses out acts = 0 := by
  induction acts with
  | nil => rfl
  | cons a acts ih =>
    obtain ⟨ha, hacts⟩ := List.forall_mem_cons.mp h
    have hzero : a.responses out = 0 := by
      cases a <;> simp_all [Act.isOther, Act.responses]
    rw [ReactorServer.responses, hzero, ih hacts]

theorem Others.servings_append {acts : List Act} (h : Others acts) (rest : List Act) :
    servings (acts ++ rest) = servings rest := by
  induction acts with
  | nil => rfl
  | cons a acts ih =>
    obtain ⟨ha, hacts⟩ := List.forall_mem_cons.mp h
    rw [List.cons_append, servings, ih hacts]
    rintro d rfl
    exact absurd ha (by simp [Act.isOther])

theorem Others.servings {acts : List Act} (h : Others acts) : servings acts = [] := by
  have key := h.servings_append []
  rwa [List.append_nil] at key

theorem Drained.others {c c' : Conn} {ios : List Act} (h : Drained c c' ios) : Others ios := by
  intro a ha
  rcases h.acts a ha with rfl | ⟨r, bs, rfl⟩
  · rfl
  · rfl

theorem writeFromBuffer_others (c : Conn) (k : Kernel) : Others (writeFromBuffer c k).acts := by
  obtain ⟨c', ios, io', hd, -, ⟨h, -⟩ | ⟨h, -⟩ | ⟨h, -⟩⟩ := writeFromBuffer_cases c k
  all_goals
    rw [h, Run.after_acts, others_append]
    refine ⟨hd.others, ?_⟩
  · simp [Others, stopWrite, enableWriting, updateChannel, Act.isOther]
  · simp [Others, stopWrite, Act.isOther]
  · rw [finishWrite, others_append]
    refine ⟨by simp [Others, disableWriting, updateChannel, Act.isOther], ?_⟩
    split
    · simp [Others, Act.isOther]
    · simp [Others]

theorem handleWrite_others (c : Conn) (k : Kernel) : Others (handleWrite c k).acts := by
  rw [handleWrite]
  split
  · rw [Run.after_acts, others_append]
    exact ⟨by simp [Others, Act.isOther], writeFromBuffer_others c k⟩
  · simp [Others, disableWriting, updateChannel, Act.isOther]

/-- `sendJson` is one response and its writes. -/
theorem sendJson_others (c : Conn) (k : Kernel) (status : ℕ) (body : Bytes) (ka : Bool) :
    ∃ acts, (sendJson c k status body ka).acts = .json (jsonResponse status body ka) :: acts ∧
      Others acts := by
  refine ⟨_, rfl, others_append.mpr ⟨fun a ha ↦ ?_, ?_⟩⟩
  · rcases drain_acts _ _ _ _ ha with h | ⟨r, bs, rfl⟩
    · exact absurd h (by simp)
    · rfl
  · split
    · simp [Others, Act.isOther]
    · simp [Others]

/-! ## The loop -/

/-- What is done for one request: one response, and no look at the buffer. -/
structure AnswersOne (acts : List Act) : Prop where
  frame : ∀ a ∈ acts, a.isFrame = false
  servings : servings acts = []
  responses : ∀ out, responses out acts = 1

/-- A response, and after it nothing that counts. -/
theorem answersOne_cons (a : Act) (hframe : a.isFrame = false)
    (hservings : ∀ rest, servings (a :: rest) = servings rest)
    (hresponses : ∀ out, a.responses out = 1) {acts : List Act} (hacts : Others acts) :
    AnswersOne (a :: acts) where
  frame := List.forall_mem_cons.mpr ⟨hframe, fun b hb ↦ Act.isFrame_of_isOther (hacts b hb)⟩
  servings := by rw [hservings, hacts.servings]
  responses out := by rw [responses, hresponses, hacts.responses]

/-- **One response to a request**: the reactor issues it, or hands over a task that does. -/
theorem answersOne_serve (file : Option Bytes) (c : Conn) (k : Kernel) (request : Bytes)
    (ka allowed : Bool) : AnswersOne (serve file c k request ka allowed).acts := by
  rcases serve_cases file c k request ka allowed with
    ⟨c', reply, -, -, h⟩ | ⟨status, body, -, h⟩ | ⟨t, -, -, h⟩
  · rw [h]
    exact answersOne_cons (.issue ka reply) rfl (fun _ ↦ rfl) (fun _ ↦ rfl) (writeFromBuffer_others c' k)
  · obtain ⟨acts, he, hacts⟩ := sendJson_others c k status body ka
    rw [h, he]
    exact answersOne_cons _ rfl (fun _ ↦ rfl) (fun _ ↦ rfl) hacts
  · rw [h]
    exact answersOne_cons (.submit t) rfl (fun _ ↦ rfl) (sends_eq_one t) (by simp [Others])

theorem answeredOnce_turn (file : Option Bytes) (c : Conn) (k : Kernel) (headers text rest : Bytes) :
    AnsweredOnce (turn file c k headers text rest).acts := by
  have hserve := answersOne_serve file { c with inputBuffer := rest } (allowRequest k).2 text
    (wantKeepAlive text headers) (allowRequest k).1
  intro serving hserving out
  rw [turn, Run.after_acts, List.cons_append, List.cons_append, List.nil_append, servings, servings,
    hserve.servings, List.mem_singleton] at hserving
  · rw [hserving, List.takeWhile_eq_self_iff.mpr fun a ha ↦ by rw [hserve.frame a ha]; rfl]
    exact hserve.responses out
  · simp

/-- What comes after the actions for a request, up to the next look at the buffer, is no response. -/
theorem responses_takeWhile_append {others : List Act} (hothers : Others others) {rest : List Act}
    (hframe : rest = [] ∨ ∃ acts, rest = .frame :: acts) (out : Outcomes) (bs : List Act) :
    responses out ((bs ++ (others ++ rest)).takeWhile (!·.isFrame)) =
      responses out (bs.takeWhile (!·.isFrame)) := by
  induction bs with
  | nil =>
    have hstop : rest.takeWhile (!·.isFrame) = [] := by
      rcases hframe with rfl | ⟨acts, rfl⟩
      · rfl
      · rfl
    rw [List.nil_append, List.takeWhile_append_of_pos, hstop, List.append_nil, hothers.responses]
    · rfl
    · intro a ha
      rw [Act.isFrame_of_isOther (hothers a ha)]
      rfl
  | cons b bs ih =>
    rw [List.cons_append]
    by_cases hb : b.isFrame = true
    · rw [List.takeWhile_cons_of_neg (by simp [hb]), List.takeWhile_cons_of_neg (by simp [hb])]
    · rw [List.takeWhile_cons_of_pos (by simpa using hb),
        List.takeWhile_cons_of_pos (by simpa using hb), responses, responses, ih]

/-- Runs of the loop one after another, with other things in between. -/
theorem AnsweredOnce.append {as : List Act} (h : AnsweredOnce as) {others : List Act}
    (hothers : Others others) {rest : List Act} (hrest : AnsweredOnce rest)
    (hframe : rest = [] ∨ ∃ acts, rest = .frame :: acts) : AnsweredOnce (as ++ (others ++ rest)) := by
  induction as with
  | nil =>
    intro serving hserving
    rw [List.nil_append, hothers.servings_append] at hserving
    exact hrest serving hserving
  | cons a as ih =>
    cases a with
    | dispatch d =>
      obtain ⟨hnow, hlater⟩ := List.forall_mem_cons.mp h
      refine List.forall_mem_cons.mpr ⟨fun out ↦ ?_, ih hlater⟩
      exact (responses_takeWhile_append hothers hframe out as).trans (hnow out)
    | _ => exact ih h

theorem answeredOnce_of_servings {acts : List Act} (h : servings acts = []) : AnsweredOnce acts := by
  intro serving hserving
  rw [h] at hserving
  exact absurd hserving (by simp)

theorem AnsweredOnce.append_others {as : List Act} (h : AnsweredOnce as) {others : List Act}
    (hothers : Others others) : AnsweredOnce (as ++ others) := by
  have key := h.append hothers (answeredOnce_of_servings rfl) (.inl rfl)
  rwa [List.append_nil] at key

theorem answeredOnce_processRequests (file : Option Bytes) (c : Conn) (k : Kernel) :
    AnsweredOnce (processRequests file c k).acts := by
  refine processRequests_induct file (P := fun _ _ r ↦ AnsweredOnce r.acts) ?_ ?_ ?_ ?_ c k
  · intro c k _
    exact answeredOnce_of_servings rfl
  · intro c k status message _
    obtain ⟨c', reply, -, he⟩ := rejectInput_loaded c k status message
    rw [he]
    exact answeredOnce_of_servings (writeFromBuffer_others c' k).servings
  · intro c k headers text rest _ _
    exact answeredOnce_turn file c k headers text rest
  · intro c k headers text rest _ _ ih
    rw [Run.andThen_acts]
    have hnone : Others [] := by simp [Others]
    exact (answeredOnce_turn file c k headers text rest).append hnone ih
      (.inr (processRequests_acts file _ _))

/-! ## The life of a connection -/

theorem answeredOnce_handle (file : Option Bytes) (c : Conn) (e : Event) {trace : List Act}
    (h : AnsweredOnce trace) : AnsweredOnce (trace ++ (handle file c e).acts) := by
  cases e with
  | readable now reads k =>
    obtain ⟨acts, hacts, ⟨-, -, he⟩ | ⟨-, he⟩⟩ := handleMessage_cases file c now reads k
    all_goals
      have hothers : Others acts := by
        intro a ha
        rcases hacts a ha with rfl | ⟨r, rfl⟩
        · rfl
        · rfl
      rw [handle, he]
    · exact h.append hothers (answeredOnce_processRequests file _ _)
        (.inr (processRequests_acts file _ _))
    · have hdelete : Others (acts ++ [.delete]) :=
        others_append.mpr ⟨hothers, by simp [Others, Act.isOther]⟩
      exact h.append_others hdelete
  | writable k => exact h.append_others (handleWrite_others c k)

/-- **One response for each request.**  In every call of `processRequests`, and in the whole life of a
connection, each request that is dispatched has exactly one response issued for it, whatever the rate
limiter, the static file, the pools and the databases have to say. -/
theorem one_response_each (file : Option Bytes) :
    (∀ c k, AnsweredOnce (processRequests file c k).acts) ∧
      ∀ fd now es, AnsweredOnce (Session.run file (.start fd now) es).trace := by
  refine ⟨answeredOnce_processRequests file, fun fd now es ↦ ?_⟩
  induction es using List.reverseRecOn with
  | nil => exact answeredOnce_of_servings rfl
  | append_singleton es e ih =>
    rw [Session.run_concat]
    by_cases halive : (Session.run file (.start fd now) es).alive = true
    · rw [Session.step_of_alive file halive]
      exact answeredOnce_handle file _ e ih
    · rw [Session.step_of_not_alive file (by simpa using halive)]
      exact ih

end ReactorServer
