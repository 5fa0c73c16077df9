import ReactorServer.Framing.Run
import ReactorServer.Server.Cases

/-!
# Requests for the database pool

Which requests end in a call of `dbPool_->add` can be read off their texts: the route leads to the
pool, and the handler accepts what it finds in the request (`forPool`).  And what an event brings can
be read off the bytes: the complete requests in the buffer, each with the verdict of the rate limiter
on it (`Event.forPool`).  A handler submits one task for each of these, and no others
(`countP_isSubmit_handle`).
-/

set_option autoImplicit false

namespace ReactorServer

open Search

/-! ## One request -/

/-- A request that is allowed goes to the pool: it has one of the four routes, and acceptable
credentials or a token. -/
def forPool (request : Bytes) : Bool :=
  let method := parseMethod request
  let url := parseUrl request
  if method = lit "POST" ∧ (url = lit "/register" ∨ url = lit "/login") then
    let body := parseBody request
    (checkCredentials (getJsonValue body (lit "username"))
      (getJsonValue body (lit "password"))).isNone
  else if method = lit "POST" ∧ url = lit "/logout" ∨ method = lit "GET" ∧ url = lit "/profile" then
    parseBearerToken request ≠ []
  else false

/-- It is not answered on the spot. -/
theorem answer_eq_none_iff (file : Option Bytes) (request : Bytes) (keepAlive allowed : Bool) :
    answer file request keepAlive allowed = none ↔ (allowed && forPool request) = true := by
  cases allowed with
  | false => simp [answer]
  | true =>
    rw [Bool.true_and, answer, forPool]
    simp only [Bool.not_true, Bool.false_eq_true, if_false]
    split
    · rw [Option.map_eq_none_iff, Option.isNone_iff_eq_none]
    · split
      · split
        · next hnil => simp [hnil]
        · next hne => simp [hne]
      · split
        · simp
        · simp

/-- The action is a call of `dbPool_->add`. -/
def Act.isSubmit : Act → Bool
  | .submit _ => true
  | _ => false

theorem countP_isSubmit_eq_zero {acts : List Act} (h : ∀ t, .submit t ∉ acts) :
    acts.countP Act.isSubmit = 0 := by
  refine List.countP_eq_zero.mpr fun a ha ↦ ?_
  cases a with
  | submit t => exact absurd ha (h t)
  | _ => simp [Act.isSubmit]

@[simp] theorem countP_isSubmit_writeFromBuffer (c : Conn) (k : Kernel) :
    (writeFromBuffer c k).acts.countP Act.isSubmit = 0 :=
  countP_isSubmit_eq_zero (not_submit_writeFromBuffer c k)

@[simp] theorem writeFromBuffer_verdicts (c : Conn) (k : Kernel) :
    (writeFromBuffer c k).kernel.verdicts = k.verdicts := by
  obtain ⟨c', ios, io', -, -, ⟨h, -⟩ | ⟨h, -⟩ | ⟨h, -⟩⟩ := writeFromBuffer_cases c k
  all_goals
    rw [h]
    rfl

/-- **One task for a request that goes to the pool**, and none for another. -/
theorem serve_submits (file : Option Bytes) (c : Conn) (k : Kernel) (request : Bytes)
    (keepAlive allowed : Bool) :
    (serve file c k request keepAlive allowed).kernel.verdicts = k.verdicts ∧
      (serve file c k request keepAlive allowed).acts.countP Act.isSubmit =
        (allowed && forPool request).toNat := by
  have hanswered : ∀ {reply : Bytes}, answer file request keepAlive allowed = some reply →
      (allowed && forPool request) = false := by
    intro reply h
    rw [← Bool.not_eq_true, ← answer_eq_none_iff file request keepAlive, h]
    simp
  rcases serve_cases file c k request keepAlive allowed with
    ⟨c', reply, hreply, -, h⟩ | ⟨status, body, hreply, h⟩ | ⟨t, hnone, -, h⟩
  · rw [h, hanswered hreply]
    refine ⟨writeFromBuffer_verdicts c' k, ?_⟩
    rw [Run.after_acts, List.countP_append, countP_isSubmit_writeFromBuffer]
    rfl
  · rw [h, hanswered hreply]
    refine ⟨rfl, countP_isSubmit_eq_zero fun t ht ↦ ?_⟩
    rcases sendJson_acts ht with ⟨_, h⟩ | ⟨_, _, h⟩ | h
    all_goals exact absurd h (by simp)
  · rw [h, (answer_eq_none_iff file request keepAlive allowed).mp hnone]
    exact ⟨rfl, rfl⟩

/-! ## The requests of an event -/

/-- Of some items, with the verdicts that `allowRequest` is going to give, the requests for the
pool. -/
def requestsForPool : List Item → List Bool → List Bytes
  | [], _ => []
  | .reject _ :: is, verdicts => requestsForPool is verdicts
  | .request text _ :: is, verdicts =>
    (if verdicts.headD true && forPool text then [text] else []) ++ requestsForPool is verdicts.tail

/-- The requests for the pool that an event completes: if reading ends at `EAGAIN`, they are among the
requests in the buffer and the bytes that have come, up to the first that is not keep-alive. -/
def Event.forPool (c : Conn) : Event → List Bytes
  | .readable _ reads k =>
    if (readAll reads).2 then
      requestsForPool (upToClosing (greedy (c.inputBuffer ++ (readAll reads).1)).1) k.verdicts
    else []
  | .writable _ => []

theorem turn_submits (file : Option Bytes) (c : Conn) (k : Kernel) (headers text rest : Bytes) :
    (turn file c k headers text rest).kernel.verdicts = k.verdicts.tail ∧
      (turn file c k headers text rest).acts.countP Act.isSubmit =
        (k.verdicts.headD true && forPool text).toNat := by
  have hallow : (allowRequest k).1 = k.verdicts.headD true ∧
      (allowRequest k).2.verdicts = k.verdicts.tail := by
    rw [allowRequest]
    split
    · next h => exact ⟨by rw [h]; rfl, by rw [h]; rfl⟩
    · next h => exact ⟨by rw [h]; rfl, by rw [h]; rfl⟩
  have hserve := serve_submits file { c with inputBuffer := rest } (allowRequest k).2 text
    (wantKeepAlive text headers) (allowRequest k).1
  rw [hallow.1, hallow.2] at hserve
  rw [turn]
  dsimp only
  rw [Run.after_acts, List.countP_append, hallow.1, hserve.2]
  exact ⟨hserve.1, Nat.zero_add _⟩

theorem processRequests_submits (file : Option Bytes) (c : Conn) (k : Kernel) :
    (processRequests file c k).acts.countP Act.isSubmit =
      (requestsForPool (upToClosing (greedy c.inputBuffer).1) k.verdicts).length := by
  have hlength : ∀ b : Bool, ∀ text : Bytes, (if b then [text] else []).length = b.toNat := by
    rintro (_ | _) text
    · rfl
    · rfl
  refine processRequests_induct file (P := fun c k r ↦ r.acts.countP Act.isSubmit =
    (requestsForPool (upToClosing (greedy c.inputBuffer).1) k.verdicts).length) ?_ ?_ ?_ ?_ c k
  · intro c k hf
    rw [greedy_eq, hf]
    rfl
  · intro c k status message hf
    obtain ⟨c', reply, -, h⟩ := rejectInput_loaded c k status message
    rw [h, Run.after_acts, Run.after_acts, List.countP_append, List.countP_append,
      countP_isSubmit_writeFromBuffer, greedy_eq]
    rcases hf with ⟨hf, -⟩ | ⟨hf, -⟩
    all_goals
      rw [hf]
      rfl
  · intro c k headers text rest hf hka
    rw [greedy_eq, hf, (turn_submits file c k headers text rest).2]
    dsimp only
    rw [upToClosing, hka, if_pos (by simp [Item.closing]), requestsForPool, requestsForPool, List.append_nil, hlength]
  · intro c k headers text rest hf hka ih
    obtain ⟨hverdicts, hturn⟩ := turn_submits file c k headers text rest
    rw [turn_inputBuffer, hverdicts] at ih
    rw [Run.andThen_acts, List.countP_append, hturn, ih, greedy_eq c.inputBuffer, hf]
    dsimp only
    rw [upToClosing, hka, if_neg (by simp [Item.closing]), requestsForPool, List.length_append,
      hlength]

/-- **A handler submits a task for every request for the pool that its event completes.** -/
theorem countP_isSubmit_handle (file : Option Bytes) (c : Conn) (e : Event) :
    (handle file c e).acts.countP Act.isSubmit = (e.forPool c).length := by
  cases e with
  | readable now reads k =>
    obtain ⟨acts, hacts, hcases⟩ := handleMessage_cases file c now reads k
    have hreads : acts.countP Act.isSubmit = 0 := countP_isSubmit_eq_zero fun t ht ↦ by
      rcases hacts _ ht with h | ⟨r, h⟩
      · cases h
      · cases h
    rw [Event.forPool, handle]
    rcases hcases with ⟨htrue, -, h⟩ | ⟨hfalse, h⟩
    · rw [h, if_pos htrue, Run.after_acts, List.countP_append, hreads, Nat.zero_add]
      exact processRequests_submits file (c.received now (readAll reads).1) k
    · rw [h, if_neg (by simp [hfalse])]
      simp [hreads, Act.isSubmit]
  | writable k =>
    rw [handle, handleWrite]
    split
    · rw [Run.after_acts, List.countP_append, countP_isSubmit_writeFromBuffer]
      rfl
    · rfl

end ReactorServer
