import ReactorServer.Connection.Cases

/-!
# No step after destruction

`deleteConnectionCallback_` destroys the connection before it returns, and it is called from deep
inside `sendResponse`, `sendFile` and `writeFromBuffer`.  So nothing that runs after such a call may
touch the object.  `stepsAlive` replays the actions of a call over a flag that says whether the
object still exists, and asks that it does whenever something happens.

The comment above `processRequests` argues that this is so after a reply that is not keep-alive: the
only statement that follows is a return.  After a keep-alive reply the loop goes round again and
searches `inputBuffer_`; and a keep-alive reply too can destroy the connection, when a `write` or
`sendfile` fails for good.  `no_step_after_delete_iff` says that this is the only way.
-/

set_option autoImplicit false

namespace ReactorServer

/-! ## The flag -/

/-- Replay actions over a flag that says whether the object still exists: each action must find it
alive. -/
def stepsAlive : Bool → List Act → Bool
  | _, [] => true
  | alive, a :: acts => alive && stepsAlive (alive && a != .delete) acts

theorem stepsAlive_of_not_mem {acts : List Act} (h : .delete ∉ acts) :
    stepsAlive true acts = true := by
  induction acts with
  | nil => rfl
  | cons a acts ih =>
    have ha : (a != .delete) = true := bne_iff_ne.mpr fun e ↦ h (e ▸ List.mem_cons_self)
    rw [stepsAlive, Bool.true_and, Bool.true_and, ha]
    exact ih fun hmem ↦ h (List.mem_cons_of_mem _ hmem)

theorem stepsAlive_append {as bs : List Act} (h : .delete ∉ as) :
    stepsAlive true (as ++ bs) = stepsAlive true bs := by
  induction as with
  | nil => rfl
  | cons a as ih =>
    have ha : (a != .delete) = true := bne_iff_ne.mpr fun e ↦ h (e ▸ List.mem_cons_self)
    rw [List.cons_append, stepsAlive, Bool.true_and, Bool.true_and, ha]
    exact ih fun hmem ↦ h (List.mem_cons_of_mem _ hmem)

/-- Whatever follows a deletion is a step too many. -/
theorem stepsAlive_append_of_mem {as bs : List Act} (h : .delete ∈ as) (hbs : bs ≠ []) :
    stepsAlive true (as ++ bs) = false := by
  obtain ⟨pre, post, rfl, hpre⟩ := List.eq_append_cons_of_mem h
  rw [List.append_assoc, stepsAlive_append hpre, List.cons_append, stepsAlive]
  cases hrest : post ++ bs with
  | nil => exact absurd (List.append_eq_nil_iff.mp hrest).2 hbs
  | cons a acts => rfl

/-! ## Sending -/

/-- No call of `write` or `sendfile` made for a keep-alive reply is answered with an error that is
neither `EINTR` nor `EAGAIN`, or with a count of zero. -/
def NoRefusal (acts : List Act) : Prop := ∀ r bs, .io true r bs ∈ acts → r.hard = false

theorem noRefusal_append {as bs : List Act} :
    NoRefusal (as ++ bs) ↔ NoRefusal as ∧ NoRefusal bs := by
  simp only [NoRefusal, List.mem_append, or_imp, forall_and]

theorem noRefusal_of_not_mem {acts : List Act} (h : ∀ r bs, .io true r bs ∉ acts) :
    NoRefusal acts :=
  fun r bs hmem ↦ absurd hmem (h r bs)

/-- The calls of a drain are all for the same reply. -/
theorem Drained.noRefusal_iff {c c' : Conn} {ios : List Act} (h : Drained c c' ios) :
    NoRefusal ios ↔ c.closeAfterWrite = true ∨ ¬ HasHard ios := by
  cases hc : c.closeAfterWrite with
  | true =>
    refine iff_of_true (fun r bs hmem ↦ ?_) (.inl rfl)
    rcases h.acts _ hmem with h | ⟨r', bs', h⟩
    · exact absurd h (by simp)
    · rw [hc] at h
      exact absurd h (by simp)
  | false =>
    simp only [Bool.false_eq_true, false_or]
    constructor
    · rintro hno ⟨a, ha, hhard⟩
      rcases h.acts a ha with rfl | ⟨r, bs, rfl⟩
      · exact absurd hhard (by simp [Act.isHard])
      · rw [hc] at ha
        exact absurd (hno r bs ha) (by simpa [Act.isHard] using hhard)
    · intro hno r bs hmem
      by_contra hhard
      exact hno ⟨_, hmem, by simpa [Act.isHard] using hhard⟩

/-- **A drain deletes at its very end or not at all**; and on behalf of a keep-alive reply it
deletes only when a call fails. -/
theorem writeFromBuffer_lifetime (c : Conn) (k : Kernel) :
    stepsAlive true (writeFromBuffer c k).acts = true ∧
      (c.closeAfterWrite = false →
        (.delete ∉ (writeFromBuffer c k).acts ↔ NoRefusal (writeFromBuffer c k).acts)) ∧
      (c.closeAfterWrite = true → NoRefusal (writeFromBuffer c k).acts) := by
  obtain ⟨c', ios, io', hd, -, hcases⟩ := writeFromBuffer_cases c k
  have hclose := hd.closeAfterWrite
  have hno := hd.noRefusal_iff
  have hdel := hd.not_delete
  rcases hcases with ⟨h, hhard, -⟩ | ⟨h, hhard, -⟩ | ⟨h, hhard, -⟩
  all_goals rw [h, Run.after_acts, stepsAlive_append hdel, noRefusal_append, hno]
  · -- blocked: `EPOLLOUT` is armed, and nothing is deleted
    refine ⟨rfl, fun _ ↦ ⟨fun _ ↦ ⟨.inr hhard, ?_⟩, fun _ ↦ ?_⟩, fun hc ↦ ⟨.inl hc, ?_⟩⟩
    · exact noRefusal_of_not_mem (by simp [stopWrite, enableWriting, updateChannel])
    · simp [stopWrite, enableWriting, updateChannel, hdel]
    · exact noRefusal_of_not_mem (by simp [stopWrite, enableWriting, updateChannel])
  · -- a call failed: the connection is deleted at once
    refine ⟨rfl, fun hc ↦ iff_of_false ?_ ?_, fun hc ↦ ⟨.inl hc, ?_⟩⟩
    · simp [stopWrite]
    · simp [hc, hhard]
    · exact noRefusal_of_not_mem (by simp [stopWrite])
  · -- finished: the connection is deleted if the reply was the last one
    refine ⟨?_, fun hc ↦ ⟨fun _ ↦ ⟨.inr hhard, ?_⟩, fun _ ↦ ?_⟩, fun hc ↦ ⟨.inl hc, ?_⟩⟩
    · cases hc : c'.closeAfterWrite <;> simp [finishWrite, disableWriting, updateChannel, hc, stepsAlive]
    · exact noRefusal_of_not_mem (by simp [finishWrite, disableWriting, updateChannel, hclose, hc])
    · simp [finishWrite, disableWriting, updateChannel, hclose, hc, hdel]
    · exact noRefusal_of_not_mem (by simp [finishWrite, disableWriting, updateChannel, hclose, hc])

/-- `sendJson` never deletes the connection. -/
theorem sendJson_lifetime (c : Conn) (k : Kernel) (status : ℕ) (body : Bytes) (ka : Bool) :
    .delete ∉ (sendJson c k status body ka).acts ∧ NoRefusal (sendJson c k status body ka).acts := by
  refine ⟨fun h ↦ ?_, noRefusal_of_not_mem fun r bs h ↦ ?_⟩
  all_goals rcases sendJson_acts h with ⟨_, h⟩ | ⟨_, _, h⟩ | h
  all_goals exact absurd h (by simp)

/-! ## The request loop -/

theorem serve_lifetime (file : Option Bytes) (c : Conn) (k : Kernel) (request : Bytes)
    (ka allowed : Bool) :
    stepsAlive true (serve file c k request ka allowed).acts = true ∧
      (ka = true → (.delete ∉ (serve file c k request ka allowed).acts ↔
        NoRefusal (serve file c k request ka allowed).acts)) ∧
      (ka = false → NoRefusal (serve file c k request ka allowed).acts) := by
  rcases serve_cases file c k request ka allowed with
    ⟨c', reply, -, hl, h⟩ | ⟨status, body, -, h⟩ | ⟨t, -, -, h⟩
  · obtain ⟨hsteps, hkeep, hclosing⟩ := writeFromBuffer_lifetime c' k
    have hc : c'.closeAfterWrite = !ka := by rw [hl.same]
    have hone : NoRefusal [.issue ka reply] := noRefusal_of_not_mem (by simp)
    rw [h, Run.after_acts, stepsAlive_append (by simp), noRefusal_append, and_iff_right hone]
    refine ⟨hsteps, fun hka ↦ ?_, fun hka ↦ hclosing (by rw [hc, hka]; rfl)⟩
    rw [← hkeep (by rw [hc, hka]; rfl)]
    simp
  · obtain ⟨hdel, hno⟩ := sendJson_lifetime c k status body ka
    rw [h]
    exact ⟨stepsAlive_of_not_mem hdel, fun _ ↦ iff_of_true hdel hno, fun _ ↦ hno⟩
  · rw [h]
    exact ⟨rfl, fun _ ↦ iff_of_true (by simp) (noRefusal_of_not_mem (by simp)),
      fun _ ↦ noRefusal_of_not_mem (by simp)⟩

theorem turn_lifetime (file : Option Bytes) (c : Conn) (k : Kernel) (headers text rest : Bytes) :
    stepsAlive true (turn file c k headers text rest).acts = true ∧
      (wantKeepAlive text headers = true → (.delete ∉ (turn file c k headers text rest).acts ↔
        NoRefusal (turn file c k headers text rest).acts)) ∧
      (wantKeepAlive text headers = false →
        NoRefusal (turn file c k headers text rest).acts) := by
  obtain ⟨hsteps, hkeep, hclosing⟩ := serve_lifetime file { c with inputBuffer := rest }
    (allowRequest k).2 text (wantKeepAlive text headers) (allowRequest k).1
  rw [turn]
  dsimp only
  rw [Run.after_acts, stepsAlive_append (by simp), noRefusal_append,
    and_iff_right (noRefusal_of_not_mem (by simp))]
  refine ⟨hsteps, fun hka ↦ ?_, hclosing⟩
  rw [← hkeep hka]
  simp

theorem rejectInput_lifetime (c : Conn) (k : Kernel) (status : ℕ) (message : String) :
    stepsAlive true (rejectInput c k status message).acts = true ∧
      NoRefusal (rejectInput c k status message).acts := by
  obtain ⟨c', reply, hl, h⟩ := rejectInput_loaded c k status message
  obtain ⟨hsteps, -, hclosing⟩ := writeFromBuffer_lifetime c' k
  rw [h, Run.after_acts, Run.after_acts, stepsAlive_append (by simp),
    stepsAlive_append (by simp), noRefusal_append, noRefusal_append]
  exact ⟨hsteps, noRefusal_of_not_mem (by simp), noRefusal_of_not_mem (by simp),
    hclosing (by rw [hl.same]; rfl)⟩

theorem processRequests_lifetime (file : Option Bytes) (c : Conn) (k : Kernel) :
    stepsAlive true (processRequests file c k).acts = true ↔
      NoRefusal (processRequests file c k).acts := by
  refine processRequests_induct file (P := fun _ _ r ↦
    (stepsAlive true r.acts = true ↔ NoRefusal r.acts)) ?_ ?_ ?_ ?_ c k
  · intro c k _
    exact iff_of_true rfl (noRefusal_of_not_mem (by simp))
  · intro c k status message _
    obtain ⟨hsteps, hno⟩ := rejectInput_lifetime c k status message
    exact iff_of_true hsteps hno
  · intro c k headers text rest _ hka
    obtain ⟨hsteps, -, hno⟩ := turn_lifetime file c k headers text rest
    exact iff_of_true hsteps (hno hka)
  · intro c k headers text rest _ hka ih
    obtain ⟨-, hkeep, -⟩ := turn_lifetime file c k headers text rest
    rw [Run.andThen_acts, noRefusal_append, ← hkeep hka]
    by_cases hdel : .delete ∈ (turn file c k headers text rest).acts
    · -- the loop goes round once more, on an object that is gone
      obtain ⟨acts, hacts⟩ := processRequests_acts file (turn file c k headers text rest).conn
        (turn file c k headers text rest).kernel
      rw [stepsAlive_append_of_mem hdel (by rw [hacts]; simp)]
      simp [hdel]
    · rw [stepsAlive_append hdel, ih, and_iff_right hdel]

/-- **No step after destruction**, exactly when no write of a keep-alive reply is refused; and
`handleWrite` is always safe. -/
theorem no_step_after_delete_iff (file : Option Bytes) (c : Conn) (now : ℕ)
    (reads : List ReadResult) (k : Kernel) :
    (stepsAlive true (handleMessage file c now reads k).acts = true ↔
        NoRefusal (handleMessage file c now reads k).acts) ∧
      (stepsAlive true (processRequests file c k).acts = true ↔
        NoRefusal (processRequests file c k).acts) ∧
      stepsAlive true (handleWrite c k).acts = true := by
  refine ⟨?_, processRequests_lifetime file c k, ?_⟩
  · obtain ⟨acts, hacts, hcases⟩ := handleMessage_cases file c now reads k
    have hdel := not_delete_reads hacts
    have hno : NoRefusal acts := by
      refine noRefusal_of_not_mem fun r bs hmem ↦ ?_
      rcases hacts _ hmem with h | ⟨r, h⟩
      · exact absurd h (by simp)
      · exact absurd h (by simp)
    rcases hcases with ⟨-, -, h⟩ | ⟨-, h⟩
    · rw [h, Run.after_acts, stepsAlive_append hdel, noRefusal_append, and_iff_right hno]
      exact processRequests_lifetime file _ k
    · rw [h]
      refine iff_of_true ?_ (noRefusal_append.mpr ⟨hno, noRefusal_of_not_mem (by simp)⟩)
      rw [stepsAlive_append hdel]
      rfl
  · rw [handleWrite]
    split
    · rw [Run.after_acts, stepsAlive_append (by simp)]
      exact (writeFromBuffer_lifetime c k).1
    · rfl

/-- A keep-alive request whose reply the kernel refuses. -/
def refusedHello : Conn × Kernel :=
  ({ (newConn 5 0).1 with inputBuffer := lit "GET /hello HTTP/1.1\r\n\r\n" }, ⟨[.fail .other], []⟩)

/-- The loop searches the input buffer of a connection that it has destroyed. -/
theorem step_after_delete :
    stepsAlive true (processRequests none refusedHello.1 refusedHello.2).acts = false := by
  decide +kernel

end ReactorServer
