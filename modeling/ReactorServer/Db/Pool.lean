import ReactorServer.Db.Auth
import ReactorServer.Db.Answer
import ReactorServer.Lib.Machine

/-!
# The pool, worker by worker

`Auth` keeps a list of answers, but two workers can be at the same task, and then the list does not
say which of them gave which.  `Auth.replies` is what a run of the pool answers, each response with
the worker that sent it.

To prove something about a run one gives every worker a specification and a view of the world, and
shows that what a worker does is within its own specification and leaves the others' views intact.
`Auth.Keeps` says that all workers are within their specifications, and `Keeps.start`, `Keeps.call`
and `Keeps.mono` are what the moves do to it.  Two things about runs are then general: every worker
answers exactly once (`replies_once`), and it is through with its task after fifteen calls
(`finished_of_calls`).
-/

set_option autoImplicit false

namespace ReactorServer

open Program Machine

/-! ## Responses -/

/-- A response, and the worker that has sent it. -/
structure Reply where
  worker : ℕ
  statusCode : ℕ
  body : Bytes
  deriving DecidableEq, Repr

/-- The response that a call of a worker sends, if it is one that does. -/
def Call.reply (i : ℕ) : Call → List Reply
  | .send statusCode body => [⟨i, statusCode, body⟩]
  | _ => []

/-- The call comes out as it should. -/
def Outcome.isFine : Outcome → Bool
  | .served | .handle _ | .token _ => true
  | _ => false

/-- Then the caller sees that it has come out well. -/
theorem Store.exec_well {s s' : Store} {o : Call} {out : Outcome} {r : Option o.Res}
    (h : s.exec o out = some (s', r)) (hfine : out.isFine = true) : o.Well r := by
  cases out with
  | served =>
    cases o with
    | redisCommand conn cmd =>
      cases h
      refine ⟨_, rfl, ?_⟩
      cases cmd with
      | get key => cases hvalue : s.redis key <;> simp [Store.redisRun, hvalue]
      | setex key ttl value => simp [Store.redisRun]
      | del key => simp [Store.redisRun]
    | mysqlQuery conn sql =>
      cases h
      refine ⟨by simp, fun u hu ↦ ⟨(s.users u).toList, ?_⟩⟩
      rw [Store.mysqlQuery, hu]
      rfl
    | _ => cases h <;> simp [Call.Well]
  | handle n => cases o <;> cases h <;> exact ⟨n, rfl⟩
  | token token =>
    cases o with
    | generateToken =>
      rw [Store.exec] at h
      by_cases hdraw : s.canDraw token = true
      · rw [if_pos hdraw] at h
        cases h
        simp [Call.Well]
      · rw [if_neg hdraw] at h
        cases h
    | _ => cases h
  | _ => cases hfine

/-- The move is a call of this worker. -/
def Move.isCallOf (j : ℕ) : Move → Bool
  | .call i _ => i == j
  | _ => false

namespace Auth

/-- The response that a move sends, if any. -/
def reply (s : Auth) : Move → List Reply
  | .call i out =>
    match s.running[i]? with
    | some ⟨_, .call o _⟩ => if (s.store.exec o out).isSome then o.reply i else []
    | _ => []
  | .start _ => []
  | .expire _ => []

/-- The responses that are sent in a run. -/
def replies (s : Auth) : List Move → List Reply
  | [] => []
  | m :: ms => s.reply m ++ (s.step m).replies ms

theorem run_append (s : Auth) (ms ms' : List Move) : s.run (ms ++ ms') = (s.run ms).run ms' :=
  List.foldl_append

theorem replies_append (s : Auth) (ms ms' : List Move) :
    s.replies (ms ++ ms') = s.replies ms ++ (s.run ms).replies ms' := by
  induction ms generalizing s with
  | nil => rfl
  | cons m ms ih =>
    rw [List.cons_append, replies, replies, ih, List.append_assoc]
    rfl

/-- **What a move can be**: a start, an expiration, a call that is not possible, or a call. -/
theorem move_cases (s : Auth) (m : Move) :
    (∃ t, m = .start t) ∨ (∃ key, m = .expire key) ∨ (s.step m = s ∧ s.reply m = []) ∨
      ∃ i out t o next store r, m = .call i out ∧ s.running[i]? = some ⟨t, .call o next⟩ ∧
        s.store.exec o out = some (store, r) ∧ s.reply m = o.reply i ∧
        s.step m = { store := store, running := s.running.set i ⟨t, next r⟩,
                     issued := s.issued ++ t.issues o r, answers := s.answers ++ t.answers o } := by
  cases m with
  | start t => exact .inl ⟨t, rfl⟩
  | expire key => exact .inr (.inl ⟨key, rfl⟩)
  | call i out =>
    refine .inr (.inr ?_)
    rw [step, reply]
    cases hi : s.running[i]? with
    | none => exact .inl ⟨rfl, rfl⟩
    | some k =>
      obtain ⟨t, rest⟩ := k
      cases rest with
      | ret a => exact .inl ⟨rfl, rfl⟩
      | throw => exact .inl ⟨rfl, rfl⟩
      | call o next =>
        dsimp only
        cases hexec : s.store.exec o out with
        | none => exact .inl ⟨rfl, rfl⟩
        | some res =>
          exact .inr ⟨i, out, t, o, next, res.1, res.2, rfl, hi, hexec, rfl, rfl⟩

/-- **The invariant rule**, for a property of a state and of what has been answered so far. -/
theorem replies_invariant {ok : Auth → Move → Prop} {I : Auth → List Reply → Prop}
    (hstep : ∀ s log m, I s log → ok s m → I (s.step m) (log ++ s.reply m)) {s : Auth}
    {ms : List Move} (h : Meets step ok s ms) {log : List Reply} (hs : I s log) :
    I (s.run ms) (log ++ s.replies ms) := by
  induction ms generalizing s log with
  | nil =>
    rw [replies, List.append_nil]
    exact hs
  | cons m ms ih =>
    rw [replies, ← List.append_assoc]
    exact ih h.2 (hstep s log m hs h.1)

theorem running_length_le (s : Auth) (m : Move) :
    s.running.length ≤ (s.step m).running.length := by
  rcases s.move_cases m with ⟨t, rfl⟩ | ⟨key, rfl⟩ | ⟨e, -⟩ |
    ⟨i, out, t, o, next, store, r, rfl, -, -, -, e⟩
  · rw [show (s.step (.start t)).running = s.running ++ [⟨t, t.work⟩] from rfl, List.length_append]
    omega
  · exact le_rfl
  · rw [e]
  · rw [e, List.length_set]

theorem worker_lt_of_mem_reply {s : Auth} {m : Move} {r : Reply} (hr : r ∈ s.reply m) :
    r.worker < s.running.length := by
  rcases s.move_cases m with ⟨t, rfl⟩ | ⟨key, rfl⟩ | ⟨-, hreply⟩ |
    ⟨i, out, t, o, next, store, r', rfl, hi, -, hreply, -⟩
  · exact absurd hr List.not_mem_nil
  · exact absurd hr List.not_mem_nil
  · rw [hreply] at hr
    exact absurd hr List.not_mem_nil
  · rw [hreply] at hr
    cases o with
    | send statusCode body =>
      rw [List.mem_singleton.mp hr]
      exact (List.getElem?_eq_some_iff.mp hi).1
    | _ => exact absurd hr List.not_mem_nil

/-- Whoever has answered has been started. -/
theorem started_run {s : Auth} {log : List Reply} (h : ∀ r ∈ log, r.worker < s.running.length)
    (ms : List Move) : ∀ r ∈ log ++ s.replies ms, r.worker < (s.run ms).running.length := by
  refine replies_invariant (I := fun s log ↦ ∀ r ∈ log, r.worker < s.running.length)
    (fun s log m h _ r hr ↦ ?_) (meets_of_forall (fun _ _ _ ↦ trivial) s) h
  have hle := s.running_length_le m
  rcases List.mem_append.mp hr with hr | hr
  · have := h r hr
    omega
  · have := worker_lt_of_mem_reply hr
    omega

/-- Nobody takes back a row of the users table, or a token. -/
theorem world_le_step (s : Auth) (m : Move) : s.world ≤ (s.step m).world := by
  rcases s.move_cases m with ⟨t, rfl⟩ | ⟨key, rfl⟩ | ⟨e, -⟩ |
    ⟨i, out, t, o, next, store, r, rfl, -, hexec, -, e⟩
  · exact le_rfl
  · exact le_rfl
  · rw [e]
  · rw [e]
    exact ⟨fun u p hp ↦ Store.exec_users hexec hp, List.subset_append_left _ _⟩

/-! ## Every worker within its specification -/

section Keeps

variable {W : Type} {S : ℕ → Task → Spec Call Call.Res W} {Q : ℕ → W → Option PUnit → Prop}
variable {w w' : ℕ → W} {s s' : Auth}

/-- Every worker is within its specification, in the world as it sees it. -/
def Keeps (S : ℕ → Task → Spec Call Call.Res W) (Q : ℕ → W → Option PUnit → Prop) (w : ℕ → W)
    (s : Auth) : Prop :=
  ∀ i k, s.running[i]? = some k → wp (S i k.task) k.rest (Q i) (w i)

theorem Keeps.of_running_eq (h : s.Keeps S Q w) (e : s'.running = s.running) : s'.Keeps S Q w := by
  intro i k hk
  rw [e] at hk
  exact h i k hk

/-- What a worker was promised survives what the others do. -/
theorem Keeps.mono [Preorder W] (hS : ∀ i t, (S i t).Stable)
    (hQ : ∀ i w w' r, w ≤ w' → Q i w r → Q i w' r) (h : s.Keeps S Q w) (hw : ∀ i, w i ≤ w' i) :
    s.Keeps S Q w' :=
  fun i k hk ↦ wp_mono (hS i k.task) (hQ i) (h i k hk) (hw i)

theorem Keeps.start (h : s.Keeps S Q w) {t : Task}
    (hnew : wp (S s.running.length t) t.work (Q s.running.length) (w s.running.length)) :
    (s.step (.start t)).Keeps S Q w := by
  intro i k hk
  change (s.running ++ [⟨t, t.work⟩])[i]? = some k at hk
  rcases Nat.lt_or_ge i s.running.length with hi | hi
  · rw [List.getElem?_append_left hi] at hk
    exact h i k hk
  · obtain ⟨rfl, rfl⟩ : i = s.running.length ∧ (⟨t, t.work⟩ : Worker) = k := by
      rw [List.getElem?_append_right hi, List.getElem?_singleton] at hk
      by_cases h0 : i - s.running.length = 0
      · rw [if_pos h0] at hk
        exact ⟨by omega, Option.some.inj hk⟩
      · rw [if_neg h0] at hk
        exact absurd hk (by simp)
    exact hnew

theorem Keeps.call (h : s.Keeps S Q w) {i : ℕ} {t : Task} {o : Call} {next : Option o.Res → Job PUnit}
    (hi : s.running[i]? = some ⟨t, .call o next⟩) {r : Option o.Res} {w₁ : W}
    (hpost : (S i t).post (w i) o r w₁) (e : s'.running = s.running.set i ⟨t, next r⟩) :
    s'.Keeps S Q (Function.update w i w₁) := by
  intro j k hk
  rw [e, List.getElem?_set] at hk
  by_cases hj : i = j
  · subst hj
    rw [if_pos rfl, if_pos (List.getElem?_eq_some_iff.mp hi).1] at hk
    obtain rfl := Option.some.inj hk
    rw [Function.update_self]
    exact (h i _ hi).2 w₁ r hpost
  · rw [if_neg hj] at hk
    rw [Function.update_of_ne (Ne.symm hj)]
    exact h j k hk

end Keeps

/-! ## Every worker answers once -/

/-- The worker is through with its task. -/
def Finished (s : Auth) (i : ℕ) : Prop := ∃ k, s.running[i]? = some k ∧ AtMost 0 k.rest

/-- The responses of a worker. -/
def repliesOf (i : ℕ) (log : List Reply) : List Reply := log.filter (·.worker = i)

theorem repliesOf_append (i : ℕ) (log log' : List Reply) :
    repliesOf i (log ++ log') = repliesOf i log ++ repliesOf i log' :=
  List.filter_append ..

theorem repliesOf_reply_self (i : ℕ) (o : Call) : repliesOf i (o.reply i) = o.reply i := by
  cases o <;> simp [repliesOf, Call.reply]

theorem repliesOf_reply_of_ne {i j : ℕ} (h : i ≠ j) (o : Call) : repliesOf j (o.reply i) = [] := by
  cases o <;> simp [repliesOf, Call.reply, h]

theorem mem_repliesOf {i : ℕ} {log : List Reply} {r : Reply} :
    r ∈ repliesOf i log ↔ r ∈ log ∧ r.worker = i := by
  simp [repliesOf]

/-- Whether a worker has answered, according to a log. -/
def answered (log : List Reply) (i : ℕ) : Bool := !(repliesOf i log).isEmpty

theorem answered_append_reply (log : List Reply) (i : ℕ) (o : Call) :
    answered (log ++ o.reply i) = Function.update (answered log) i (answered log i || o.isSend) := by
  funext j
  rw [answered, repliesOf_append]
  by_cases hj : j = i
  · subst hj
    rw [repliesOf_reply_self, Function.update_self, answered]
    cases o <;> simp [Call.reply, Call.isSend]
  · rw [repliesOf_reply_of_ne (Ne.symm hj), List.append_nil, Function.update_of_ne hj]
    rfl

/-- The log so far: every worker in it has been started, none has answered twice, and each will have
answered by the time it is through. -/
structure Once (s : Auth) (log : List Reply) : Prop where
  started : ∀ r ∈ log, r.worker < s.running.length
  atMost : ∀ i, (repliesOf i log).length ≤ 1
  keeps : s.Keeps (fun _ _ ↦ onceSpec) (fun _ sent _ ↦ sent = true) (answered log)

theorem once_of_running_nil {s : Auth} (h : s.running = []) : s.Once [] where
  started := by simp
  atMost i := by simp [repliesOf]
  keeps i k hk := absurd hk (by simp [h])

theorem Once.step {s : Auth} {log : List Reply} (h : s.Once log) (m : Move) :
    (s.step m).Once (log ++ s.reply m) := by
  have hstarted : ∀ r ∈ log ++ s.reply m, r.worker < (s.step m).running.length := by
    simpa [replies, run] using started_run h.started [m]
  rcases s.move_cases m with ⟨t, rfl⟩ | ⟨key, rfl⟩ | ⟨e, hreply⟩ |
    ⟨i, out, t, o, next, store, r, rfl, hi, hexec, hreply, e⟩
  · rw [reply, List.append_nil] at hstarted ⊢
    -- nobody has answered in the name of a worker that has just been started
    have hnew : answered log s.running.length = false := by
      rw [answered, Bool.not_eq_false', List.isEmpty_iff, List.eq_nil_iff_forall_not_mem]
      intro r hr
      obtain ⟨hmem, hworker⟩ := mem_repliesOf.mp hr
      exact absurd (h.started r hmem) (by omega)
    refine ⟨hstarted, h.atMost, h.keeps.start ?_⟩
    rw [hnew]
    exact work_answers_once t
  · rw [reply, List.append_nil]
    exact ⟨h.started, h.atMost, h.keeps.of_running_eq rfl⟩
  · rw [e, hreply, List.append_nil]
    exact h
  · rw [e, hreply] at hstarted ⊢
    obtain ⟨hpre, -⟩ := h.keeps i _ hi
    refine ⟨hstarted, fun j ↦ ?_, ?_⟩
    · rw [repliesOf_append]
      by_cases hj : i = j
      · subst hj
        rw [repliesOf_reply_self]
        cases o with
        | send statusCode body =>
          have hnone : repliesOf i log = [] := by simpa [answered] using hpre rfl
          simp [hnone, Call.reply]
        | _ => simpa [Call.reply] using h.atMost i
      · rw [repliesOf_reply_of_ne hj, List.append_nil]
        exact h.atMost j
    · rw [answered_append_reply]
      refine h.keeps.call (r := r) hi ⟨rfl, fun ho ↦ ?_⟩ rfl
      exact Store.exec_noexcept hexec ho

/-- **Every worker answers at most once, and exactly once by the time it is through.** -/
theorem replies_once {s : Auth} (hs : s.running = []) (ms : List Move) (i : ℕ) :
    (repliesOf i (s.replies ms)).length ≤ 1 ∧
      ((s.run ms).Finished i → ∃ r ∈ s.replies ms, r.worker = i) := by
  have hmeets : Meets step (fun _ _ ↦ True) s ms := meets_of_forall (fun _ _ _ ↦ trivial) s
  have honce : (s.run ms).Once ([] ++ s.replies ms) :=
    replies_invariant (I := Once) (fun s log m h _ ↦ h.step m) hmeets (once_of_running_nil hs)
  rw [List.nil_append] at honce
  refine ⟨honce.atMost i, ?_⟩
  rintro ⟨⟨t, rest⟩, hk, hdone⟩
  have hsent : answered (s.replies ms) i = true := by
    have hwp := honce.keeps i _ hk
    cases rest with
    | ret a => exact hwp
    | throw => exact hwp
    | call o next => exact absurd hdone id
  rw [answered, Bool.not_eq_true', List.isEmpty_eq_false_iff_exists_mem] at hsent
  obtain ⟨r, hr⟩ := hsent
  exact ⟨r, mem_repliesOf.mp hr⟩

/-! ## Every worker ends -/

/-- The next call of a worker. -/
def nextCall (s : Auth) (j : ℕ) : Option Call :=
  match s.running[j]? with
  | some ⟨_, .call o _⟩ => some o
  | _ => none

/-- If the move is a call of worker `j` that is among those `P` picks out, then it is possible and
comes out fine. -/
def Healthy (P : Call → Bool) (j : ℕ) (s : Auth) : Move → Prop
  | .call i out =>
    i = j → ∀ o ∈ s.nextCall j, P o = true → out.isFine = true ∧ (s.store.exec o out).isSome = true
  | .start _ => True
  | .expire _ => True

instance (P : Call → Bool) (j : ℕ) (s : Auth) : ∀ m : Move, Decidable (s.Healthy P j m)
  | .call i out => by
    unfold Healthy
    infer_instance
  | .start _ => inferInstanceAs (Decidable True)
  | .expire _ => inferInstanceAs (Decidable True)

theorem Finished.step {s : Auth} {j : ℕ} (h : s.Finished j) (m : Move) : (s.step m).Finished j := by
  obtain ⟨k, hk, hdone⟩ := h
  have hlen := (List.getElem?_eq_some_iff.mp hk).1
  rcases s.move_cases m with ⟨t, rfl⟩ | ⟨key, rfl⟩ | ⟨e, -⟩ |
    ⟨i, out, t, o, next, store, r, rfl, hi, -, -, e⟩
  · refine ⟨k, ?_, hdone⟩
    rw [show (s.step (.start t)).running = s.running ++ [⟨t, t.work⟩] from rfl,
      List.getElem?_append_left hlen, hk]
  · exact ⟨k, hk, hdone⟩
  · rw [e]
    exact ⟨k, hk, hdone⟩
  · -- a worker that is through makes no call
    have hne : i ≠ j := by
      rintro rfl
      obtain rfl := Option.some.inj (hi.symm.trans hk)
      exact hdone
    refine ⟨k, ?_, hdone⟩
    rw [e, List.getElem?_set, if_neg hne, hk]

/-- **A worker is through when it has made as many calls as its program can have.** -/
theorem finished_of_calls {s : Auth} {j n : ℕ} {k : Worker} (hk : s.running[j]? = some k)
    (hn : AtMost n k.rest) {ms : List Move}
    (hms : Meets step (Healthy (fun _ ↦ true) j) s ms) (hcount : n ≤ ms.countP (·.isCallOf j)) :
    (s.run ms).Finished j := by
  induction ms generalizing s n k with
  | nil =>
    obtain rfl : n = 0 := by simpa using hcount
    exact ⟨k, hk, hn⟩
  | cons m ms ih =>
    have hlen := (List.getElem?_eq_some_iff.mp hk).1
    obtain ⟨hm, hms⟩ := hms
    have hrun : s.run (m :: ms) = (s.step m).run ms := rfl
    rw [hrun]
    by_cases hcall : m.isCallOf j = true
    · rw [List.countP_cons_of_pos hcall] at hcount
      obtain ⟨out, rfl⟩ : ∃ out, m = .call j out := by
        cases m with
        | call i out => exact ⟨out, by rw [show i = j by simpa [Move.isCallOf] using hcall]⟩
        | _ => exact absurd hcall (by simp [Move.isCallOf])
      obtain ⟨t, rest⟩ := k
      cases rest with
      | call o next =>
        obtain ⟨n, rfl⟩ : ∃ n', n = n' + 1 := by
          cases n with
          | zero => exact absurd hn id
          | succ n => exact ⟨n, rfl⟩
        obtain ⟨-, hsome⟩ := hm rfl o (by simp [nextCall, hk]) rfl
        obtain ⟨⟨store, r⟩, hexec⟩ := Option.isSome_iff_exists.mp hsome
        have hstep : (s.step (.call j out)).running = s.running.set j ⟨t, next r⟩ := by
          simp [step, hk, hexec]
        refine ih (k := ⟨t, next r⟩) (n := n) ?_ (hn r) hms (Nat.le_of_succ_le_succ hcount)
        rw [hstep, List.getElem?_set_self hlen]
      | ret a =>
        refine ih (k := ⟨t, .ret a⟩) (n := 0) ?_ trivial hms (Nat.zero_le _)
        simp [step, hk]
      | throw =>
        refine ih (k := ⟨t, .throw⟩) (n := 0) ?_ trivial hms (Nat.zero_le _)
        simp [step, hk]
    · rw [List.countP_cons_of_neg hcall] at hcount
      refine ih (k := k) (n := n) ?_ hn hms hcount
      rcases s.move_cases m with ⟨t, rfl⟩ | ⟨key, rfl⟩ | ⟨e, -⟩ |
        ⟨i, out, t, o, next, store, r, rfl, hi, -, -, e⟩
      · rw [show (s.step (.start t)).running = s.running ++ [⟨t, t.work⟩] from rfl,
          List.getElem?_append_left hlen, hk]
      · exact hk
      · rw [e]
        exact hk
      · rw [e, List.getElem?_set, if_neg (by simpa [Move.isCallOf] using hcall), hk]

/-- **A task that is started and served to the end is answered.** -/
theorem exists_reply_of_calls {ms₀ ms₁ : List Move} {t : Task}
    (hms : Meets step (Healthy (fun _ ↦ true) (start.run ms₀).running.length)
      ((start.run ms₀).step (.start t)) ms₁)
    (hcount : 15 ≤ ms₁.countP (·.isCallOf (start.run ms₀).running.length)) :
    ∃ r ∈ ((start.run ms₀).step (.start t)).replies ms₁, r.worker = (start.run ms₀).running.length := by
  have hk : ((start.run ms₀).step (.start t)).running[(start.run ms₀).running.length]? =
      some ⟨t, t.work⟩ := by
    rw [show ((start.run ms₀).step (.start t)).running = (start.run ms₀).running ++ [⟨t, t.work⟩]
      from rfl, List.getElem?_concat_length]
  have hfinished := finished_of_calls hk (work_atMost t) hms hcount
  have hrun : start.run (ms₀ ++ .start t :: ms₁) = ((start.run ms₀).step (.start t)).run ms₁ :=
    start.run_append ms₀ (.start t :: ms₁)
  rw [← hrun] at hfinished
  obtain ⟨r, hr, hworker⟩ := (replies_once rfl _ _).2 hfinished
  rw [replies_append] at hr
  -- it is a new response, since the worker was not there before
  rcases List.mem_append.mp hr with hr | hr
  · have honce := replies_invariant (I := Once) (fun s log m h _ ↦ h.step m)
      (meets_of_forall (fun m (_ : m ∈ ms₀) _ ↦ trivial) start) (once_of_running_nil rfl)
    exact absurd (honce.started r hr) (by omega)
  · exact ⟨r, hr, hworker⟩

end Auth

/-! ## Tasks in which all goes well -/

/-- A registration in which all goes well, as worker `i`. -/
def Move.register (i : ℕ) (username password : Bytes) : List Move :=
  .start (.register 7 true username password) ::
    [Outcome.handle 0, .served, .served, .served, .served].map (.call i)

/-- The calls of a login that misses the cache. -/
def Move.loginMiss (i : ℕ) (token : Bytes) : List Move :=
  [Outcome.handle 1, .served, .served, .handle 0, .served, .handle 1, .served, .served, .served,
    .token token, .handle 1, .served, .served, .served].map (.call i)

/-- The calls of a login that hits it. -/
def Move.loginHit (i : ℕ) (token : Bytes) : List Move :=
  [Outcome.handle 1, .served, .served, .token token, .handle 1, .served, .served, .served].map (.call i)

/-- A user is registered and logs in, which fills the cache. -/
def Move.fillCache (username password : Bytes) : List Move :=
  Move.register 0 username password ++
    .start (.login 7 true username password) :: Move.loginMiss 1 (List.replicate 32 97)

end ReactorServer
