import ReactorServer.Db.Store

/-!
# A task answers once

Whatever its calls come to, a task calls `sendJson` exactly once: every branch of its closure ends
in an answer, an exception is answered by `runDbTask`, and no exception can come after an answer.
The last is where the `MysqlGuard` matters.  Its destructor runs after the answer, and it does not
throw.

The world of this specification is a flag, whether the task has answered.  `work_answers_once` says
that it is down whenever a task answers, and up when it ends.  And it does end: `work_atMost` bounds
the number of its calls.
-/

set_option autoImplicit false

namespace ReactorServer

open Program

/-- The call is an answer. -/
def Call.isSend : Call → Bool
  | .send .. => true
  | _ => false

/-- The call does not throw: `sendJson`, and the destructor of `MysqlGuard`. -/
def Call.isNoexcept : Call → Bool
  | .send .. => true
  | .mysqlRelease _ => true
  | _ => false

/-- At most one answer. -/
def onceSpec : Spec Call Call.Res Bool where
  pre sent o := o.isSend = true → sent = false
  post sent o r sent' := sent' = (sent || o.isSend) ∧ (o.isNoexcept = true → r ≠ none)

/-- The stores do not throw where the code relies on it. -/
theorem Store.exec_noexcept {s s' : Store} {o : Call} {out : Outcome} {r : Option o.Res}
    (hexec : s.exec o out = some (s', r)) (ho : o.isNoexcept = true) : r ≠ none := by
  cases o with
  | send statusCode body =>
    cases out with
    | served => cases hexec; simp
    | _ => cases hexec
  | mysqlRelease conn =>
    cases out with
    | served => cases hexec; simp
    | _ => cases hexec
  | _ => exact absurd ho (by simp [Call.isNoexcept])

/-! ## The parts of a task -/

section Rules

variable {sent : Bool}

/-- A call that is not an answer leaves the flag alone. -/
theorem once_perform {o : Call} (ho : o.isSend = false) {Q : Bool → Option o.Res → Prop}
    (hQ : ∀ r, Q sent r) : wp onceSpec (perform o) Q sent := by
  refine wp_perform (fun h ↦ absurd (ho.symm.trans h) (by simp)) fun sent' r ⟨hsent, _⟩ ↦ ?_
  rw [hsent, ho, Bool.or_false]
  exact hQ r

theorem once_send {statusCode : ℕ} {body : Bytes} {Q : Bool → Option PUnit → Prop}
    (hQ : Q true (some ⟨⟩)) : wp onceSpec (perform (.send statusCode body)) Q false := by
  refine wp_perform (fun _ ↦ rfl) fun sent' r ⟨hsent, hr⟩ ↦ ?_
  rw [hsent]
  cases r with
  | none => exact absurd rfl (hr rfl)
  | some _ => exact hQ

/-- Nor does anything that talks to Redis only. -/
theorem once_redis {α : Type} {cmd : RedisCommand} {p : Job α} (hp : Calls (RedisCall cmd) p)
    {Q : Bool → Option α → Prop} (hQ : ∀ r, Q sent r) : wp onceSpec p Q sent := by
  have hkeep : ∀ o, RedisCall cmd o → o.isSend = false := by
    intro o ho
    cases o with
    | send statusCode body => exact absurd ho id
    | _ => rfl
  refine wp_imp (wp_of_calls (I := (· = sent)) (fun o ho w hw ↦ ⟨?_, ?_⟩) hp rfl) ?_
  · intro hsend
    exact absurd ((hkeep o ho).symm.trans hsend) (by simp)
  · rintro r w' ⟨hsent, -⟩
    rw [hsent, hkeep o ho, Bool.or_false, hw]
  · rintro w r rfl
    exact hQ r

/-- The destructor of `MysqlGuard` does not get in the way. -/
theorem once_withGuard {α : Type} {body : Option ℕ → Job α} {Q : Bool → Option α → Prop}
    (hthrow : Q sent none) (hbody : ∀ conn, wp onceSpec (body conn) Q sent) :
    wp onceSpec (withGuard body) Q sent := by
  refine wp_bind (once_perform rfl fun r ↦ ?_)
  cases r with
  | none => exact hthrow
  | some conn =>
    refine wp_protect (wp_imp (hbody conn) fun sent' r hr ↦ ?_)
    cases conn with
    | none => exact hr
    | some conn =>
      refine wp_perform (fun h ↦ absurd h (by simp [Call.isSend])) fun sent'' r' ⟨hsent, hr'⟩ ↦ ?_
      rw [hsent, show (Call.mysqlRelease conn).isSend = false from rfl, Bool.or_false]
      cases r' with
      | none => exact absurd rfl (hr' rfl)
      | some _ => exact hr

end Rules

/-! ## The tasks -/

/-- How the closure of a task may end: by a return when it has answered, by an exception when it
has not. -/
def AnsweredIfReturned (sent : Bool) (r : Option PUnit) : Prop := sent = r.isSome

theorem registerWork_once (username password : Bytes) :
    wp onceSpec (registerWork username password) AnsweredIfReturned false := by
  refine once_withGuard rfl fun conn ↦ ?_
  cases conn with
  | none => exact once_send rfl
  | some conn =>
    refine wp_bind (once_perform rfl fun r ↦ ?_)
    rcases r with _ | _ | _ | (_ | _)
    case none => rfl
    case some.failed => exact once_send rfl
    case some.done.some.cons => exact once_send rfl
    case some.done.none | some.done.some.nil =>
      refine wp_bind (once_perform rfl fun r ↦ ?_)
      rcases r with _ | _ | _
      · rfl
      · exact once_send rfl
      · exact once_send rfl

/-- What the lookup of a password has done by its end: it has answered exactly if it says so. -/
theorem mysqlLookup_once (username : Bytes) :
    wp onceSpec (mysqlLookup username) (fun sent r ↦ sent = decide (r = some .answered)) false := by
  refine once_withGuard rfl fun conn ↦ ?_
  cases conn with
  | none => exact wp_bind (once_send rfl)
  | some conn =>
    refine wp_bind (once_perform rfl fun r ↦ ?_)
    rcases r with _ | _ | _ | (_ | ⟨row, rows⟩)
    · rfl
    · exact wp_bind (once_send rfl)
    · rfl
    · rfl
    · refine wp_bind (once_redis (redisSetex_calls ..) fun r ↦ ?_)
      cases r <;> rfl

theorem lookupPassword_once (username : Bytes) :
    wp onceSpec (lookupPassword username) (fun sent r ↦ sent = decide (r = some .answered))
      false := by
  refine wp_bind (once_redis (redisGet_calls _) fun r ↦ ?_)
  rcases r with _ | ⟨cached, st⟩
  · rfl
  · show wp onceSpec (if st = .Ok ∧ cached ≠ [] then pure (.found cached) else mysqlLookup username)
      _ false
    by_cases hit : st = .Ok ∧ cached ≠ []
    · rw [if_pos hit]
      rfl
    · rw [if_neg hit]
      exact mysqlLookup_once username

theorem openSession_once (username : Bytes) :
    wp onceSpec (openSession username) AnsweredIfReturned false := by
  refine wp_bind (once_perform rfl fun r ↦ ?_)
  cases r with
  | none => rfl
  | some token =>
    refine wp_bind (once_redis (redisSetex_calls ..) fun r ↦ ?_)
    rcases r with _ | _ | _
    · rfl
    · exact once_send rfl
    · exact once_send rfl

theorem loginWork_once (username password : Bytes) :
    wp onceSpec (loginWork username password) AnsweredIfReturned false := by
  refine wp_bind (wp_imp (lookupPassword_once username) fun sent r hr ↦ ?_)
  subst hr
  rcases r with _ | _ | _ | dbPassword
  · rfl
  · rfl
  · exact once_send rfl
  · show wp onceSpec (if password ≠ dbPassword then _ else _) _ false
    by_cases hpassword : password = dbPassword
    · rw [if_neg (not_not.mpr hpassword)]
      exact openSession_once username
    · rw [if_pos hpassword]
      exact once_send rfl

theorem profileWork_once (token : Bytes) :
    wp onceSpec (profileWork token) AnsweredIfReturned false := by
  refine wp_bind (once_redis (redisGet_calls _) fun r ↦ ?_)
  rcases r with _ | ⟨username, st⟩
  · rfl
  · show wp onceSpec (if st = .Error then _ else if st = .NotFound ∨ username = [] then _ else _) _
      false
    by_cases herror : st = .Error
    · rw [if_pos herror]
      exact once_send rfl
    rw [if_neg herror]
    by_cases hmiss : st = .NotFound ∨ username = []
    · rw [if_pos hmiss]
      exact once_send rfl
    · rw [if_neg hmiss]
      exact once_send rfl

theorem logoutWork_once (token : Bytes) :
    wp onceSpec (logoutWork token) AnsweredIfReturned false := by
  refine wp_bind (once_redis (redisDel_calls _) fun r ↦ ?_)
  rcases r with _ | _ | _ | _
  · rfl
  · exact once_send rfl
  · exact once_send rfl
  · exact once_send rfl

theorem runDbTask_once {work : Job PUnit} (h : wp onceSpec work AnsweredIfReturned false) :
    wp onceSpec (runDbTask work) (fun sent _ ↦ sent = true) false := by
  refine wp_handle (wp_imp h fun sent r hr ↦ ?_)
  rw [AnsweredIfReturned] at hr
  subst hr
  cases r with
  | none => exact once_send rfl
  | some _ => rfl

/-- **A task answers exactly once**: never twice, and never not at all. -/
theorem work_answers_once (t : Task) : wp onceSpec t.work (fun sent _ ↦ sent = true) false := by
  cases t with
  | register fd keepAlive username password =>
    exact runDbTask_once (registerWork_once username password)
  | login fd keepAlive username password =>
    exact runDbTask_once (loginWork_once username password)
  | profile fd keepAlive token => exact runDbTask_once (profileWork_once token)
  | logout fd keepAlive token => exact runDbTask_once (logoutWork_once token)

/-! ## A task ends -/

theorem redisGet_atMost (key : Bytes) : AtMost 3 (redisGet key) := by
  refine atMost_bind (n := 2) (atMost_perform _) fun conn ↦ ?_
  cases conn with
  | none => trivial
  | some conn =>
    refine atMost_bind (n := 1) (atMost_perform _) fun reply ↦ ?_
    rcases reply with _ | (_ | _ | _ | _ | _)
    all_goals exact atMost_bind (n := 0) (atMost_perform _) fun _ ↦ trivial

theorem redisSetex_atMost (key : Bytes) (ttl : ℕ) (value : Bytes) :
    AtMost 3 (redisSetex key ttl value) := by
  refine atMost_bind (n := 2) (atMost_perform _) fun conn ↦ ?_
  cases conn with
  | none => trivial
  | some conn =>
    refine atMost_bind (n := 1) (atMost_perform _) fun reply ↦ ?_
    cases reply
    all_goals exact atMost_bind (n := 0) (atMost_perform _) fun _ ↦ trivial

theorem redisDel_atMost (key : Bytes) : AtMost 3 (redisDel key) := by
  refine atMost_bind (n := 2) (atMost_perform _) fun conn ↦ ?_
  cases conn with
  | none => trivial
  | some conn =>
    refine atMost_bind (n := 1) (atMost_perform _) fun reply ↦ ?_
    rcases reply with _ | (_ | _ | (_ | _) | _ | _)
    all_goals exact atMost_bind (n := 0) (atMost_perform _) fun _ ↦ trivial

theorem withGuard_atMost {α : Type} {body : Option ℕ → Job α} {n : ℕ}
    (h : ∀ conn, AtMost n (body conn)) : AtMost (1 + (n + 1)) (withGuard body) := by
  refine atMost_bind (atMost_perform _) fun conn ↦ atMost_protect (h conn) ?_
  cases conn with
  | none => trivial
  | some conn => exact atMost_perform _

theorem registerWork_atMost (username password : Bytes) :
    AtMost 5 (registerWork username password) := by
  refine withGuard_atMost (n := 3) fun conn ↦ ?_
  have hsend : ∀ o : Call, AtMost 2 (perform o) := fun o ↦ atMost_mono (by omega) (atMost_perform o)
  cases conn with
  | none => exact atMost_mono (by omega) (atMost_perform _)
  | some conn =>
    refine atMost_bind (n := 2) (atMost_perform _) fun r ↦ ?_
    rcases r with _ | _ | (_ | _)
    case failed => exact hsend _
    case done.some.cons => exact hsend _
    case done.none | done.some.nil =>
      refine atMost_bind (n := 1) (atMost_perform _) fun r ↦ ?_
      cases r with
      | failed => exact atMost_perform _
      | done rows => exact atMost_perform _

theorem mysqlLookup_atMost (username : Bytes) : AtMost 6 (mysqlLookup username) := by
  refine withGuard_atMost (n := 4) fun conn ↦ ?_
  cases conn with
  | none => exact atMost_bind (n := 3) (atMost_perform _) fun _ ↦ trivial
  | some conn =>
    refine atMost_bind (n := 3) (atMost_perform _) fun r ↦ ?_
    rcases r with _ | _ | (_ | ⟨row, rows⟩)
    · exact atMost_bind (n := 2) (atMost_perform _) fun _ ↦ trivial
    · trivial
    · trivial
    · exact atMost_bind (n := 0) (redisSetex_atMost _ _ _) fun _ ↦ trivial

theorem lookupPassword_atMost (username : Bytes) : AtMost 9 (lookupPassword username) := by
  refine atMost_bind (n := 6) (redisGet_atMost _) fun r ↦ ?_
  show AtMost 6 (if r.2 = .Ok ∧ r.1 ≠ [] then pure (.found r.1) else mysqlLookup username)
  by_cases hit : r.2 = .Ok ∧ r.1 ≠ []
  · rw [if_pos hit]
    trivial
  · rw [if_neg hit]
    exact mysqlLookup_atMost username

theorem openSession_atMost (username : Bytes) : AtMost 5 (openSession username) := by
  refine atMost_bind (n := 4) (atMost_perform _) fun token ↦ ?_
  refine atMost_bind (n := 1) (redisSetex_atMost _ _ _) fun ok ↦ ?_
  cases ok with
  | false => exact atMost_perform _
  | true => exact atMost_perform _

theorem loginWork_atMost (username password : Bytes) : AtMost 14 (loginWork username password) := by
  refine atMost_bind (n := 5) (lookupPassword_atMost username) fun l ↦ ?_
  have hsend : ∀ o : Call, AtMost 5 (perform o) := fun o ↦ atMost_mono (by omega) (atMost_perform o)
  cases l with
  | answered => trivial
  | notFound => exact hsend _
  | found dbPassword =>
    show AtMost 5 (if password ≠ dbPassword then _ else _)
    by_cases hpassword : password = dbPassword
    · rw [if_neg (not_not.mpr hpassword)]
      exact openSession_atMost username
    · rw [if_pos hpassword]
      exact hsend _

theorem profileWork_atMost (token : Bytes) : AtMost 4 (profileWork token) := by
  refine atMost_bind (n := 1) (redisGet_atMost _) fun r ↦ ?_
  show AtMost 1 (if r.2 = .Error then _ else if r.2 = .NotFound ∨ r.1 = [] then _ else _)
  by_cases herror : r.2 = .Error
  · rw [if_pos herror]
    exact atMost_perform _
  rw [if_neg herror]
  by_cases hmiss : r.2 = .NotFound ∨ r.1 = []
  · rw [if_pos hmiss]
    exact atMost_perform _
  · rw [if_neg hmiss]
    exact atMost_perform _

theorem logoutWork_atMost (token : Bytes) : AtMost 4 (logoutWork token) := by
  refine atMost_bind (n := 1) (redisDel_atMost _) fun st ↦ ?_
  cases st with
  | Ok => exact atMost_perform _
  | NotFound => exact atMost_perform _
  | Error => exact atMost_perform _

/-- **A task ends after at most fifteen calls.** -/
theorem work_atMost (t : Task) : AtMost 15 t.work := by
  have hrun : ∀ {work : Job PUnit} (n : ℕ), n ≤ 14 → AtMost n work → AtMost 15 (runDbTask work) := by
    intro work n hn h
    exact atMost_handle (m := 14) (n := 1) (atMost_mono hn h) (atMost_perform _)
  cases t with
  | register fd keepAlive username password => exact hrun 5 (by omega) (registerWork_atMost _ _)
  | login fd keepAlive username password => exact hrun 14 (by omega) (loginWork_atMost _ _)
  | profile fd keepAlive token => exact hrun 4 (by omega) (profileWork_atMost token)
  | logout fd keepAlive token => exact hrun 4 (by omega) (logoutWork_atMost token)

end ReactorServer
