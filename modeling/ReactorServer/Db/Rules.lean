import ReactorServer.Db.Tasks

/-!
# Rules for the parts of a task

The closures of the four routes are put together from the functions of `RedisPool` and from blocks
with a `MysqlGuard` in them.  Whatever one wants to prove about a closure, these parts are gone
through in the same way, so here they are once and for all: for any specification under which a
connection may be leased and given back at any time, and every call leads to a later world
(`Lenient`).

A call can fail in more ways than one.  `Call.Well` says that it did not.  What a part does when one
of its calls fails has to be looked at only if the specification allows that (`Fallible`).
-/

set_option autoImplicit false

namespace ReactorServer

open Program

/-- The calls that lease a connection or give it back. -/
def Call.isLease : Call → Bool
  | .redisGetConn | .redisRelease _ | .redisDiscard _ | .mysqlGetConn | .mysqlRelease _ => true
  | _ => false

/-- The call has come out well: a pool has given out a connection, a command has been answered with
something other than an error, a `SELECT` has a result set, and there was no exception. -/
def Call.Well : (o : Call) → Option o.Res → Prop
  | .redisGetConn, r => ∃ conn, r = some (some conn)
  | .mysqlGetConn, r => ∃ conn, r = some (some conn)
  | .redisCommand .., r => ∃ reply, r = some (some reply) ∧ reply ≠ .error
  | .mysqlQuery _ sql, r =>
    r ≠ none ∧ ∀ u, parseSql sql = some (.selectPassword u) → ∃ rows, r = some (.done (some rows))
  | _, r => r ≠ none

theorem Call.not_well_none (o : Call) : ¬o.Well none := by
  cases o <;> simp [Call.Well]

/-- Some call may fail. -/
def Fallible {W : Type} (S : Spec Call Call.Res W) : Prop :=
  ∃ w o r w', S.post w o r w' ∧ ¬o.Well r

theorem fallible_of_throw {W : Type} {S : Spec Call Call.Res W} {w w' : W} {o : Call}
    (h : S.post w o none w') : Fallible S :=
  ⟨w, o, none, w', h, o.not_well_none⟩

section Rules

variable {W : Type} [Preorder W] {S : Spec Call Call.Res W} {w : W}

/-- Connections may be leased and given back at any time, and the world moves on. -/
structure Lenient (S : Spec Call Call.Res W) : Prop where
  pre : ∀ {w : W} {o : Call}, o.isLease = true → S.pre w o
  le : ∀ {w w' : W} {o : Call} {r : Option o.Res}, S.post w o r w' → w ≤ w'

/-- A program ends in a world no earlier than the one it started in. -/
theorem wp_le (hS : Lenient S) {α : Type} {p : Job α} {Q : W → Option α → Prop} (h : wp S p Q w) :
    wp S p (fun w' r ↦ w ≤ w' ∧ Q w' r) w := by
  induction p generalizing w with
  | ret a => exact ⟨le_rfl, h⟩
  | throw => exact ⟨le_rfl, h⟩
  | call o next ih =>
    refine ⟨h.1, fun w' r hr ↦ wp_imp (ih r (h.2 w' r hr)) fun w'' r' h' ↦ ?_⟩
    exact ⟨(hS.le hr).trans h'.1, h'.2⟩

/-- The rule for a lease. -/
theorem wp_lease (hS : Lenient S) {o : Call} (ho : o.isLease = true) {Q : W → Option o.Res → Prop}
    (hthrow : Fallible S → ∀ w', w ≤ w' → Q w' none)
    (hQ : ∀ w' r, w ≤ w' → (o.Well (some r) ∨ Fallible S) → Q w' (some r)) :
    wp S (perform o) Q w := by
  refine wp_perform (hS.pre ho) fun w' r hr ↦ ?_
  cases r with
  | none => exact hthrow (fallible_of_throw hr) w' (hS.le hr)
  | some r =>
    refine hQ w' r (hS.le hr) ?_
    by_cases hwell : o.Well (some r)
    · exact .inl hwell
    · exact .inr ⟨w, o, some r, w', hr, hwell⟩

/-- **`RedisPool::get`.**  `E` is what a value that is found is known to be. -/
theorem wp_redisGet (hS : Lenient S) {key : Bytes} {Q : W → Option (Bytes × RedisStatus) → Prop}
    {E : W → Bytes → Prop} (hmono : ∀ {w₁ w₂ : W} {v : Bytes}, w₁ ≤ w₂ → E w₁ v → E w₂ v)
    (hpre : ∀ w' conn, w ≤ w' → S.pre w' (.redisCommand conn (.get (cstr key))))
    (hE : ∀ {w₁ w₂ : W} {conn : ℕ} {v : Bytes}, w ≤ w₁ →
      S.post w₁ (.redisCommand conn (.get (cstr key))) (some (some (.string v))) w₂ → E w₂ v)
    (hmiss : ∀ w' st, w ≤ w' → st ≠ .Ok → Q w' (some ([], st)))
    (hok : ∀ w' v, w ≤ w' → E w' v → Q w' (some (v, .Ok)))
    (hthrow : Fallible S → ∀ w', w ≤ w' → Q w' none) : wp S (redisGet key) Q w := by
  refine wp_bind (wp_lease hS rfl (fun hbad w₁ h₁ ↦ hthrow hbad w₁ h₁) fun w₁ conn h₁ _ ↦ ?_)
  cases conn with
  | none => exact hmiss w₁ .Error h₁ (by decide)
  | some conn =>
    refine wp_bind (wp_perform (hpre w₁ conn h₁) fun w₂ r hr ↦ ?_)
    have h₂ := h₁.trans (hS.le hr)
    rcases r with _ | _ | reply
    · exact hthrow (fallible_of_throw hr) w₂ h₂
    · refine wp_bind (wp_lease hS rfl (fun hbad w₃ h₃ ↦ hthrow hbad w₃ (h₂.trans h₃)) ?_)
      exact fun w₃ _ h₃ _ ↦ hmiss w₃ .Error (h₂.trans h₃) (by decide)
    · cases reply with
      | string v =>
        refine wp_bind (wp_lease hS rfl (fun hbad w₃ h₃ ↦ hthrow hbad w₃ (h₂.trans h₃)) ?_)
        exact fun w₃ _ h₃ _ ↦ hok w₃ v (h₂.trans h₃) (hmono h₃ (hE h₁ hr))
      | _ =>
        refine wp_bind (wp_lease hS rfl (fun hbad w₃ h₃ ↦ hthrow hbad w₃ (h₂.trans h₃)) ?_)
        exact fun w₃ _ h₃ _ ↦ hmiss w₃ .NotFound (h₂.trans h₃) (by decide)

/-- **`RedisPool::setex`.**  It can return `false` only if something has failed. -/
theorem wp_redisSetex (hS : Lenient S) {key value : Bytes} {ttl : ℕ} {Q : W → Option Bool → Prop}
    (hpre : ∀ w' conn, w ≤ w' → S.pre w' (.redisCommand conn (.setex (cstr key) ttl (cstr value))))
    (hQ : ∀ w' r, w ≤ w' → (r = some true ∨ Fallible S) → Q w' r) :
    wp S (redisSetex key ttl value) Q w := by
  refine wp_bind (wp_lease hS rfl (fun hbad w₁ h₁ ↦ hQ w₁ _ h₁ (.inr hbad)) fun w₁ conn h₁ hwell ↦ ?_)
  cases conn with
  | none => exact hQ w₁ _ h₁ (.inr (hwell.resolve_left (by simp [Call.Well])))
  | some conn =>
    refine wp_bind (wp_perform (hpre w₁ conn h₁) fun w₂ r hr ↦ ?_)
    have h₂ := h₁.trans (hS.le hr)
    rcases r with _ | _ | reply
    · exact hQ w₂ _ h₂ (.inr (fallible_of_throw hr))
    · have hbad : Fallible S := ⟨_, _, _, _, hr, by simp [Call.Well]⟩
      refine wp_bind (wp_lease hS rfl (fun _ w₃ h₃ ↦ hQ w₃ _ (h₂.trans h₃) (.inr hbad)) ?_)
      exact fun w₃ _ h₃ _ ↦ hQ w₃ _ (h₂.trans h₃) (.inr hbad)
    · refine wp_bind (wp_lease hS rfl (fun hbad w₃ h₃ ↦ hQ w₃ _ (h₂.trans h₃) (.inr hbad)) ?_)
      intro w₃ _ h₃ _
      refine hQ w₃ _ (h₂.trans h₃) ?_
      by_cases herror : reply = .error
      · exact .inr ⟨_, _, _, _, hr, by simp [Call.Well, herror]⟩
      · exact .inl (by simp [herror])

/-- **`RedisPool::del`.**  `E` is what is known once the command has been answered. -/
theorem wp_redisDel (hS : Lenient S) {key : Bytes} {Q : W → Option RedisStatus → Prop}
    {E : W → Prop} (hmono : ∀ {w₁ w₂ : W}, w₁ ≤ w₂ → E w₁ → E w₂)
    (hpre : ∀ w' conn, w ≤ w' → S.pre w' (.redisCommand conn (.del (cstr key))))
    (hE : ∀ {w₁ w₂ : W} {conn : ℕ} {reply : RedisReply}, w ≤ w₁ →
      S.post w₁ (.redisCommand conn (.del (cstr key))) (some (some reply)) w₂ → E w₂)
    (hQ : ∀ w' r, w ≤ w' → (∀ st ∈ r, st ≠ .Error → E w') → Q w' r) :
    wp S (redisDel key) Q w := by
  refine wp_bind (wp_lease hS rfl (fun _ w₁ h₁ ↦ hQ w₁ _ h₁ (by simp)) fun w₁ conn h₁ _ ↦ ?_)
  cases conn with
  | none => exact hQ w₁ _ h₁ (by simp)
  | some conn =>
    refine wp_bind (wp_perform (hpre w₁ conn h₁) fun w₂ r hr ↦ ?_)
    have h₂ := h₁.trans (hS.le hr)
    rcases r with _ | _ | reply
    · exact hQ w₂ _ h₂ (by simp)
    · refine wp_bind (wp_lease hS rfl (fun _ w₃ h₃ ↦ hQ w₃ _ (h₂.trans h₃) (by simp)) ?_)
      exact fun w₃ _ h₃ _ ↦ hQ w₃ _ (h₂.trans h₃) (by simp)
    · have hgone := hE h₁ hr
      rcases reply with _ | _ | (_ | _) | _ | _
      all_goals
        refine wp_bind (wp_lease hS rfl (fun _ w₃ h₃ ↦ hQ w₃ _ (h₂.trans h₃) (by simp)) ?_)
        exact fun w₃ _ h₃ _ ↦ hQ w₃ _ (h₂.trans h₃) fun _ _ _ ↦ hmono h₃ hgone

/-- **A block with a `MysqlGuard` in it.** -/
theorem wp_withGuard (hS : Lenient S) {α : Type} {body : Option ℕ → Job α} {Q : W → Option α → Prop}
    (hthrow : Fallible S → ∀ w', w ≤ w' → Q w' none)
    (hbody : ∀ w' conn, w ≤ w' → (conn ≠ none ∨ Fallible S) →
      wp S (body conn) (fun w₁ r ↦ ∀ w₂, w₁ ≤ w₂ → (Fallible S → Q w₂ none) ∧ Q w₂ r) w') :
    wp S (withGuard body) Q w := by
  refine wp_bind (wp_lease hS rfl (fun hbad w₁ h₁ ↦ hthrow hbad w₁ h₁) fun w₁ conn h₁ hwell ↦ ?_)
  have hconn : conn ≠ none ∨ Fallible S := by
    refine hwell.imp_left ?_
    rintro ⟨n, hn⟩ rfl
    exact absurd (Option.some.inj hn) (by simp)
  refine wp_protect (wp_imp (hbody w₁ conn h₁ hconn) fun w₂ r h ↦ ?_)
  cases conn with
  | none => exact (h w₂ le_rfl).2
  | some conn =>
    exact wp_lease hS rfl (fun hbad w₃ h₃ ↦ (h w₃ h₃).1 hbad) fun w₃ _ h₃ _ ↦ (h w₃ h₃).2

end Rules

/-! ## What only a login does -/

/-- The call does not write to Redis, draws no token, and hands none out. -/
def Call.Plain : Call → Prop
  | .redisCommand _ (.setex ..) => False
  | .generateToken => False
  | .send statusCode body => ∀ token, statusCode = 200 → body ≠ loginJson token
  | _ => True

/-- A text that does not start like the answer to a login is not one. -/
theorem ne_loginJson {body : Bytes} (h : body.take 16 ≠ lit "\x7b\"message\":\"logi") (token : Bytes) :
    body ≠ loginJson token := by
  rintro rfl
  refine h ?_
  rw [loginJson, List.append_assoc, List.take_append_of_le_length (by decide)]
  decide

theorem plain_perform_error {statusCode : ℕ} (hcode : statusCode ≠ 200) (message : String) :
    Calls Call.Plain (sendError statusCode message) :=
  calls_perform fun _ h ↦ absurd h hcode

theorem registerWork_plain (username password : Bytes) :
    Calls Call.Plain (registerWork username password) := by
  refine calls_bind (calls_perform trivial) fun conn ↦ calls_protect ?_ ?_
  · cases conn with
    | none => exact plain_perform_error (by decide) _
    | some conn =>
      refine calls_bind (calls_perform trivial) fun r ↦ ?_
      rcases r with _ | _ | (_ | _)
      case failed => exact plain_perform_error (by decide) _
      case done.some.cons => exact plain_perform_error (by decide) _
      case done.none | done.some.nil =>
        refine calls_bind (calls_perform trivial) fun r ↦ ?_
        cases r with
        | failed => exact plain_perform_error (by decide) _
        | done rows => exact calls_perform fun token _ ↦ ne_loginJson (by decide) token
  · cases conn with
    | none => trivial
    | some conn => exact calls_perform trivial

theorem profileWork_plain (token : Bytes) : Calls Call.Plain (profileWork token) := by
  refine calls_bind (calls_imp (fun o ho ↦ ?_) (redisGet_calls _)) fun r ↦ ?_
  · cases o with
    | redisCommand conn cmd =>
      rw [show cmd = _ from ho]
      trivial
    | _ => trivial
  · show Calls Call.Plain (if r.2 = .Error then _ else if r.2 = .NotFound ∨ r.1 = [] then _ else _)
    by_cases herror : r.2 = .Error
    · rw [if_pos herror]
      exact plain_perform_error (by decide) _
    rw [if_neg herror]
    by_cases hmiss : r.2 = .NotFound ∨ r.1 = []
    · rw [if_pos hmiss]
      exact plain_perform_error (by decide) _
    · rw [if_neg hmiss]
      refine calls_perform fun token' _ ↦ ne_loginJson ?_ token'
      rw [profileJson, List.append_assoc]
      intro h
      have h5 := congrArg (List.take 5) h
      rw [List.take_take, List.take_append_of_le_length (by decide)] at h5
      exact absurd h5 (by decide)

theorem logoutWork_plain (token : Bytes) : Calls Call.Plain (logoutWork token) := by
  refine calls_bind (calls_imp (fun o ho ↦ ?_) (redisDel_calls _)) fun st ↦ ?_
  · cases o with
    | redisCommand conn cmd =>
      rw [show cmd = _ from ho]
      trivial
    | _ => trivial
  · cases st with
    | Ok => exact calls_perform fun token' _ ↦ ne_loginJson (by decide) token'
    | NotFound => exact plain_perform_error (by decide) _
    | Error => exact plain_perform_error (by decide) _

/-- **Only a login writes to Redis, draws tokens and hands them out.** -/
theorem work_plain {t : Task} (h : ∀ fd keepAlive username password,
    t ≠ .login fd keepAlive username password) : Calls Call.Plain t.work := by
  have hrun : ∀ {work : Job PUnit}, Calls Call.Plain work → Calls Call.Plain (runDbTask work) :=
    fun hwork ↦ calls_handle hwork (plain_perform_error (by decide) _)
  cases t with
  | register fd keepAlive username password => exact hrun (registerWork_plain username password)
  | login fd keepAlive username password => exact absurd rfl (h fd keepAlive username password)
  | profile fd keepAlive token => exact hrun (profileWork_plain token)
  | logout fd keepAlive token => exact hrun (logoutWork_plain token)

end ReactorServer
