import ReactorServer.Db.Pool
import Mathlib.Order.Lattice

/-!
# Logging out is final

A token is handed out by the login that drew it, and only that login ever stores a session under it,
before it hands it out.  So once a token is out (`Hold.handed`) nobody can store a session under it
any more, and a session that is gone stays gone.  What is left to see is that `/logout` says so only
when the session is gone, and that `/profile` does not answer 200 without one.

The second is true.  The first is not: `RedisPool::del` takes an error reply for "no such key", and
`/logout` then answers 401 although the session is still there (`session_survives_logout`).  It is
true of a `DEL` that Redis executes (`logout_final`).
-/

set_option autoImplicit false

namespace ReactorServer

open Program Machine

/-! ## Who may store a session -/

/-- What a worker has to do with a token: nothing yet, it has drawn it, it has handed it out. -/
inductive Hold where
  | before
  | holding
  | handed
  deriving DecidableEq, Repr

/-- The call hands out the token. -/
def Call.handsOut (token : Bytes) (o : Call) : Prop := o = .send 200 (loginJson token)

instance (token : Bytes) (o : Call) : Decidable (o.handsOut token) :=
  inferInstanceAs (Decidable (o = .send 200 (loginJson token)))

/-- The call is a `DEL`. -/
def Call.isDel : Call → Bool
  | .redisCommand _ (.del _) => true
  | _ => false

/-- The call stores a session under the token. -/
def Call.stores (token : Bytes) : Call → Prop
  | .redisCommand _ (.setex key _ _) => key = lit "session:" ++ token
  | _ => False

/-- Only a worker that holds the token stores a session under it and hands it out. -/
def holdSpec (token : Bytes) : Spec Call Call.Res Hold where
  pre h o := o.stores token ∨ o.handsOut token → h = .holding
  post h o r h' :=
    match o, r with
    | .generateToken, some drawn =>
      0 ∉ drawn ∧ (drawn = token ∧ h' = .holding ∨ drawn ≠ token ∧ h' = h)
    | o, _ => h' = if o.handsOut token then .handed else h

/-- The call has nothing to do with the token. -/
def Call.LeavesAlone (token : Bytes) (o : Call) : Prop :=
  o ≠ .generateToken ∧ ¬o.stores token ∧ ¬o.handsOut token

theorem Call.Plain.leavesAlone {o : Call} (h : o.Plain) (token : Bytes) : o.LeavesAlone token := by
  refine ⟨?_, ?_, ?_⟩
  · rintro rfl
    exact h
  · cases o with
    | redisCommand conn cmd =>
      cases cmd with
      | setex key ttl value => exact absurd h id
      | _ => exact id
    | _ => exact id
  · rintro rfl
    exact h token rfl rfl

/-- Such calls change nothing. -/
theorem hold_of_leavesAlone {token : Bytes} {α : Type} {p : Job α} (hp : Calls (·.LeavesAlone token) p)
    {h : Hold} {Q : Hold → Option α → Prop} (hQ : ∀ r, Q h r) : wp (holdSpec token) p Q h := by
  refine wp_imp (wp_of_calls (I := (· = h)) (fun o ho h' hh' ↦ ⟨?_, ?_⟩) hp rfl) ?_
  · rintro (hstores | hhands)
    · exact absurd hstores ho.2.1
    · exact absurd hhands ho.2.2
  · intro r h'' hpost
    obtain ⟨htoken, -, hhands⟩ := ho
    have hsame : h'' = h' := by
      cases o with
      | generateToken => exact absurd rfl htoken
      | _ => exact hpost.trans (if_neg hhands)
    exact hsame.trans hh'
  · rintro _ r rfl
    exact hQ r

theorem redis_leavesAlone {token : Bytes} {cmd : RedisCommand} {α : Type} {p : Job α}
    (hp : Calls (RedisCall cmd) p) (hcmd : ∀ conn, ¬(Call.redisCommand conn cmd).stores token) :
    Calls (·.LeavesAlone token) p := by
  refine calls_imp (fun o ho ↦ ?_) hp
  cases o with
  | redisCommand conn cmd' =>
    obtain rfl : cmd' = cmd := ho
    exact ⟨by simp, hcmd conn, by simp [Call.handsOut]⟩
  | redisGetConn => exact ⟨by simp, id, by simp [Call.handsOut]⟩
  | redisRelease conn => exact ⟨by simp, id, by simp [Call.handsOut]⟩
  | redisDiscard conn => exact ⟨by simp, id, by simp [Call.handsOut]⟩
  | _ => exact absurd ho id

theorem cstr_user_not_session (username token : Bytes) (conn ttl : ℕ) (value : Bytes) :
    ¬(Call.redisCommand conn (.setex (cstr (lit "user:" ++ username)) ttl value)).stores token := by
  intro h
  change cstr (lit "user:" ++ username) = lit "session:" ++ token at h
  rw [cstr_append (by decide)] at h
  exact absurd h (lit_user_ne_session _ _)

theorem lookupPassword_leavesAlone (username token : Bytes) :
    Calls (·.LeavesAlone token) (lookupPassword username) := by
  have hsend : ∀ {statusCode : ℕ} (message : String), statusCode ≠ 200 →
      Calls (·.LeavesAlone token) (sendError statusCode message) := by
    intro statusCode message hcode
    exact calls_perform ⟨by simp, id, by simp [Call.handsOut, hcode]⟩
  refine calls_bind (redis_leavesAlone (redisGet_calls _) fun _ ↦ id) fun r ↦ ?_
  show Calls _ (if r.2 = .Ok ∧ r.1 ≠ [] then pure (.found r.1) else mysqlLookup username)
  by_cases hit : r.2 = .Ok ∧ r.1 ≠ []
  · rw [if_pos hit]
    trivial
  rw [if_neg hit]
  refine calls_bind (calls_perform ⟨by simp, id, by simp [Call.handsOut]⟩) fun conn ↦
    calls_protect ?_ ?_
  · cases conn with
    | none => exact calls_bind (hsend _ (by decide)) fun _ ↦ trivial
    | some conn =>
      refine calls_bind (calls_perform ⟨by simp, id, by simp [Call.handsOut]⟩) fun r ↦ ?_
      rcases r with _ | _ | (_ | ⟨row, rows⟩)
      · exact calls_bind (hsend _ (by decide)) fun _ ↦ trivial
      · trivial
      · trivial
      · refine calls_bind (redis_leavesAlone (redisSetex_calls _ _ _) fun conn' ↦ ?_) fun _ ↦ trivial
        exact cstr_user_not_session username token conn' _ _
  · cases conn with
    | none => trivial
    | some conn => exact calls_perform ⟨by simp, id, by simp [Call.handsOut]⟩

theorem loginWork_hold (username password token : Bytes) :
    wp (holdSpec token) (runDbTask (loginWork username password)) (fun _ _ ↦ True) .before := by
  have hsend : ∀ {h : Hold} {statusCode : ℕ} (message : String), statusCode ≠ 200 →
      wp (holdSpec token) (sendError statusCode message) (fun _ _ ↦ True) h := by
    intro h statusCode message hcode
    refine hold_of_leavesAlone (calls_perform ⟨by simp, id, ?_⟩) fun _ ↦ trivial
    simp [Call.handsOut, hcode]
  refine wp_handle (wp_imp (Q := fun _ _ ↦ True) ?_ fun h r _ ↦ ?_)
  · refine wp_bind (hold_of_leavesAlone (lookupPassword_leavesAlone username token) fun l ↦ ?_)
    rcases l with _ | _ | _ | dbPassword
    · trivial
    · trivial
    · exact hsend _ (by decide)
    show wp _ (if password ≠ dbPassword then _ else _) _ _
    by_cases hpassword : password = dbPassword
    · rw [if_neg (by simp [hpassword])]
      refine wp_bind (wp_perform (by simp [holdSpec, Call.stores, Call.handsOut]) fun h r hr ↦ ?_)
      cases r with
      | none => trivial
      | some drawn =>
        obtain ⟨hnul, hr⟩ := hr
        have hkey : cstr (lit "session:" ++ drawn) = lit "session:" ++ drawn :=
          cstr_key (by decide) hnul
        rcases hr with ⟨rfl, rfl⟩ | ⟨hne, rfl⟩
        · -- the token: it is stored while it is held, and handed out after that
          refine wp_bind (wp_imp (wp_of_calls (I := (· = .holding)) (fun o ho h hh ↦ ⟨?_, ?_⟩)
            (redisSetex_calls _ _ _) rfl) fun h r hh ↦ ?_)
          · exact fun _ ↦ hh
          · intro r h' hpost
            have hsame : h' = h := by
              cases o with
              | generateToken => exact absurd ho id
              | send statusCode body => exact absurd ho id
              | _ => exact hpost
            exact hsame.trans hh
          · subst hh
            rcases r with _ | _ | _
            · trivial
            · exact hsend _ (by decide)
            · exact wp_perform (fun _ ↦ rfl) fun _ _ _ ↦ trivial
        · -- another token
          refine wp_bind (hold_of_leavesAlone (redis_leavesAlone (redisSetex_calls _ _ _) fun conn ↦ ?_)
            fun r ↦ ?_)
          · rw [hkey]
            intro h
            exact hne (List.append_cancel_left h)
          · rcases r with _ | _ | _
            · trivial
            · exact hsend _ (by decide)
            · refine hold_of_leavesAlone (calls_perform ⟨by simp, id, ?_⟩) fun _ ↦ trivial
              intro h
              have hbody : loginJson drawn = loginJson token := (Call.send.inj h).2
              exact hne (List.append_cancel_left (List.append_cancel_right hbody))
    · rw [if_pos hpassword]
      exact hsend _ (by decide)
  · cases r with
    | none => exact hsend _ (by decide)
    | some _ => trivial

/-- **A task has nothing to do with the token when it is started, and keeps to the rule.** -/
theorem work_hold (t : Task) (token : Bytes) :
    wp (holdSpec token) t.work (fun _ _ ↦ True) .before := by
  cases t with
  | login fd keepAlive username password => exact loginWork_hold username password token
  | _ =>
    exact hold_of_leavesAlone (calls_imp (fun _ ho ↦ ho.leavesAlone token) (work_plain (by simp)))
      fun _ ↦ trivial

/-! ## Once a token is out -/

namespace Auth

/-- Who has what to do with the token: at most one worker anything at all, which drew it; and one
that has handed it out is the one the responses say. -/
structure HeldBy (token : Bytes) (hold : ℕ → Hold) (s : Auth) (log : List Reply) : Prop where
  keeps : s.Keeps (fun _ _ ↦ holdSpec token) (fun _ _ _ ↦ True) hold
  unique : ∀ i j, hold i ≠ .before → hold j ≠ .before → i = j
  drawn : ∀ i, hold i ≠ .before → token ∈ s.store.drawn ∧ 0 ∉ token
  handed : ∀ r ∈ log, r.statusCode = 200 → r.body = loginJson token → hold r.worker = .handed
  fresh : ∀ i, s.running.length ≤ i → hold i = .before

variable {token : Bytes} {s : Auth} {log : List Reply} {hold : ℕ → Hold}

theorem heldBy_start : start.HeldBy token (fun _ ↦ .before) [] where
  keeps i k hk := absurd hk (by simp [start])
  unique i j hi := absurd rfl hi
  drawn i hi := absurd rfl hi
  handed r hr := absurd hr (by simp)
  fresh _ _ := rfl

/-- What a worker has to do with the token after a call. -/
def holdAfter (token : Bytes) (h : Hold) : (o : Call) → Option o.Res → Hold
  | .generateToken, some drawn => if drawn = token then .holding else h
  | o, _ => if o.handsOut token then .handed else h

theorem holdAfter_of_ne (h : Hold) {o : Call} (ho : o ≠ .generateToken) (r : Option o.Res) :
    holdAfter token h o r = if o.handsOut token then .handed else h := by
  cases o with
  | generateToken => exact absurd rfl ho
  | _ => rfl

theorem holdSpec_post {h : Hold} {o : Call} {out : Outcome} {store : Store} {r : Option o.Res}
    (hexec : s.store.exec o out = some (store, r)) :
    (holdSpec token).post h o r (holdAfter token h o r) := by
  cases o with
  | generateToken =>
    cases r with
    | none => rfl
    | some drawn =>
      obtain ⟨-, hnul, -⟩ := Store.exec_token hexec
      refine ⟨hnul, ?_⟩
      by_cases he : drawn = token
      · exact .inl ⟨he, if_pos he⟩
      · exact .inr ⟨he, if_neg he⟩
  | _ => rfl

section Call

variable {i : ℕ} {out : Outcome} {t : Task} {o : Call} {next : Option o.Res → Job PUnit}
  {store : Store} {r : Option o.Res}

/-- A worker starts to hold the token only by drawing it, and then nobody has had it before. -/
theorem HeldBy.draws (h : s.HeldBy token hold log) (hi : s.running[i]? = some ⟨t, .call o next⟩)
    (hexec : s.store.exec o out = some (store, r)) (hbefore : hold i = .before)
    (hafter : holdAfter token (hold i) o r ≠ .before) :
    token ∉ s.store.drawn ∧ token ∈ store.drawn ∧ 0 ∉ token := by
  obtain ⟨hpre, -⟩ := h.keeps i _ hi
  cases o with
  | generateToken =>
    cases r with
    | none => exact absurd hbefore hafter
    | some drawn =>
      by_cases he : drawn = token
      · obtain ⟨hnew, hnul, hdrawn⟩ := Store.exec_token hexec
        rw [he] at hnew hnul hdrawn
        exact ⟨hnew, by rw [hdrawn]; exact List.mem_cons_self, hnul⟩
      · rw [holdAfter, if_neg he] at hafter
        exact absurd hbefore hafter
  | _ =>
    rw [holdAfter_of_ne _ (by simp)] at hafter
    split at hafter
    · next hhands => exact absurd (hpre (.inr hhands)) (by rw [hbefore]; decide)
    · exact absurd hbefore hafter

/-- A worker that has handed the token out does not draw it again. -/
theorem HeldBy.stays_handed (h : s.HeldBy token hold log)
    (hexec : s.store.exec o out = some (store, r)) (hhanded : hold i = .handed) :
    holdAfter token (hold i) o r = .handed := by
  cases o with
  | generateToken =>
    cases r with
    | none => exact hhanded
    | some drawn =>
      have hne : drawn ≠ token := by
        rintro rfl
        exact (Store.exec_token hexec).1 (h.drawn i (by rw [hhanded]; decide)).1
      rw [holdAfter, if_neg hne, hhanded]
  | _ => rw [holdAfter_of_ne _ (by simp), hhanded, ite_self]

theorem HeldBy.call (h : s.HeldBy token hold log) (hi : s.running[i]? = some ⟨t, .call o next⟩)
    (hexec : s.store.exec o out = some (store, r)) :
    HeldBy token (Function.update hold i (holdAfter token (hold i) o r))
      { store := store, running := s.running.set i ⟨t, next r⟩,
        issued := s.issued ++ t.issues o r, answers := s.answers ++ t.answers o }
      (log ++ o.reply i) := by
  have hlen := (List.getElem?_eq_some_iff.mp hi).1
  have hother : ∀ j, j ≠ i → hold j ≠ .before → holdAfter token (hold i) o r = .before := by
    intro j hj hjhold
    by_contra hafter
    by_cases hbefore : hold i = .before
    · exact (h.draws hi hexec hbefore hafter).1 (h.drawn j hjhold).1
    · exact hj (h.unique j i hjhold hbefore)
  refine ⟨h.keeps.call hi (holdSpec_post hexec) rfl, fun j₁ j₂ h₁ h₂ ↦ ?_, fun j hj ↦ ?_,
    fun r' hr' hcode hbody ↦ ?_, fun j hj ↦ ?_⟩
  · by_cases hj₁ : j₁ = i
    · subst hj₁
      by_cases hj₂ : j₂ = j₁
      · exact hj₂.symm
      · rw [Function.update_of_ne hj₂] at h₂
        rw [Function.update_self] at h₁
        exact absurd (hother j₂ hj₂ h₂) h₁
    · rw [Function.update_of_ne hj₁] at h₁
      by_cases hj₂ : j₂ = i
      · subst hj₂
        rw [Function.update_self] at h₂
        exact absurd (hother j₁ hj₁ h₁) h₂
      · rw [Function.update_of_ne hj₂] at h₂
        exact h.unique j₁ j₂ h₁ h₂
  · by_cases hji : j = i
    · subst hji
      rw [Function.update_self] at hj
      by_cases hbefore : hold j = .before
      · exact (h.draws hi hexec hbefore hj).2
      · exact (h.drawn j hbefore).imp_left (Store.exec_drawn hexec)
    · rw [Function.update_of_ne hji] at hj
      exact (h.drawn j hj).imp_left (Store.exec_drawn hexec)
  · rcases List.mem_append.mp hr' with hr' | hr'
    · have hhanded := h.handed r' hr' hcode hbody
      by_cases hworker : r'.worker = i
      · rw [hworker] at hhanded ⊢
        rw [Function.update_self, h.stays_handed hexec hhanded]
      · rw [Function.update_of_ne hworker]
        exact hhanded
    · cases o with
      | send statusCode body =>
        obtain rfl := List.mem_singleton.mp hr'
        rw [Function.update_self, holdAfter_of_ne _ (by simp), if_pos]
        rw [Call.handsOut, show statusCode = 200 from hcode, show body = loginJson token from hbody]
      | _ => exact absurd hr' (by simp [Call.reply])
  · rw [List.length_set] at hj
    rw [Function.update_of_ne (by omega)]
    exact h.fresh j hj

end Call

theorem HeldBy.step (h : s.HeldBy token hold log) (m : Move) :
    ∃ hold', (s.step m).HeldBy token hold' (log ++ s.reply m) := by
  rcases s.move_cases m with ⟨t, rfl⟩ | ⟨key, rfl⟩ | ⟨e, hreply⟩ |
    ⟨i, out, t, o, next, store, r, rfl, hi, hexec, hreply, e⟩
  · rw [reply, List.append_nil]
    refine ⟨hold, h.keeps.start ?_, h.unique, h.drawn, h.handed, fun i hi ↦ h.fresh i ?_⟩
    · rw [h.fresh _ le_rfl]
      exact work_hold t token
    · exact (s.running_length_le (.start t)).trans hi
  · rw [reply, List.append_nil]
    exact ⟨hold, h.keeps.of_running_eq rfl, h.unique, h.drawn, h.handed, h.fresh⟩
  · rw [e, hreply, List.append_nil]
    exact ⟨hold, h⟩
  · rw [e, hreply]
    exact ⟨_, h.call hi hexec⟩

/-- The token is out, and this is a response that hands it out. -/
def Out (token : Bytes) (s : Auth) (log : List Reply) : Prop :=
  (∃ hold, s.HeldBy token hold log) ∧ ∃ r ∈ log, r.statusCode = 200 ∧ r.body = loginJson token

theorem Out.step (h : s.Out token log) (m : Move) : (s.step m).Out token (log ++ s.reply m) := by
  obtain ⟨⟨hold, hheld⟩, r, hr, hhands⟩ := h
  exact ⟨hheld.step m, r, List.mem_append_left _ hr, hhands⟩

/-- A token that is out is one that was drawn. -/
theorem Out.not_mem_nul (h : s.Out token log) : 0 ∉ token := by
  obtain ⟨⟨hold, hheld⟩, r, hr, hcode, hbody⟩ := h
  exact (hheld.drawn r.worker (by rw [hheld.handed r hr hcode hbody]; decide)).2

/-- **Once a token is out, nobody stores a session under it.** -/
theorem Out.not_stores (h : s.Out token log) {i : ℕ} {t : Task} {o : Call}
    {next : Option o.Res → Job PUnit} (hi : s.running[i]? = some ⟨t, .call o next⟩) :
    ¬o.stores token := by
  obtain ⟨⟨hold, hheld⟩, r, hr, hcode, hbody⟩ := h
  intro hstores
  have hholding : hold i = .holding := (hheld.keeps i _ hi).1 (.inl hstores)
  have hhanded := hheld.handed r hr hcode hbody
  have hsame := hheld.unique i r.worker (by rw [hholding]; decide) (by rw [hhanded]; decide)
  rw [hsame, hhanded] at hholding
  exact absurd hholding (by decide)

/-- There is no session under the token. -/
def gone (token : Bytes) (s : Auth) : Bool := (s.store.redis (lit "session:" ++ token)).isNone

/-- **A session that is gone stays gone**, once the token is out. -/
theorem Out.gone_step (h : s.Out token log) (m : Move) : s.gone token ≤ (s.step m).gone token := by
  suffices hnone : s.store.redis (lit "session:" ++ token) = none →
      (s.step m).store.redis (lit "session:" ++ token) = none by
    rw [Bool.le_iff_imp, gone, gone, Option.isNone_iff_eq_none, Option.isNone_iff_eq_none]
    exact hnone
  intro hnone
  have hupdate : ∀ key, Function.update s.store.redis key none (lit "session:" ++ token) = none := by
    intro key
    by_cases hkey : lit "session:" ++ token = key
    · rw [hkey, Function.update_self]
    · rw [Function.update_of_ne hkey, hnone]
  rcases s.move_cases m with ⟨t, rfl⟩ | ⟨key, rfl⟩ | ⟨e, -⟩ |
    ⟨i, out, t, o, next, store, r, rfl, hi, hexec, -, e⟩
  · exact hnone
  · exact hupdate key
  · rw [e, hnone]
  · rw [e]
    show store.redis (lit "session:" ++ token) = none
    rcases Store.exec_store hexec with rfl | ⟨conn, cmd, rfl, rfl⟩ | ⟨conn, sql, -, rfl⟩ |
      ⟨drawn, -, -, rfl⟩
    · exact hnone
    · cases cmd with
      | get key => exact hnone
      | setex key ttl value =>
        have hkey : lit "session:" ++ token ≠ key := fun hkey ↦ h.not_stores hi hkey.symm
        exact (Function.update_of_ne hkey ..).trans hnone
      | del key => exact hupdate key
    · rcases s.store.mysqlQuery_cases sql with e | ⟨u, p, -, -, e⟩
      · rw [e, hnone]
      · rw [e]
        exact hnone
    · exact hnone

end Auth

/-! ## What the two tasks make of it -/

/-- What is asked of a worker: which responses it may give, with and without a session under the
token, and whether its `DEL`s are executed when they are answered. -/
structure Bar where
  allows : Bool → ℕ → Prop
  deletes : Prop
  mono : ∀ {statusCode : ℕ}, allows false statusCode → allows true statusCode

/-- What the answer to a call says about the session: a `DEL` of it has removed it, and a `GET` that
finds it tells that it was there. -/
def SaysOf (deletes : Prop) (token : Bytes) (gone gone' : Bool) : (o : Call) → Option o.Res → Prop
  | .redisCommand _ (.del key), some (some _) =>
    deletes → key = lit "session:" ++ token → gone' = true
  | .redisCommand _ (.get key), some (some (.string _)) =>
    key = lit "session:" ++ token → gone = false
  | _, _ => True

namespace Bar

/-- The specification of a worker, in the world of whether the session is gone. -/
def spec (b : Bar) (token : Bytes) : Spec Call Call.Res Bool where
  pre gone o :=
    match o with
    | .send statusCode _ => b.allows gone statusCode
    | _ => True
  post gone o r gone' := gone ≤ gone' ∧ SaysOf b.deletes token gone gone' o r

variable {b : Bar} {token : Bytes}

theorem spec_stable (b : Bar) (token : Bytes) : (b.spec token).Stable where
  pre {gone gone' o} hle hpre := by
    cases o with
    | send statusCode body =>
      cases gone with
      | true => rwa [show gone' = true from Bool.le_iff_imp.mp hle rfl]
      | false =>
        cases gone' with
        | false => exact hpre
        | true => exact b.mono hpre
    | _ => trivial
  post {gone gone' gone'' o r} hle hpost := by
    refine ⟨hle.trans hpost.1, ?_⟩
    have htells := hpost.2
    -- a session that is still there was there before
    have hback : gone' = false → gone = false := by
      rintro rfl
      cases gone with
      | false => rfl
      | true => exact absurd hle (by decide)
    cases o with
    | redisCommand conn cmd =>
      cases cmd with
      | get key =>
        rcases r with _ | _ | reply
        · trivial
        · trivial
        · cases reply with
          | string value => exact fun hkey ↦ hback (htells hkey)
          | _ => trivial
      | setex key ttl value => trivial
      | del key =>
        rcases r with _ | _ | reply
        · trivial
        · trivial
        · exact htells
    | _ => trivial

theorem spec_lenient (b : Bar) (token : Bytes) : Lenient (b.spec token) where
  pre {w o} ho := by cases o <;> trivial
  le h := h.1

theorem wp_send {gone : Bool} {statusCode : ℕ} {body : Bytes} (h : b.allows gone statusCode) :
    wp (b.spec token) (perform (.send statusCode body)) (fun _ _ ↦ True) gone :=
  wp_perform h fun _ _ _ ↦ trivial

/-- A worker of which nothing is asked. -/
def free : Bar := ⟨fun _ _ ↦ True, False, id⟩

theorem wp_free (t : Task) (gone : Bool) : wp (free.spec token) t.work (fun _ _ ↦ True) gone := by
  refine wp_of_pre (fun gone o ↦ ?_) _ gone
  cases o <;> trivial

/-- `/logout` must not say that there is no session, or no session any more, unless that is so. -/
def logout : Bar where
  allows gone statusCode := statusCode = 200 ∨ statusCode = 401 → gone = true
  deletes := True
  mono _ _ := rfl

/-- `/profile` must not answer 200. -/
def profile : Bar := ⟨fun _ statusCode ↦ statusCode ≠ 200, False, id⟩

end Bar

/-- **`/logout` tells the truth, if its `DEL` is executed when it is answered.** -/
theorem logout_truthful {token : Bytes} (hnul : 0 ∉ token) (fd : ℕ) (keepAlive gone : Bool) :
    wp (Bar.logout.spec token) (Task.logout fd keepAlive token).work (fun _ _ ↦ True) gone := by
  have hkey : cstr (lit "session:" ++ token) = lit "session:" ++ token := cstr_key (by decide) hnul
  have hcatch : ∀ gone, wp (Bar.logout.spec token) (sendError 500 "internal error")
      (fun _ _ ↦ True) gone := fun gone ↦ Bar.wp_send (by simp [Bar.logout])
  refine wp_handle (wp_imp (Q := fun _ _ ↦ True) ?_ fun gone r _ ↦ ?_)
  · refine wp_bind (wp_redisDel (Bar.spec_lenient _ _) (E := (· = true))
      (fun hle h ↦ Bool.le_iff_imp.mp hle h) (fun _ _ _ ↦ trivial) (fun _ h ↦ h.2 trivial hkey) ?_)
    intro gone' st hle hst
    rcases st with _ | _ | _ | _
    · trivial
    · exact Bar.wp_send fun _ ↦ hst _ rfl (by decide)
    · exact Bar.wp_send fun _ ↦ hst _ rfl (by decide)
    · exact Bar.wp_send (by simp [Bar.logout])
  · cases r with
    | none => exact hcatch gone
    | some _ => trivial

/-- **Without a session `/profile` does not answer 200.** -/
theorem profile_refused {token : Bytes} (hnul : 0 ∉ token) (fd : ℕ) (keepAlive : Bool) :
    wp (Bar.profile.spec token) (Task.profile fd keepAlive token).work (fun _ _ ↦ True) true := by
  have hkey : cstr (lit "session:" ++ token) = lit "session:" ++ token := cstr_key (by decide) hnul
  have hsend : ∀ {gone : Bool} {statusCode : ℕ} (message : String), statusCode ≠ 200 →
      wp (Bar.profile.spec token) (sendError statusCode message) (fun _ _ ↦ True) gone :=
    fun _ hcode ↦ Bar.wp_send hcode
  refine wp_handle (wp_imp (Q := fun _ _ ↦ True) ?_ fun gone r _ ↦ ?_)
  · refine wp_bind (wp_redisGet (Bar.spec_lenient _ _) (E := fun _ _ ↦ False) (fun _ h ↦ h)
      (fun _ _ _ ↦ trivial) (fun hle h ↦ ?_) (fun gone st _ hst ↦ ?_) (fun _ _ _ h ↦ h.elim)
      fun _ _ _ ↦ trivial)
    · -- a session that is found was there, and it was not
      rw [h.2 hkey] at hle
      exact absurd hle (by decide)
    · show wp _ (if st = .Error then _ else if st = .NotFound ∨ [] = [] then _ else _) _ _
      by_cases herror : st = .Error
      · rw [if_pos herror]
        exact hsend _ (by decide)
      · rw [if_neg herror, if_pos (.inr rfl)]
        exact hsend _ (by decide)
  · cases r with
    | none => exact hsend _ (by decide)
    | some _ => trivial

/-! ## Runs -/

namespace Auth

/-- A `DEL` of worker `j` is not answered with an error. -/
def Executes (j : ℕ) (s : Auth) : Move → Prop
  | .call i out =>
    i = j → ∀ o ∈ s.nextCall j, o.isDel = true → out ≠ .refused
  | .start _ => True
  | .expire _ => True

instance (j : ℕ) (s : Auth) : ∀ m : Move, Decidable (s.Executes j m)
  | .call i out => by
    unfold Executes
    infer_instance
  | .start _ => inferInstanceAs (Decidable True)
  | .expire _ => inferInstanceAs (Decidable True)

/-- The token is out, every worker does what is asked of it, and has answered accordingly; of those
that are still to come nothing is asked. -/
structure Barred (bar : ℕ → Bar) (token : Bytes) (s : Auth) (log : List Reply) : Prop where
  out : s.Out token log
  keeps : s.Keeps (fun i _ ↦ (bar i).spec token) (fun _ _ _ ↦ True) (fun _ ↦ s.gone token)
  allowed : ∀ r ∈ log, (bar r.worker).allows (s.gone token) r.statusCode
  fresh : ∀ i, s.running.length ≤ i → bar i = .free

variable {token : Bytes} {s : Auth} {log : List Reply} {bar : ℕ → Bar}

theorem says_exec {deletes : Prop} {o : Call} {out : Outcome} {store : Store} {r : Option o.Res}
    (hexec : s.store.exec o out = some (store, r))
    (hout : deletes → o.isDel = true → out ≠ .refused) (gone' : Bool)
    (hgone : store.redis (lit "session:" ++ token) = none → gone' = true) :
    SaysOf deletes token (s.gone token) gone' o r := by
  cases o with
  | redisCommand conn cmd =>
    cases cmd with
    | get key =>
      rcases r with _ | _ | reply
      · trivial
      · trivial
      · cases reply with
        | string value =>
          rintro rfl
          rw [gone, Store.exec_get hexec]
          rfl
        | _ => trivial
    | setex key ttl value => trivial
    | del key =>
      rcases r with _ | _ | reply
      · trivial
      · trivial
      · rintro hdeletes rfl
        exact hgone (Store.exec_del hexec (hout hdeletes rfl))
  | _ => trivial

theorem Barred.step (h : s.Barred bar token log) {m : Move}
    (hm : ∀ j, (bar j).deletes → s.Executes j m) :
    (s.step m).Barred bar token (log ++ s.reply m) := by
  have hle := h.out.gone_step m
  have hfresh : ∀ i, (s.step m).running.length ≤ i → bar i = .free :=
    fun i hi ↦ h.fresh i ((s.running_length_le m).trans hi)
  have hstable : ∀ i (_ : Task), ((bar i).spec token).Stable := fun i _ ↦ (bar i).spec_stable token
  have hallowed : ∀ r ∈ log, (bar r.worker).allows ((s.step m).gone token) r.statusCode := by
    intro r hr
    exact ((bar r.worker).spec_stable token).pre (o := .send r.statusCode r.body) hle (h.allowed r hr)
  rcases s.move_cases m with ⟨t, rfl⟩ | ⟨key, rfl⟩ | ⟨e, hreply⟩ |
    ⟨i, out, t, o, next, store, r, rfl, hi, hexec, hreply, e⟩
  · refine ⟨h.out.step _, h.keeps.start ?_, ?_, hfresh⟩
    · rw [h.fresh _ le_rfl]
      exact Bar.wp_free t _
    · rw [reply, List.append_nil]
      exact hallowed
  · refine ⟨h.out.step _, (h.keeps.of_running_eq rfl).mono hstable (fun _ _ _ _ _ ↦ id) fun _ ↦ hle,
      ?_, hfresh⟩
    rw [reply, List.append_nil]
    exact hallowed
  · rw [e, hreply, List.append_nil]
    exact h
  · have hpost : ((bar i).spec token).post (s.gone token) o r ((s.step (.call i out)).gone token) := by
      refine ⟨hle, says_exec hexec (fun hdeletes hdel ↦ ?_) _ fun hnone ↦ ?_⟩
      · exact hm i hdeletes rfl o (by simp [nextCall, hi]) hdel
      · rw [e, gone, Option.isNone_iff_eq_none]
        exact hnone
    have hrunning : (s.step (.call i out)).running = s.running.set i ⟨t, next r⟩ := by rw [e]
    have hkeeps := h.keeps.call hi hpost hrunning
    refine ⟨h.out.step _, hkeeps.mono hstable (fun _ _ _ _ _ ↦ id) fun j ↦ ?_, fun r' hr' ↦ ?_, hfresh⟩
    · by_cases hj : j = i
      · rw [hj, Function.update_self]
      · rw [Function.update_of_ne hj]
        exact hle
    · rcases List.mem_append.mp hr' with hr' | hr'
      · exact hallowed r' hr'
      · rw [hreply] at hr'
        cases o with
        | send statusCode body =>
          obtain rfl := List.mem_singleton.mp hr'
          exact ((bar i).spec_stable token).pre (o := .send statusCode body) hle (h.keeps i _ hi).1
        | _ => exact absurd hr' (by simp [Call.reply])

/-- Something is asked of one worker, which has just been started. -/
theorem barred_start (hout : s.Out token log) (hstarted : ∀ r ∈ log, r.worker < s.running.length)
    {t : Task} {b : Bar} (hwork : wp (b.spec token) t.work (fun _ _ ↦ True) (s.gone token)) :
    (s.step (.start t)).Barred (Function.update (fun _ ↦ .free) s.running.length b) token log := by
  have hother : ∀ {i : ℕ}, i ≠ s.running.length →
      Function.update (fun _ ↦ Bar.free) s.running.length b i = .free := by
    intro i hi
    rw [Function.update_of_ne hi]
  have hout' : (s.step (.start t)).Out token log := by
    have hstep := hout.step (.start t)
    rwa [reply, List.append_nil] at hstep
  have hlength : (s.step (.start t)).running.length = s.running.length + 1 :=
    List.length_append
  refine ⟨hout', ?_, fun r hr ↦ ?_, fun i hi ↦ ?_⟩
  · -- those that were there before may do what they like
    refine Keeps.start (fun i k hk ↦ ?_) ?_
    · have hlen := (List.getElem?_eq_some_iff.mp hk).1
      rw [hother (by omega)]
      exact wp_of_pre (fun _ o ↦ by cases o <;> trivial) _ _
    · rw [Function.update_self]
      exact hwork
  · rw [hother (by have := hstarted r hr; omega)]
    trivial
  · rw [hlength] at hi
    exact hother (by omega)

/-- The token is out after a run that hands it out. -/
theorem out_run {ms : List Move} {r : Reply} (hr : r ∈ start.replies ms) (hcode : r.statusCode = 200)
    (hbody : r.body = loginJson token) : (start.run ms).Out token (start.replies ms) := by
  have hmeets : Meets Auth.step (fun _ _ ↦ True) start ms := meets_of_forall (fun _ _ _ ↦ trivial) _
  have hheld := replies_invariant (I := fun s log ↦ ∃ hold, s.HeldBy token hold log)
    (fun s log m h _ ↦ h.elim fun _ h ↦ h.step m) hmeets ⟨_, heldBy_start⟩
  exact ⟨hheld, r, hr, hcode, hbody⟩

/-- A run in which something is asked of one worker, started at the beginning. -/
theorem barred_run (hout : s.Out token log) (hstarted : ∀ r ∈ log, r.worker < s.running.length)
    {t : Task} {b : Bar} (hwork : wp (b.spec token) t.work (fun _ _ ↦ True) (s.gone token))
    (ms : List Move)
    (hms : b.deletes → Meets Auth.step (Executes s.running.length) (s.step (.start t)) ms) :
    ((s.step (.start t)).run ms).Barred (Function.update (fun _ ↦ .free) s.running.length b) token
      (log ++ (s.step (.start t)).replies ms) := by
  have hmeets : Meets Auth.step (fun s' m ↦ b.deletes → s'.Executes s.running.length m)
      (s.step (.start t)) ms := by
    by_cases hb : b.deletes
    · exact (hms hb).imp fun _ _ h _ ↦ h
    · exact meets_of_forall (fun _ _ _ hb' ↦ absurd hb' hb) _
  refine replies_invariant (fun s' log m h hm ↦ h.step fun j hj ↦ ?_) hmeets
    (barred_start hout hstarted hwork)
  by_cases hjs : j = s.running.length
  · rw [hjs] at hj ⊢
    rw [Function.update_self] at hj
    exact hm hj
  · rw [Function.update_of_ne hjs] at hj
    exact absurd hj id

end Auth

/-- **Logging out is final.**  Take a token that a login has handed out, and a `/logout` for it that
is then started and answers 200 or 401, with anything else going on, and with any outcome of any call
but this one: its `DEL` is not answered with an error.  No `/profile` for the token that is started
afterwards answers 200. -/
theorem logout_final (ms₀ ms₁ ms₂ : List Move) (fd fd' : ℕ) (keepAlive keepAlive' : Bool)
    (token : Bytes) (r₀ r₁ : Reply) (hlogin : r₀ ∈ Auth.start.replies ms₀)
    (hcode₀ : r₀.statusCode = 200) (hbody₀ : r₀.body = loginJson token)
    (hexecutes : Meets Auth.step (Auth.Executes (Auth.start.run ms₀).running.length)
      ((Auth.start.run ms₀).step (.start (.logout fd keepAlive token))) ms₁)
    (hlogout : r₁ ∈ ((Auth.start.run ms₀).step (.start (.logout fd keepAlive token))).replies ms₁)
    (hworker₁ : r₁.worker = (Auth.start.run ms₀).running.length)
    (hcode₁ : r₁.statusCode = 200 ∨ r₁.statusCode = 401) :
    ∀ r₂ ∈ ((((Auth.start.run ms₀).step (.start (.logout fd keepAlive token))).run ms₁).step
        (.start (.profile fd' keepAlive' token))).replies ms₂,
      r₂.worker =
        (((Auth.start.run ms₀).step (.start (.logout fd keepAlive token))).run ms₁).running.length →
      r₂.statusCode ≠ 200 := by
  intro r₂ hr₂ hworker₂
  have hout₀ := Auth.out_run hlogin hcode₀ hbody₀
  have hstarted₀ : ∀ r ∈ [] ++ Auth.start.replies ms₀, r.worker < _ :=
    Auth.started_run (by simp) ms₀
  have hnul := hout₀.not_mem_nul
  -- when the logout has answered, the session is gone
  have hbarred₁ := Auth.barred_run hout₀ hstarted₀ (logout_truthful hnul fd keepAlive _) ms₁
    fun _ ↦ hexecutes
  have hgone := hbarred₁.allowed r₁ (List.mem_append_right _ hlogout)
  rw [hworker₁, Function.update_self] at hgone
  -- so the profile starts without one
  have hstarted₁ := Auth.started_run hstarted₀ (.start (.logout fd keepAlive token) :: ms₁)
  have hprofile := profile_refused hnul fd' keepAlive'
  rw [← hgone hcode₁] at hprofile
  have hbarred₂ := Auth.barred_run hbarred₁.out hstarted₁ hprofile ms₂ fun h ↦ h.elim
  have hallowed := hbarred₂.allowed r₂ (List.mem_append_right _ hr₂)
  rw [hworker₂, Function.update_self] at hallowed
  exact hallowed

/-- A user who is registered and has logged in logs out, and is refused the profile. -/
theorem logout_final_bob :
    (⟨2, 200, messageJson "logout success"⟩ : Reply) ∈
        ((Auth.start.run (Move.fillCache (lit "bob") (lit "pw"))).step
          (.start (.logout 7 true (List.replicate 32 97)))).replies
          ([Outcome.handle 1, .served, .served, .served].map (.call 2)) ∧
      ∀ r ∈ ((((Auth.start.run (Move.fillCache (lit "bob") (lit "pw"))).step
          (.start (.logout 7 true (List.replicate 32 97)))).run
          ([Outcome.handle 1, .served, .served, .served].map (.call 2))).step
          (.start (.profile 7 true (List.replicate 32 97)))).replies
          ([Outcome.handle 1, .served, .served, .served].map (.call 3)),
        r.worker = 3 → r.statusCode ≠ 200 := by
  have hlogout : (⟨2, 200, messageJson "logout success"⟩ : Reply) ∈
      ((Auth.start.run (Move.fillCache (lit "bob") (lit "pw"))).step
        (.start (.logout 7 true (List.replicate 32 97)))).replies
        ([Outcome.handle 1, .served, .served, .served].map (.call 2)) := by
    decide +kernel
  refine ⟨hlogout, fun r hr hworker ↦ ?_⟩
  exact logout_final (Move.fillCache (lit "bob") (lit "pw")) _ _ 7 7 true true
    (List.replicate 32 97) ⟨1, 200, loginJson (List.replicate 32 97)⟩
    ⟨2, 200, messageJson "logout success"⟩ (by decide +kernel) rfl rfl (by decide +kernel) hlogout
    (by decide +kernel) (.inl rfl) r hr (hworker.trans (by decide +kernel))

/-- **A session that survives its logout.**  Redis answers the `DEL` with an error, `/logout` answers
401, and the token still opens the profile. -/
theorem session_survives_logout :
    (⟨1, 200, loginJson (List.replicate 32 97)⟩ : Reply) ∈
        Auth.start.replies (Move.fillCache (lit "bob") (lit "pw")) ∧
      ((Auth.start.run (Move.fillCache (lit "bob") (lit "pw"))).step
          (.start (.logout 7 true (List.replicate 32 97)))).replies
          ([Outcome.handle 1, .refused, .served, .served].map (.call 2)) =
        [⟨2, 401, errorJson "invalid or expired token"⟩] ∧
      ((((Auth.start.run (Move.fillCache (lit "bob") (lit "pw"))).step
          (.start (.logout 7 true (List.replicate 32 97)))).run
          ([Outcome.handle 1, .refused, .served, .served].map (.call 2))).step
          (.start (.profile 7 true (List.replicate 32 97)))).replies
          ([Outcome.handle 1, .served, .served, .served].map (.call 3)) =
        [⟨3, 200, profileJson (lit "bob")⟩] :=
  ⟨by decide +kernel, by decide +kernel, by decide +kernel⟩

end ReactorServer
