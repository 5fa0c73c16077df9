import ReactorServer.Db.Deeds

/-!
# One operation at a time

The database pool is linearizable: whatever its workers do at the same time, and however their calls
come out, there is an order of the operations in which `service` could have carried them out one by
one, with the same answers, and an operation that was answered before another was submitted comes
before it there (`history_linearizable`).

The order is that of the calls that decide (`Db/Deeds`); a task that fails before it comes to that is
decided when it is answered.  `Store.service` is what the two stores amount to, with the entries that
are only a cache left out.  `Store.exec_deed` says that a call does to it what the service would do,
and `Explained.step` keeps the account of all workers.
-/

set_option autoImplicit false

namespace ReactorServer

open Program Machine Concurrent

/-! ## What the stores amount to -/

namespace Store

variable {s s' : Store} {out : Outcome}

/-- The users, and the sessions, for tokens of which these have been issued. -/
def service (s : Store) (issued : Set Bytes) : Service :=
  ⟨s.users, fun token ↦ s.redis (lit "session:" ++ token), issued⟩

/-- The cache is not part of it. -/
theorem service_update_user (s : Store) (name : Bytes) (v : Option Bytes) (issued : Set Bytes) :
    Store.service { s with redis := Function.update s.redis (lit "user:" ++ name) v } issued =
      s.service issued := by
  refine Service.ext rfl (funext fun token ↦ ?_) rfl
  exact Function.update_of_ne (Ne.symm (lit_user_ne_session name token)) v s.redis

theorem service_update_session (s : Store) (token : Bytes) (v : Option Bytes) (issued : Set Bytes) :
    Store.service { s with redis := Function.update s.redis (lit "session:" ++ token) v } issued =
      { s.service issued with sessions := Function.update (s.service issued).sessions token v } := by
  refine Service.ext rfl (funext fun token' ↦ ?_) rfl
  show Function.update s.redis (lit "session:" ++ token) v (lit "session:" ++ token') =
    Function.update (fun token ↦ s.redis (lit "session:" ++ token)) token v token'
  by_cases h : token' = token
  · rw [h, Function.update_self, Function.update_self]
  · rw [Function.update_of_ne h, Function.update_of_ne fun e ↦ h (List.append_cancel_left e)]

/-- **How a command comes out.** -/
theorem exec_command_cases {conn : ℕ} {cmd : RedisCommand} {r : Option (Option RedisReply)}
    (h : s.exec (.redisCommand conn cmd) out = some (s', r)) :
    (s' = (s.redisRun cmd).1 ∧ r = some (some (s.redisRun cmd).2)) ∨
      (out = .refused ∧ s' = s ∧ r = some (some .error)) ∨
      (r = some none ∧ (s' = s ∨ s' = (s.redisRun cmd).1)) ∨ (r = none ∧ s' = s) := by
  cases out with
  | served =>
    cases h
    exact .inl ⟨rfl, rfl⟩
  | refused =>
    cases h
    exact .inr (.inl ⟨rfl, rfl, rfl⟩)
  | lost executed =>
    cases h
    refine .inr (.inr (.inl ⟨rfl, ?_⟩))
    cases executed with
    | false => exact .inl rfl
    | true => exact .inr rfl
  | throws =>
    cases h
    exact .inr (.inr (.inr ⟨rfl, rfl⟩))
  | _ => cases h

/-- **How a statement comes out.** -/
theorem exec_query_cases {conn : ℕ} {sql : Bytes} {r : Option QueryResult}
    (h : s.exec (.mysqlQuery conn sql) out = some (s', r)) :
    (s' = (s.mysqlQuery sql).1 ∧ r = some (s.mysqlQuery sql).2) ∨
      (r = some .failed ∧ (s' = s ∨ s' = (s.mysqlQuery sql).1)) ∨
      (out = .noResult ∧ s' = (s.mysqlQuery sql).1 ∧ r = some (.done none) ∧
        ∃ rows, (s.mysqlQuery sql).2 = .done rows) ∨ (r = none ∧ s' = s) := by
  cases out with
  | served =>
    cases h
    exact .inl ⟨rfl, rfl⟩
  | refused =>
    cases h
    exact .inr (.inl ⟨rfl, .inl rfl⟩)
  | lost executed =>
    cases h
    refine .inr (.inl ⟨rfl, ?_⟩)
    cases executed with
    | false => exact .inl rfl
    | true => exact .inr rfl
  | noResult =>
    rw [exec] at h
    cases hresult : s.mysqlQuery sql with
    | mk s₁ result =>
      rw [hresult] at h
      cases result with
      | failed =>
        cases h
        exact .inl ⟨rfl, rfl⟩
      | done rows =>
        cases h
        exact .inr (.inr (.inl ⟨rfl, rfl, rfl, rows, rfl⟩))
  | throws =>
    cases h
    exact .inr (.inr (.inr ⟨rfl, rfl⟩))
  | _ => cases h

end Store

/-! ## Decisions -/

/-- What a call of a task does to the stores and to the progress of its worker. -/
inductive Advances (t : Task) (s : Store) (is : Set Bytes) (s' : Store) :
    Progress → Set Bytes → Progress → Prop where
  /-- Nothing that matters. -/
  | stay {p : Progress} (hsame : s'.service is = s.service is) (hdrawn : s'.drawn = s.drawn) :
      Advances t s is s' p is p
  /-- A token is drawn. -/
  | draw {token : Bytes} (hsame : s'.service is = s.service is) (hnew : token ∉ s.drawn)
      (hdrawn : s'.drawn = token :: s.drawn) : Advances t s is s' .fresh is (.holding token)
  /-- The operation is carried out. -/
  | settle {r : Result} (hdoes : (s.service is).Answers t.operation r (s'.service is))
      (hdrawn : s'.drawn = s.drawn) : Advances t s is s' .fresh is (.settled r)
  /-- A session is opened for the token that has been drawn. -/
  | opens {token : Bytes}
      (hdoes : (s.service is).Answers t.operation ⟨200, loginJson token⟩ (s'.service (insert token is)))
      (hdrawn : s'.drawn = s.drawn) :
      Advances t s is s' (.holding token) (insert token is) (.settled ⟨200, loginJson token⟩)

namespace Store

variable {s s' : Store} {w : World} {t : Task} {out : Outcome} {is : Set Bytes} {p : Progress}

theorem redisRun_drawn (s : Store) (cmd : RedisCommand) : (s.redisRun cmd).1.drawn = s.drawn := by
  cases cmd <;> rfl

/-- A `GET` changes nothing. -/
theorem exec_get_store {conn : ℕ} {key : Bytes} {r : Option (Option RedisReply)}
    (hexec : s.exec (.redisCommand conn (.get key)) out = some (s', r)) : s' = s := by
  rcases exec_command_cases hexec with ⟨h, -⟩ | ⟨-, h, -⟩ | ⟨-, h | h⟩ | ⟨-, h⟩
  all_goals exact h

theorem exec_get_login (hfits : s.Fits w) {fd : ℕ} {keepAlive : Bool} {username password : Bytes}
    {conn : ℕ} {r : Option (Option RedisReply)}
    (hexec : s.exec (.redisCommand conn (.get (lit "user:" ++ username))) out = some (s', r)) :
    ∃ p', (Task.login fd keepAlive username password).commanded .fresh
        (.get (lit "user:" ++ username)) r ⟨s'.users, p'⟩ ∧
      Advances (.login fd keepAlive username password) s is s' .fresh is p' := by
  obtain rfl := exec_get_store hexec
  rcases r with _ | _ | reply
  · exact ⟨.fresh, rfl, .stay rfl rfl⟩
  · exact ⟨.fresh, rfl, .stay rfl rfl⟩
  cases reply with
  | string value =>
    have huser : s'.users username = some value := by
      rw [hfits.users]
      exact (hfits.redis _ _ (exec_get hexec)).user
    by_cases hvalue : value = [] ∨ value = password
    · exact ⟨.fresh, ⟨huser, (if_pos hvalue).symm⟩, .stay rfl rfl⟩
    · refine ⟨.settled _, ⟨huser, (if_neg hvalue).symm⟩, ?_⟩
      exact .settle (.wrong huser fun e ↦ hvalue (.inr e)) rfl
  | _ => exact ⟨.fresh, rfl, .stay rfl rfl⟩

theorem exec_get_profile
    (hnamed : ∀ token value, s.redis (lit "session:" ++ token) = some value → value ≠ [])
    {fd : ℕ} {keepAlive : Bool} {token : Bytes} {conn : ℕ} {r : Option (Option RedisReply)}
    (hexec : s.exec (.redisCommand conn (.get (lit "session:" ++ token))) out = some (s', r))
    (hout : out ≠ .refused) :
    ∃ p', (Task.profile fd keepAlive token).commanded .fresh (.get (lit "session:" ++ token)) r
        ⟨s'.users, p'⟩ ∧
      Advances (.profile fd keepAlive token) s is s' .fresh is p' := by
  obtain rfl := exec_get_store hexec
  rcases exec_command_cases hexec with ⟨-, hr⟩ | ⟨h, -⟩ | ⟨rfl, -⟩ | ⟨rfl, -⟩
  · rw [redisRun] at hr
    cases hvalue : s'.redis (lit "session:" ++ token) with
    | none =>
      obtain rfl : r = some (some .nil) := by rw [hr, hvalue]; rfl
      exact ⟨_, rfl, .settle (.notShown hvalue) rfl⟩
    | some value =>
      obtain rfl : r = some (some (.string value)) := by rw [hr, hvalue]; rfl
      exact ⟨_, ⟨hnamed token value hvalue, rfl⟩, .settle (.shown hvalue) rfl⟩
  · exact absurd h hout
  · exact ⟨.fresh, rfl, .stay rfl rfl⟩
  · exact ⟨.fresh, rfl, .stay rfl rfl⟩

theorem exec_del_logout {fd : ℕ} {keepAlive : Bool} {token : Bytes} {conn : ℕ}
    {r : Option (Option RedisReply)}
    (hexec : s.exec (.redisCommand conn (.del (lit "session:" ++ token))) out = some (s', r))
    (hout : out ≠ .refused) :
    ∃ p', (Task.logout fd keepAlive token).commanded .fresh (.del (lit "session:" ++ token)) r
        ⟨s'.users, p'⟩ ∧
      Advances (.logout fd keepAlive token) s is s' .fresh is p' := by
  -- the session is deleted, or there is none
  have hrun : (∃ u, s.redis (lit "session:" ++ token) = some u ∧
        Advances (.logout fd keepAlive token) s is (s.redisRun (.del (lit "session:" ++ token))).1 .fresh is
          (.settled (.message 200 "logout success"))) ∨
      s.redis (lit "session:" ++ token) = none ∧
        (s.redisRun (.del (lit "session:" ++ token))).1 = s := by
    cases hu : s.redis (lit "session:" ++ token) with
    | none =>
      refine .inr ⟨rfl, ?_⟩
      rw [redisRun, Function.update_eq_self_iff.mpr hu.symm]
    | some u =>
      refine .inl ⟨u, rfl, .settle ?_ rfl⟩
      rw [redisRun, service_update_session]
      exact .loggedOut hu
  rcases exec_command_cases hexec with ⟨rfl, rfl⟩ | ⟨h, -⟩ | ⟨rfl, rfl | rfl⟩ | ⟨rfl, rfl⟩
  · rcases hrun with ⟨u, hu, hadv⟩ | ⟨hu, hsame⟩
    · refine ⟨_, ?_, hadv⟩
      rw [redisRun, hu]
      rfl
    · refine ⟨.settled (.error 401 "invalid or expired token"), ?_, ?_⟩
      · rw [redisRun, hu]
        rfl
      · rw [hsame]
        exact .settle (.notLoggedOut hu) rfl
  · exact absurd h hout
  · exact ⟨.fresh, .inl rfl, .stay rfl rfl⟩
  · rcases hrun with ⟨u, hu, hadv⟩ | ⟨hu, hsame⟩
    · exact ⟨_, .inr rfl, hadv⟩
    · rw [hsame]
      exact ⟨.fresh, .inl rfl, .stay rfl rfl⟩
  · exact ⟨.fresh, rfl, .stay rfl rfl⟩

theorem exec_setex_login {fd : ℕ} {keepAlive : Bool} {username password key value : Bytes} {conn ttl : ℕ}
    {r : Option (Option RedisReply)}
    (hcmd : (Task.login fd keepAlive username password).commands ⟨s.users, p⟩ (.setex key ttl value))
    (hheld : ∀ token, p = .holding token → token ∉ is)
    (hexec : s.exec (.redisCommand conn (.setex key ttl value)) out = some (s', r)) :
    ∃ is' p', (Task.login fd keepAlive username password).commanded p (.setex key ttl value) r
        ⟨s'.users, p'⟩ ∧
      Advances (.login fd keepAlive username password) s is s' p is' p' := by
  have hstore : s' = s ∨ s' = (s.redisRun (.setex key ttl value)).1 := by
    rcases exec_command_cases hexec with ⟨h, -⟩ | ⟨-, h, -⟩ | ⟨-, h⟩ | ⟨-, h⟩
    · exact .inr h
    · exact .inl h
    · exact h
    · exact .inl h
  rcases hcmd with ⟨hfree, name, rfl⟩ | ⟨token, hp, rfl, hvalue, huser⟩
  · -- the cache
    refine ⟨is, p, .inl ⟨rfl, .inl hfree⟩, ?_⟩
    rcases hstore with rfl | rfl
    · exact .stay rfl rfl
    · exact .stay (service_update_user s name (some value) is) rfl
  · -- the session
    obtain rfl : p = .holding token := hp
    obtain rfl : username = value := hvalue.symm
    have hopens : Advances (.login fd keepAlive username password) s is
        (s.redisRun (.setex (lit "session:" ++ token) ttl username)).1 (.holding token) (insert token is)
        (.settled ⟨200, loginJson token⟩) := by
      refine .opens ?_ rfl
      rw [redisRun, service_update_session]
      exact .loggedIn huser (hheld token rfl)
    rcases exec_command_cases hexec with ⟨rfl, -⟩ | ⟨-, rfl, rfl⟩ | ⟨rfl, rfl | rfl⟩ | ⟨rfl, rfl⟩
    · exact ⟨_, _, .inr ⟨token, rfl, rfl⟩, hopens⟩
    · exact ⟨_, _, .inl ⟨rfl, .inr (by simp)⟩, .stay rfl rfl⟩
    · exact ⟨_, _, .inl ⟨rfl, .inr (by simp)⟩, .stay rfl rfl⟩
    · exact ⟨_, _, .inr ⟨token, rfl, rfl⟩, hopens⟩
    · exact ⟨_, _, .inl ⟨rfl, .inr (by simp)⟩, .stay rfl rfl⟩

/-- **A command decides as the service would.** -/
theorem exec_commanded (hfits : s.Fits w)
    (hnamed : ∀ token value, s.redis (lit "session:" ++ token) = some value → value ≠ [])
    (hheld : ∀ token, p = .holding token → token ∉ is) {conn : ℕ} {cmd : RedisCommand}
    {r : Option (Option RedisReply)} (hcmd : t.commands ⟨s.users, p⟩ cmd)
    (hexec : s.exec (.redisCommand conn cmd) out = some (s', r))
    (hread : (Call.redisCommand conn cmd).isMisread out = false) :
    ∃ is' p', t.commanded p cmd r ⟨s'.users, p'⟩ ∧ Advances t s is s' p is' p' := by
  cases t with
  | register fd keepAlive username password => exact absurd hcmd id
  | login fd keepAlive username password =>
    cases cmd with
    | get key =>
      obtain ⟨rfl, rfl⟩ := hcmd
      exact ⟨is, exec_get_login hfits hexec⟩
    | setex key ttl value => exact exec_setex_login hcmd hheld hexec
    | del key => exact absurd hcmd id
  | profile fd keepAlive token =>
    cases cmd with
    | get key =>
      obtain ⟨rfl, rfl⟩ := hcmd
      refine ⟨is, exec_get_profile hnamed hexec ?_⟩
      rintro rfl
      rw [Call.isMisread, Bool.eq_false_iff, Ne, List.isPrefixOf_iff_prefix] at hread
      exact hread (List.prefix_append _ _)
    | setex key ttl value => exact absurd hcmd id
    | del key => exact absurd hcmd id
  | logout fd keepAlive token =>
    cases cmd with
    | get key => exact absurd hcmd id
    | setex key ttl value => exact absurd hcmd id
    | del key =>
      obtain ⟨rfl, rfl⟩ := hcmd
      refine ⟨is, exec_del_logout hexec ?_⟩
      rintro rfl
      exact absurd hread (by simp [Call.isMisread])

theorem exec_query_register {fd : ℕ} {keepAlive : Bool} {username password : Bytes} {conn : ℕ}
    {sql : Bytes} {r : Option QueryResult}
    (hsql : (Task.register fd keepAlive username password).queries p (parseSql sql))
    (hexec : s.exec (.mysqlQuery conn sql) out = some (s', r)) :
    ∃ p', (Task.register fd keepAlive username password).queried p (parseSql sql) r ⟨s'.users, p'⟩ ∧
      Advances (.register fd keepAlive username password) s is s' p is p' := by
  generalize hstmt : parseSql sql = stmt at hsql ⊢
  rcases stmt with _ | (user | user | ⟨user, pass⟩)
  · exact absurd hsql id
  · obtain ⟨rfl, rfl⟩ := hsql
    have hrun : s.mysqlQuery sql = (s, .done (some (if (s.users user).isSome then [lit "1"] else []))) :=
      mysqlQuery_of_parse hstmt
    have hsame : s' = s := by
      rcases exec_query_cases hexec with ⟨h, -⟩ | ⟨-, h | h⟩ | ⟨-, h, -⟩ | ⟨-, h⟩
      all_goals first | exact h | rw [h, hrun]
    subst hsame
    rcases exec_query_cases hexec with ⟨-, rfl⟩ | ⟨rfl, -⟩ | ⟨-, -, rfl, -⟩ | ⟨rfl, -⟩
    · rw [hrun]
      cases huser : s'.users user with
      | none => exact ⟨.fresh, rfl, .stay rfl rfl⟩
      | some q => exact ⟨_, rfl, .settle (.taken huser) rfl⟩
    · exact ⟨.fresh, rfl, .stay rfl rfl⟩
    · exact ⟨.fresh, rfl, .stay rfl rfl⟩
    · exact ⟨.fresh, rfl, .stay rfl rfl⟩
  · exact absurd hsql id
  · obtain ⟨rfl, rfl, rfl⟩ := hsql
    -- the row is added, or the user has one already
    have hrun : (s.users user = none ∧ s.mysqlQuery sql =
          ({ s with users := Function.update s.users user (some pass) }, .done none)) ∨
        s.mysqlQuery sql = (s, .failed) := by
      rw [mysqlQuery_of_parse hstmt, mysqlRun]
      cases huser : s.users user with
      | none => exact .inl ⟨rfl, if_neg (by simp)⟩
      | some q => exact .inr (if_pos (by simp))
    have hadv : s.users user = none → Advances (.register fd keepAlive user pass) s is
        { s with users := Function.update s.users user (some pass) } .fresh is
        (.settled (.message 200 "register success")) :=
      fun huser ↦ .settle (.registered huser) rfl
    rcases exec_query_cases hexec with ⟨rfl, rfl⟩ | ⟨rfl, rfl | rfl⟩ | ⟨-, rfl, rfl, rows, hrows⟩ | ⟨rfl, rfl⟩
    · rcases hrun with ⟨huser, e⟩ | e
      · rw [e]
        exact ⟨_, rfl, hadv huser⟩
      · rw [e]
        exact ⟨.fresh, .inl rfl, .stay rfl rfl⟩
    · exact ⟨.fresh, .inl rfl, .stay rfl rfl⟩
    · rcases hrun with ⟨huser, e⟩ | e
      · rw [e]
        exact ⟨_, .inr rfl, hadv huser⟩
      · rw [e]
        exact ⟨.fresh, .inl rfl, .stay rfl rfl⟩
    · rcases hrun with ⟨huser, e⟩ | e
      · rw [e]
        exact ⟨_, rfl, hadv huser⟩
      · rw [e] at hrows
        exact absurd hrows (by simp)
    · exact ⟨.fresh, rfl, .stay rfl rfl⟩

theorem exec_query_login (hnul : ∀ u q, s.users u = some q → 0 ∉ q) {fd : ℕ} {keepAlive : Bool}
    {username password : Bytes} {conn : ℕ} {sql : Bytes} {r : Option QueryResult}
    (hsql : (Task.login fd keepAlive username password).queries p (parseSql sql))
    (hexec : s.exec (.mysqlQuery conn sql) out = some (s', r))
    (hread : (Call.mysqlQuery conn sql).isMisread out = false) :
    ∃ p', (Task.login fd keepAlive username password).queried p (parseSql sql) r ⟨s'.users, p'⟩ ∧
      Advances (.login fd keepAlive username password) s is s' p is p' := by
  generalize hstmt : parseSql sql = stmt at hsql ⊢
  rcases stmt with _ | (user | user | ⟨user, pass⟩)
  · exact absurd hsql id
  · exact absurd hsql id
  · obtain ⟨rfl, rfl⟩ := hsql
    have hrun : s.mysqlQuery sql = (s, .done (some (s.users user).toList)) := mysqlQuery_of_parse hstmt
    have hsame : s' = s := by
      rcases exec_query_cases hexec with ⟨h, -⟩ | ⟨-, h | h⟩ | ⟨-, h, -⟩ | ⟨-, h⟩
      all_goals first | exact h | rw [h, hrun]
    subst hsame
    rcases exec_query_cases hexec with ⟨-, rfl⟩ | ⟨rfl, -⟩ | ⟨rfl, -⟩ | ⟨rfl, -⟩
    · rw [hrun]
      cases huser : s'.users user with
      | none => exact ⟨_, rfl, .settle (.unknown huser) rfl⟩
      | some q =>
        by_cases hq : q = password
        · exact ⟨.fresh, ⟨huser, hnul _ _ huser, (if_pos hq).symm⟩, .stay rfl rfl⟩
        · exact ⟨.settled _, ⟨huser, hnul _ _ huser, (if_neg hq).symm⟩, .settle (.wrong huser hq) rfl⟩
    · exact ⟨.fresh, rfl, .stay rfl rfl⟩
    · exact absurd hread (by simp [Call.isMisread, hstmt])
    · exact ⟨.fresh, rfl, .stay rfl rfl⟩
  · exact absurd hsql id

/-- A draw that throws. -/
theorem exec_draw_throws (hexec : s.exec .generateToken out = some (s', none)) : s' = s := by
  cases out with
  | throws =>
    cases hexec
    rfl
  | token token =>
    rw [exec] at hexec
    split at hexec <;> cases hexec
  | _ => cases hexec

theorem exec_draw_service {r : Option Bytes} (hexec : s.exec .generateToken out = some (s', r)) :
    s'.service is = s.service is := by
  rcases exec_store hexec with rfl | ⟨conn, cmd, e, -⟩ | ⟨conn, sql, e, -⟩ | ⟨token, -, -, rfl⟩
  · rfl
  · exact absurd e (by simp)
  · exact absurd e (by simp)
  · rfl

/-- **The stores decide as the service would**, in every call but the one that answers. -/
theorem exec_deed (hfits : s.Fits w)
    (hnamed : ∀ token value, s.redis (lit "session:" ++ token) = some value → value ≠ [])
    (hheld : ∀ token, p = .holding token → token ∉ is) {o : Call} {r : Option o.Res}
    (hpre : t.deed.pre ⟨s.users, p⟩ o) (hexec : s.exec o out = some (s', r))
    (hread : o.isMisread out = false) (hsend : o.isSend = false) :
    ∃ is' p', t.deed.post ⟨s.users, p⟩ o r ⟨s'.users, p'⟩ ∧ Advances t s is s' p is' p' := by
  have husers : ∀ u q, s.users u = some q → s'.users u = some q := fun u q hu ↦ exec_users hexec hu
  cases o with
  | redisCommand conn cmd =>
    obtain ⟨is', p', hpost, hadv⟩ := exec_commanded hfits hnamed hheld hpre hexec hread
    exact ⟨is', p', ⟨husers, hpost⟩, hadv⟩
  | mysqlQuery conn sql =>
    cases t with
    | register fd keepAlive username password =>
      obtain ⟨p', hpost, hadv⟩ := exec_query_register hpre hexec
      exact ⟨is, p', ⟨husers, hpost⟩, hadv⟩
    | login fd keepAlive username password =>
      obtain ⟨p', hpost, hadv⟩ := exec_query_login hfits.nul hpre hexec hread
      exact ⟨is, p', ⟨husers, hpost⟩, hadv⟩
    | profile fd keepAlive token => exact absurd hpre id
    | logout fd keepAlive token => exact absurd hpre id
  | generateToken =>
    obtain ⟨rfl, -⟩ : p = .fresh ∧ _ := hpre
    cases r with
    | none =>
      obtain rfl := exec_draw_throws hexec
      exact ⟨is, .fresh, ⟨husers, rfl⟩, .stay rfl rfl⟩
    | some token =>
      obtain ⟨hnew, hnul, hdrawn⟩ := exec_token hexec
      exact ⟨is, .holding token, ⟨husers, hnul, rfl⟩, .draw (exec_draw_service hexec) hnew hdrawn⟩
  | send statusCode body => exact absurd hsend (by simp [Call.isSend])
  | mysqlRelease conn =>
    obtain ⟨rfl, -⟩ := exec_idle (t := t) hexec (by simp) (by simp) (by simp)
    have hr : r ≠ none := exec_noexcept hexec rfl
    exact ⟨is, p, ⟨husers, hr, rfl⟩, .stay rfl rfl⟩
  | _ =>
    obtain ⟨rfl, -⟩ := exec_idle (t := t) hexec (by simp) (by simp) (by simp)
    exact ⟨is, p, ⟨husers, rfl⟩, .stay rfl rfl⟩

end Store

/-! ## The account of a run -/

/-- The events of a worker that has come so far. -/
def Progress.Events (i : ℕ) (op : Operation) :
    Progress → List (Happening Operation Result) → Prop
  | .fresh, es => es = [.seen (.invoke i op)]
  | .holding _, es => es = [.seen (.invoke i op)]
  | .settled r, es => es = [.seen (.invoke i op), .point i op r]
  | .answered, _ => True

namespace Auth

/-- **How a run is explained**: its events with their points, the tokens that sessions have been
opened for, and how far the workers have come. -/
structure Explained (s : Auth) (h : List (Seen Operation Result))
    (es : List (Happening Operation Result)) (is : Set Bytes) (p : ℕ → Progress) : Prop where
  seen : visible es = h
  legal : Annotated service .empty es (s.store.service is)
  keeps : s.Keeps (fun _ ↦ Task.deed) (fun _ v _ ↦ v.progress = .answered)
    fun i ↦ ⟨s.store.users, p i⟩
  events : ∀ i k, s.running[i]? = some k → (p i).Events i k.task.operation (eventsOf i es)
  later : ∀ i, s.running.length ≤ i → eventsOf i es = [] ∧ p i = .fresh
  /-- A token that is held has been drawn, and nobody else has it. -/
  held : ∀ i token, p i = .holding token →
    token ∈ s.store.drawn ∧ token ∉ is ∧ ∀ j, p j = .holding token → j = i
  issued : ∀ token ∈ is, token ∈ s.store.drawn

section Step

variable {s : Auth} {h : List (Seen Operation Result)} {es : List (Happening Operation Result)}
variable {is : Set Bytes} {p : ℕ → Progress}

theorem explained_start : start.Explained [] [] ∅ fun _ ↦ .fresh where
  seen := rfl
  legal := annotated_nil _ _
  keeps i k hk := absurd hk (by simp [start])
  events i k hk := absurd hk (by simp [start])
  later i _ := ⟨rfl, rfl⟩
  held i token htoken := absurd htoken (by simp)
  issued token htoken := absurd htoken (Set.notMem_empty token)

theorem Explained.start (hs : s.Explained h es is p) {t : Task} (ht : t.Exact) :
    (s.step (.start t)).Explained (h ++ s.seen (.start t))
      (es ++ [.seen (.invoke s.running.length t.operation)]) is p := by
  obtain ⟨hnone, hfresh⟩ := hs.later s.running.length le_rfl
  refine ⟨?_, hs.legal.invoke hnone _, hs.keeps.start (work_meets_deed ht hfresh), fun i k hk ↦ ?_,
    fun i hi ↦ ?_, hs.held, hs.issued⟩
  · rw [visible_append, hs.seen]
    rfl
  · rw [eventsOf_concat, Happening.id_invoke]
    change (s.running ++ [⟨t, t.work⟩])[i]? = some k at hk
    by_cases hi : s.running.length = i
    · subst hi
      rw [List.getElem?_concat_length] at hk
      obtain rfl := Option.some.inj hk
      rw [if_pos rfl, hnone, hfresh]
      rfl
    · rw [if_neg hi]
      refine hs.events i k ?_
      have hlt := (List.getElem?_eq_some_iff.mp hk).1
      rw [List.length_append, List.length_singleton] at hlt
      rwa [List.getElem?_append_left (by omega)] at hk
  · rw [show (s.step (.start t)).running = s.running ++ [⟨t, t.work⟩] from rfl, List.length_append,
      List.length_singleton] at hi
    rw [eventsOf_concat, Happening.id_invoke, if_neg (by omega)]
    exact hs.later i (by omega)

/-- An entry that goes away is a session, or nothing that matters. -/
theorem service_expire (s : Store) (key : Bytes) (is : Set Bytes) :
    Store.service { s with redis := Function.update s.redis key none } is = s.service is ∨
      (s.service is).Expires
        (Store.service { s with redis := Function.update s.redis key none } is) := by
  by_cases hkey : ∃ token, key = lit "session:" ++ token
  · obtain ⟨token, rfl⟩ := hkey
    exact .inr ⟨token, s.service_update_session token none is⟩
  · refine .inl (Service.ext rfl (funext fun token ↦ ?_) rfl)
    exact Function.update_of_ne (fun e ↦ hkey ⟨token, e.symm⟩) none s.redis

theorem Explained.expire (hs : s.Explained h es is p) (key : Bytes) :
    (s.step (.expire key)).Explained (h ++ s.seen (.expire key)) es is p := by
  rw [show s.seen (.expire key) = [] from rfl, List.append_nil]
  refine ⟨hs.seen, ?_, hs.keeps.of_running_eq rfl, hs.events, hs.later, hs.held, hs.issued⟩
  rcases service_expire s.store key is with e | hexpires
  · exact (show (s.step (.expire key)).store.service is = _ from e) ▸ hs.legal
  · exact hs.legal.drift hexpires

/-- The events of a worker concern no other. -/
theorem eventsOf_append_of_ne {i j : ℕ} (hij : j ≠ i) {es' : List (Happening Operation Result)}
    (hes' : ∀ e ∈ es', e.id = i) : eventsOf j (es ++ es') = eventsOf j es := by
  rw [eventsOf_append, show eventsOf j es' = [] from ?_, List.append_nil]
  refine List.filter_eq_nil_iff.mpr fun e he ↦ ?_
  simpa [hes' e he] using Ne.symm hij

theorem eventsOf_append_self {i : ℕ} {es' : List (Happening Operation Result)}
    (hes' : ∀ e ∈ es', e.id = i) : eventsOf i (es ++ es') = eventsOf i es ++ es' := by
  rw [eventsOf_append, show eventsOf i es' = es' from ?_]
  exact List.filter_eq_self.mpr fun e he ↦ by simp [hes' e he]

/-- **A call is made**, and with it come some events of its worker. -/
theorem Explained.call (hs : s.Explained h es is p) {i : ℕ} {t : Task} {o : Call}
    {next : Option o.Res → Job PUnit} (hi : s.running[i]? = some ⟨t, .call o next⟩) {store : Store}
    {r : Option o.Res} {out : Outcome} (hexec : s.store.exec o out = some (store, r)) {p₀ p' : Progress}
    (hp : p i = p₀) (hpost : t.deed.post ⟨s.store.users, p₀⟩ o r ⟨store.users, p'⟩) {is' : Set Bytes}
    {es' : List (Happening Operation Result)} (hes' : ∀ e ∈ es', e.id = i)
    (hlegal : Annotated service .empty (es ++ es') (store.service is'))
    (hevents : p'.Events i t.operation (eventsOf i es ++ es'))
    (hheld : ∀ j token, Function.update p i p' j = .holding token → token ∈ store.drawn ∧ token ∉ is' ∧
      ∀ k, Function.update p i p' k = .holding token → k = j)
    (hissued : ∀ token ∈ is', token ∈ store.drawn) {s' : Auth} (hstore : s'.store = store)
    (hrunning : s'.running = s.running.set i ⟨t, next r⟩) :
    s'.Explained (h ++ visible es') (es ++ es') is' (Function.update p i p') := by
  have hlt := (List.getElem?_eq_some_iff.mp hi).1
  subst hstore hp
  refine ⟨by rw [visible_append, hs.seen], hlegal, ?_, fun j k hk ↦ ?_, fun j hj ↦ ?_, hheld, hissued⟩
  · refine Keeps.mono (fun _ ↦ Task.deed_stable) (fun _ _ _ _ hv hp ↦ hv.2.symm.trans hp)
      (hs.keeps.call hi hpost hrunning) fun j ↦ ?_
    by_cases hj : j = i
    · rw [hj, Function.update_self, Function.update_self]
    · rw [Function.update_of_ne hj, Function.update_of_ne hj]
      exact ⟨fun u q hu ↦ Store.exec_users hexec hu, rfl⟩
  · rw [hrunning, List.getElem?_set] at hk
    by_cases hj : i = j
    · subst hj
      rw [if_pos rfl, if_pos hlt] at hk
      obtain rfl := Option.some.inj hk
      rw [Function.update_self, eventsOf_append_self hes']
      exact hevents
    · rw [if_neg hj] at hk
      rw [Function.update_of_ne (Ne.symm hj), eventsOf_append_of_ne (Ne.symm hj) hes']
      exact hs.events j k hk
  · rw [hrunning, List.length_set] at hj
    have hne : j ≠ i := by omega
    rw [Function.update_of_ne hne, eventsOf_append_of_ne hne hes']
    exact hs.later j hj

/-- The tokens that are held, when a worker has come to hold none. -/
theorem Explained.held_update (hs : s.Explained h es is p) {i : ℕ} {p' : Progress}
    (hp' : ∀ token, p' ≠ .holding token) {j : ℕ} {token : Bytes}
    (hj : Function.update p i p' j = .holding token) :
    j ≠ i ∧ token ∈ s.store.drawn ∧ token ∉ is ∧
      ∀ k, Function.update p i p' k = .holding token → k = j := by
  have hne : ∀ {k}, Function.update p i p' k = .holding token → k ≠ i := by
    rintro k hk rfl
    rw [Function.update_self] at hk
    exact hp' token hk
  have hji := hne hj
  rw [Function.update_of_ne hji] at hj
  obtain ⟨hdrawn, hnot, hunique⟩ := hs.held j token hj
  refine ⟨hji, hdrawn, hnot, fun k hk ↦ hunique k ?_⟩
  rwa [Function.update_of_ne (hne hk)] at hk

/-- A worker comes to the point of its operation. -/
theorem Explained.events_point (hs : s.Explained h es is p) {i : ℕ} {k : Worker}
    (hi : s.running[i]? = some k) (hp : p i = .fresh ∨ ∃ token, p i = .holding token) :
    eventsOf i es = [.seen (.invoke i k.task.operation)] := by
  have hevents := hs.events i k hi
  rcases hp with hp | ⟨token, hp⟩
  · rwa [hp] at hevents
  · rwa [hp] at hevents

/-- **A call that does not answer.** -/
theorem Explained.advance (hs : s.Explained h es is p) {i : ℕ} {t : Task} {o : Call}
    {next : Option o.Res → Job PUnit} (hi : s.running[i]? = some ⟨t, .call o next⟩) {store : Store}
    {r : Option o.Res} {out : Outcome} (hexec : s.store.exec o out = some (store, r)) {p' : Progress}
    {is' : Set Bytes} (hpost : t.deed.post ⟨s.store.users, p i⟩ o r ⟨store.users, p'⟩)
    (hadv : Advances t s.store is store (p i) is' p') {s' : Auth} (hstore : s'.store = store)
    (hrunning : s'.running = s.running.set i ⟨t, next r⟩) :
    ∃ es' is' p', s'.Explained h es' is' p' := by
  generalize hp : p i = p₀ at hadv hpost
  cases hadv with
  | stay hsame hdrawn =>
    have hupdate : Function.update p i p' = p := Function.update_eq_self_iff.mpr hp.symm
    have hevents := hs.events i _ hi
    refine ⟨es ++ [], is, Function.update p i p', ?_⟩
    rw [← List.append_nil h]
    refine hs.call hi hexec hp hpost (List.forall_mem_nil _) ?_ ?_ ?_ ?_ hstore hrunning
    · rw [List.append_nil, hsame]
      exact hs.legal
    · rw [List.append_nil]
      exact hp ▸ hevents
    · rw [hupdate, hdrawn]
      exact hs.held
    · rw [hdrawn]
      exact hs.issued
  | @draw token hsame hnew hdrawn =>
    have hmem : ∀ {token'}, token' ∈ s.store.drawn → token' ∈ store.drawn ∧ token' ≠ token := by
      intro token' htoken
      rw [hdrawn]
      exact ⟨List.mem_cons_of_mem _ htoken, fun e ↦ hnew (e ▸ htoken)⟩
    refine ⟨es ++ [], is, Function.update p i (.holding token), ?_⟩
    rw [← List.append_nil h]
    refine hs.call hi hexec hp hpost (List.forall_mem_nil _) ?_ ?_ (fun j token' hj ↦ ?_)
      (fun token' h' ↦ ?_) hstore hrunning
    · rw [List.append_nil, hsame]
      exact hs.legal
    · rw [List.append_nil]
      exact hs.events_point hi (.inl hp)
    · by_cases hji : j = i
      · -- the new token: nobody has had it before
        subst hji
        obtain rfl : token = token' := by simpa using hj
        refine ⟨by simp [hdrawn], fun h' ↦ (hmem (hs.issued token h')).2 rfl, fun k hk ↦ ?_⟩
        by_contra hkj
        rw [Function.update_of_ne hkj] at hk
        exact (hmem (hs.held k token hk).1).2 rfl
      · rw [Function.update_of_ne hji] at hj
        obtain ⟨h₁, h₂, h₃⟩ := hs.held j token' hj
        refine ⟨(hmem h₁).1, h₂, fun k hk ↦ ?_⟩
        by_cases hki : k = i
        · subst hki
          obtain rfl : token = token' := by simpa using hk
          exact absurd rfl (hmem h₁).2
        · rw [Function.update_of_ne hki] at hk
          exact h₃ k hk
    · exact (hmem (hs.issued token' h')).1
  | @settle result hdoes hdrawn =>
    have hinvoked := hs.events_point hi (.inl hp)
    refine ⟨es ++ [.point i t.operation result], is, Function.update p i (.settled result), ?_⟩
    rw [← List.append_nil h]
    refine hs.call hi hexec hp hpost (by simp) (hs.legal.point hinvoked (.inl hdoes)) ?_
      (fun j token hj ↦ ?_) ?_ hstore hrunning
    · rw [hinvoked]
      rfl
    · rw [hdrawn]
      exact (hs.held_update (by simp) hj).2
    · rw [hdrawn]
      exact hs.issued
  | @opens token hdoes hdrawn =>
    have hinvoked := hs.events_point hi (.inr ⟨token, hp⟩)
    refine ⟨es ++ [.point i t.operation ⟨200, loginJson token⟩], insert token is,
      Function.update p i (.settled ⟨200, loginJson token⟩), ?_⟩
    rw [← List.append_nil h]
    refine hs.call hi hexec hp hpost (by simp) (hs.legal.point hinvoked (.inl hdoes)) ?_
      (fun j token' hj ↦ ?_) (fun token' h' ↦ ?_) hstore hrunning
    · rw [hinvoked]
      rfl
    · obtain ⟨hji, h₁, h₂, h₃⟩ := hs.held_update (by simp) hj
      rw [Function.update_of_ne hji] at hj
      have hne : token' ≠ token := by
        rintro rfl
        exact hji ((hs.held i token' hp).2.2 j hj)
      exact ⟨hdrawn ▸ h₁, by simp [hne, h₂], h₃⟩
    · rw [hdrawn]
      rcases h' with rfl | h'
      · exact (hs.held i token' hp).1
      · exact hs.issued token' h'

/-- **The call that answers.** -/
theorem Explained.send (hs : s.Explained h es is p) {i : ℕ} {t : Task} {statusCode : ℕ} {body : Bytes}
    {next : Option PUnit → Job PUnit}
    (hi : s.running[i]? = some ⟨t, .call (.send statusCode body) next⟩) {store : Store}
    {r : Option PUnit} {out : Outcome}
    (hexec : s.store.exec (.send statusCode body) out = some (store, r)) {s' : Auth}
    (hstore : s'.store = store) (hrunning : s'.running = s.running.set i ⟨t, next r⟩) :
    ∃ es' is' p', s'.Explained (h ++ [.respond i ⟨statusCode, body⟩]) es' is' p' := by
  obtain ⟨rfl, hr⟩ : store = s.store ∧ r ≠ none := by
    cases out <;> cases hexec
    exact ⟨rfl, by simp⟩
  have hcan : (p i).CanSend ⟨statusCode, body⟩ := (hs.keeps i _ hi).1
  have hpost : t.deed.post ⟨s.store.users, p i⟩ (.send statusCode body) r ⟨s.store.users, .answered⟩ :=
    ⟨fun _ _ hu ↦ hu, hr, rfl⟩
  have hcall : ∀ es' : List (Happening Operation Result), (∀ e ∈ es', e.id = i) →
      Annotated service .empty (es ++ es') (s.store.service is) →
      s'.Explained (h ++ visible es') (es ++ es') is (Function.update p i .answered) :=
    fun es' hes' hlegal ↦ hs.call hi hexec rfl hpost hes' hlegal trivial
      (fun j token hj ↦ (hs.held_update (by simp) hj).2) hs.issued hstore hrunning
  -- a task that has decided nothing fails, and does so here
  have hfailure : (p i = .fresh ∨ ∃ token, p i = .holding token) →
      (⟨statusCode, body⟩ : Result) ∈ Result.failures →
      ∃ es' is' p', s'.Explained (h ++ [.respond i ⟨statusCode, body⟩]) es' is' p' := by
    intro hp hfailure
    have hinvoked := hs.events_point hi hp
    have hlegal := hs.legal.point hinvoked (does_failure hfailure _ _)
    have hpending : eventsOf i (es ++ [.point i t.operation ⟨statusCode, body⟩]) =
        [.seen (.invoke i t.operation), .point i t.operation ⟨statusCode, body⟩] := by
      rw [eventsOf_append_self (by simp), hinvoked]
      rfl
    have hlegal := hlegal.respond hpending (.refl _)
    rw [List.append_assoc] at hlegal
    exact ⟨_, _, _, hcall _ (by simp) hlegal⟩
  cases hp : p i with
  | fresh =>
    rw [hp] at hcan
    exact hfailure (.inl hp) hcan
  | holding token =>
    rw [hp] at hcan
    exact hfailure (.inr ⟨token, hp⟩) hcan
  | settled r' =>
    have hevents := hs.events i _ hi
    rw [hp] at hevents hcan
    refine ⟨_, _, _, hcall [.seen (.respond i ⟨statusCode, body⟩)] (by simp) ?_⟩
    refine hs.legal.respond hevents ?_
    rcases hcan with e | hfailure
    · rw [e]
      exact .refl _
    · exact covers_failure hfailure
  | answered =>
    rw [hp] at hcan
    exact absurd hcan id

end Step

/-- What holds along a legible run. -/
structure Explains (s : Auth) (h : List (Seen Operation Result)) : Prop where
  inv : s.Inv
  named : ∀ i ∈ s.issued, i.username ≠ []
  exact : ∀ k ∈ s.running, k.task.Exact
  explained : ∃ es is p, s.Explained h es is p

/-- The tokens a task issues are for a user with a name. -/
theorem username_ne_nil_of_mem_issues {t : Task} (ht : t.Exact) {o : Call} {r : Option o.Res} {i : Issue}
    (hi : i ∈ t.issues o r) : i.username ≠ [] := by
  unfold Task.issues at hi
  split at hi
  · rw [List.mem_singleton.mp hi]
    exact ht.2
  · exact absurd hi List.not_mem_nil

/-- So nobody's session is without one. -/
theorem Explains.session_ne_nil {s : Auth} {h : List (Seen Operation Result)} (hs : s.Explains h)
    (token value : Bytes) (hvalue : s.store.redis (lit "session:" ++ token) = some value) :
    value ≠ [] := by
  obtain ⟨password, hissued, -⟩ := (hs.inv.fits.redis _ _ hvalue).session
  exact hs.named _ hissued

theorem Explains.step {s : Auth} {h : List (Seen Operation Result)} {m : Move} (hs : s.Explains h)
    (hm : s.Legible m) : (s.step m).Explains (h ++ s.seen m) := by
  have hinv := hs.inv.step hm.clean
  obtain ⟨es, is, p, hexplained⟩ := hs.explained
  cases m with
  | start t =>
    refine ⟨hinv, hs.named, fun k hk ↦ ?_, _, _, _, hexplained.start hm⟩
    rcases List.mem_append.mp hk with hk | hk
    · exact hs.exact k hk
    · rw [List.mem_singleton.mp hk]
      exact hm
  | expire key => exact ⟨hinv, hs.named, hs.exact, _, _, _, hexplained.expire key⟩
  | call i out =>
    rw [show s.seen (.call i out) = (s.reply (.call i out)).map Reply.seen from rfl]
    rcases s.move_cases (.call i out) with ⟨t, e⟩ | ⟨key, e⟩ | ⟨e, hreply⟩ |
      ⟨i', out', t, o, next, store, r, hcall, hi, hexec, hreply, e⟩
    · exact absurd e (by simp)
    · exact absurd e (by simp)
    · rw [e, hreply, List.map_nil, List.append_nil]
      exact hs
    obtain ⟨rfl, rfl⟩ : i = i' ∧ out = out' := by simpa using hcall
    have ht : t.Exact := hs.exact _ (List.mem_of_getElem? hi)
    have hread : o.isMisread out = false := hm o (by simp [nextCall, hi])
    refine ⟨hinv, ?_, ?_, ?_⟩
    · rw [e]
      intro issue hissue
      rcases List.mem_append.mp hissue with hissue | hissue
      · exact hs.named _ hissue
      · exact username_ne_nil_of_mem_issues ht hissue
    · rw [e]
      intro k hk
      rcases List.mem_or_eq_of_mem_set hk with hk | rfl
      · exact hs.exact k hk
      · exact ht
    rw [hreply]
    by_cases hsend : o.isSend = true
    · cases o with
      | send statusCode body => exact hexplained.send hi hexec (by rw [e]) (by rw [e])
      | _ => exact absurd hsend (by simp [Call.isSend])
    · have hnone : (o.reply i).map Reply.seen = [] := by
        cases o with
        | send statusCode body => exact absurd rfl hsend
        | _ => rfl
      obtain ⟨is', p', hpost, hadv⟩ := Store.exec_deed hs.inv.fits hs.session_ne_nil
        (fun token hp ↦ (hexplained.held i token hp).2.1) (hexplained.keeps i _ hi).1 hexec hread
        (by simpa using hsend)
      rw [hnone, List.append_nil]
      exact hexplained.advance hi hexec hpost hadv (by rw [e]) (by rw [e])

theorem explains_start : start.Explains [] where
  inv := inv_start
  named i hi := absurd hi (by simp [start])
  exact k hk := absurd hk (by simp [start])
  explained := ⟨_, _, _, explained_start⟩

end Auth

/-- A legible run can be explained. -/
theorem exists_explained {ms : List Move} (h : Meets Auth.step Auth.Legible Auth.start ms) :
    ∃ es is p, (Auth.start.run ms).Explained (Auth.start.history ms) es is p := by
  have hexplains : (ms.foldl Auth.step Auth.start).Explains ([] ++ Auth.start.history ms) :=
    h.trace_invariant (fun _ _ _ hs hm ↦ hs.step hm) Auth.explains_start
  exact hexplains.explained

/-- It has points then. -/
theorem exists_annotated {ms : List Move} (h : Meets Auth.step Auth.Legible Auth.start ms) :
    ∃ es s, Annotated service .empty es s ∧ visible es = Auth.start.history ms := by
  obtain ⟨es, is, p, hexplained⟩ := exists_explained h
  exact ⟨es, _, hexplained.legal, hexplained.seen⟩

/-- **The database pool is linearizable**, in every run of tasks that are exact, in which no failure is
misread and no token is drawn twice. -/
theorem history_linearizable {ms : List Move} (h : Meets Auth.step Auth.Legible Auth.start ms) :
    Linearizable service .empty (Auth.start.history ms) := by
  obtain ⟨es, s, hlegal, hseen⟩ := exists_annotated h
  rw [← hseen]
  exact hlegal.linearizable

/-- Two clients register one name at the same time, call by call in turns. -/
def Move.rivals (username : Bytes) : List Move :=
  .start (.register 7 true username (lit "one")) :: .start (.register 8 true username (lit "two")) ::
    [.handle 0, .served, .served, .served, .served].flatMap fun out ↦ [.call 0 out, .call 1 out]

/-- Both find the name free; one of them gets it, and the other is told of a database error. -/
theorem history_linearizable_rivals :
    Meets Auth.step Auth.Legible Auth.start (Move.rivals (lit "bob")) ∧
      Auth.start.history (Move.rivals (lit "bob")) =
        [.invoke 0 (.register (lit "bob") (lit "one")), .invoke 1 (.register (lit "bob") (lit "two")),
          .respond 0 (.message 200 "register success"), .respond 1 (.error 500 "database error")] ∧
      Linearizable service .empty (Auth.start.history (Move.rivals (lit "bob"))) := by
  have hlegible : Meets Auth.step Auth.Legible Auth.start (Move.rivals (lit "bob")) := by
    decide +kernel
  exact ⟨hlegible, by decide +kernel, history_linearizable hlegible⟩

end ReactorServer
