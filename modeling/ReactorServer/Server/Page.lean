import ReactorServer.Server.Refine
import ReactorServer.Server.Wishes

/-!
# The name on the page

The page logs in, keeps the token of the answer, and shows the name that it gets for it.  The name it
shows is the one it has logged in with, whatever other clients do at the same time (`page_shows_name`).

That follows from the order in which the operations can be thought of.  A token is new when a session is
opened for it, and afterwards its session is that of the user who logged in, or none (`Owned`).  The
rest is a matter of formats: the token gets out of one JSON text, and the name out of another.
-/

set_option autoImplicit false

namespace ReactorServer

open Machine Concurrent
open JsonText (decodeObject object)

/-! ## Whose session it is -/

/-- What an order of operations, carried out one by one, says of the tokens: one that has been handed
out has been issued, and its session is that of the user who was given it; and so is one for which a
name has been shown. -/
structure Owned (seq : List (ℕ × Operation × Result)) (s : Service) : Prop where
  sessions : ∀ t u, s.sessions t = some u → t ∈ s.issued
  logins : ∀ i u p b, (i, .login u p, ⟨200, b⟩) ∈ seq → ∃ t, b = loginJson t ∧ t ∈ s.issued ∧
    ∀ v, s.sessions t = some v → v = u
  profiles : ∀ j t b, (j, .profile t, ⟨200, b⟩) ∈ seq → ∃ v, b = profileJson v ∧ t ∈ s.issued ∧
    ∀ i u p, (i, .login u p, ⟨200, loginJson t⟩) ∈ seq → v = u

theorem loginJson_injective {t t' : Bytes} (h : loginJson t = loginJson t') : t = t' := by
  rw [loginJson, loginJson, List.append_cancel_right_eq, List.append_cancel_left_eq] at h
  exact h

/-- An error is none of the answers that carry something. -/
theorem not_mem_failures (b : Bytes) : (⟨200, b⟩ : Result) ∉ Result.failures := by
  simp [Result.failures, Result.error]

namespace Service

variable {s s' s'' : Service} {seq : List (ℕ × Operation × Result)}

/-- How the service can change: it forgets sessions, or a login opens one for a new token. -/
structure Keeps (s s' : Service) : Prop where
  issued : s.issued ⊆ s'.issued
  sessions : ∀ t u, s'.sessions t = some u → s.sessions t = some u ∨ t ∉ s.issued ∧ t ∈ s'.issued

theorem Keeps.refl (s : Service) : s.Keeps s := ⟨subset_rfl, fun _ _ h ↦ .inl h⟩

theorem keeps_forget (s : Service) (t : Bytes) :
    s.Keeps { s with sessions := Function.update s.sessions t none } := by
  refine ⟨subset_rfl, fun t' u h ↦ .inl ?_⟩
  change Function.update s.sessions t none t' = some u at h
  by_cases ht : t' = t
  · subst ht
    simp at h
  · rwa [Function.update_of_ne ht] at h

theorem Answers.keeps {op : Operation} {r : Result} (h : s.Answers op r s') : s.Keeps s' := by
  cases h with
  | @loggedIn u p t huser hnew =>
    refine ⟨Set.subset_insert _ _, fun t' v h ↦ ?_⟩
    by_cases ht : t' = t
    · subst ht
      exact .inr ⟨hnew, Set.mem_insert _ _⟩
    · left
      change Function.update s.sessions t (some u) t' = some v at h
      rwa [Function.update_of_ne ht] at h
  | loggedOut => exact keeps_forget ..
  | registered => exact ⟨subset_rfl, fun _ _ h ↦ .inl h⟩
  | _ => exact .refl s

theorem Does.keeps {op : Operation} {r : Result} (h : s.Does op r s') : s.Keeps s' := by
  rcases h with h | ⟨-, rfl | ⟨r', h⟩⟩
  · exact h.keeps
  · exact .refl _
  · exact h.keeps

/-- A login that is told so has opened a session for a new token. -/
theorem Does.login_ok {u p b : Bytes} (h : s.Does (.login u p) ⟨200, b⟩ s') :
    ∃ t, b = loginJson t ∧ t ∉ s.issued ∧ t ∈ s'.issued ∧ s'.sessions t = some u := by
  have hanswers := h.resolve_right fun hfailed ↦ not_mem_failures b hfailed.1
  generalize hr : (⟨200, b⟩ : Result) = r at hanswers
  rcases hanswers with _ | _ | @⟨-, -, t, huser, hnew⟩ | _ | _
  · exact ⟨t, (Result.mk.inj hr).2, hnew, Set.mem_insert _ _, Function.update_self ..⟩
  all_goals exact absurd (Result.mk.inj hr).1 (by decide)

/-- A name that is shown is that of the session. -/
theorem Does.profile_ok {t b : Bytes} (h : s.Does (.profile t) ⟨200, b⟩ s') :
    ∃ v, b = profileJson v ∧ s.sessions t = some v := by
  have hanswers := h.resolve_right fun hfailed ↦ not_mem_failures b hfailed.1
  generalize hr : (⟨200, b⟩ : Result) = r at hanswers
  cases hanswers with
  | shown hsession => exact ⟨_, (Result.mk.inj hr).2, hsession⟩
  | notShown => exact absurd (Result.mk.inj hr).1 (by decide)

end Service

theorem owned_empty : Owned [] .empty :=
  ⟨nofun, nofun, nofun⟩

/-- What has been handed out and shown so far stays right. -/
theorem Owned.keeps {seq : List (ℕ × Operation × Result)} {s s' : Service} (h : Owned seq s)
    (hs : s.Keeps s') : Owned seq s' where
  sessions t u hu := by
    rcases hs.sessions t u hu with hu | ⟨-, ht⟩
    · exact hs.issued (h.sessions t u hu)
    · exact ht
  logins i u p b hmem := by
    obtain ⟨t, hb, hissued, howner⟩ := h.logins i u p b hmem
    refine ⟨t, hb, hs.issued hissued, fun v hv ↦ ?_⟩
    rcases hs.sessions t v hv with hv | ⟨hnew, -⟩
    · exact howner v hv
    · exact absurd hissued hnew
  profiles j t b hmem := by
    obtain ⟨v, hb, hissued, howner⟩ := h.profiles j t b hmem
    exact ⟨v, hb, hs.issued hissued, howner⟩

/-- One more operation. -/
theorem Owned.does {seq : List (ℕ × Operation × Result)} {s s' : Service} (h : Owned seq s) (i : ℕ)
    {op : Operation} {r : Result} (hdoes : s.Does op r s') : Owned (seq ++ [(i, op, r)]) s' := by
  have hkept := h.keeps hdoes.keeps
  have hmem : ∀ {e : ℕ × Operation × Result}, e ∈ seq ++ [(i, op, r)] → e ∈ seq ∨ e = (i, op, r) := by
    intro e he
    simpa using he
  -- a login that comes now is given a token that has not been issued before
  have hlate : ∀ {i' u p t}, (i', .login u p, ⟨200, loginJson t⟩) ∈ seq ++ [(i, op, r)] →
      t ∈ s.issued → (i', .login u p, ⟨200, loginJson t⟩) ∈ seq := by
    intro i' u p t hlogin hissued
    rcases hmem hlogin with hlogin | hlogin
    · exact hlogin
    · obtain ⟨rfl, rfl, rfl⟩ : i' = i ∧ .login u p = op ∧ ⟨200, loginJson t⟩ = r := by
        simpa using hlogin
      obtain ⟨t', ht', hnew, -⟩ := hdoes.login_ok
      exact absurd (loginJson_injective ht' ▸ hissued) hnew
  refine ⟨hkept.sessions, fun i' u p b hlogin ↦ ?_, fun j t b hprofile ↦ ?_⟩
  · rcases hmem hlogin with hlogin | hlogin
    · exact hkept.logins i' u p b hlogin
    · obtain ⟨rfl, rfl, rfl⟩ : i' = i ∧ .login u p = op ∧ ⟨200, b⟩ = r := by simpa using hlogin
      obtain ⟨t, rfl, -, hissued, hsession⟩ := hdoes.login_ok
      exact ⟨t, rfl, hissued, fun v hv ↦ Option.some.inj (hv.symm.trans hsession)⟩
  · rcases hmem hprofile with hprofile | hprofile
    · obtain ⟨v, rfl, hissued, howner⟩ := h.profiles j t b hprofile
      exact ⟨v, rfl, hdoes.keeps.issued hissued, fun i' u p hlogin ↦
        howner i' u p (hlate hlogin hissued)⟩
    · obtain ⟨rfl, rfl, rfl⟩ : j = i ∧ .profile t = op ∧ ⟨200, b⟩ = r := by simpa using hprofile
      obtain ⟨v, rfl, hsession⟩ := hdoes.profile_ok
      have hissued := h.sessions t v hsession
      refine ⟨v, rfl, hdoes.keeps.issued hissued, fun i' u p hlogin ↦ ?_⟩
      obtain ⟨t', ht', -, howner⟩ := h.logins i' u p _ (hlate hlogin hissued)
      exact howner v (loginJson_injective ht' ▸ hsession)

/-- **Every order in which the service could have carried out operations.** -/
theorem Owned.runs {seq : List (ℕ × Operation × Result)} {s : Service}
    (h : service.Runs .empty seq s) : Owned seq s := by
  induction h with
  | nil => exact owned_empty
  | op hruns i hdoes ih => exact ih.does i hdoes
  | drift hruns hdrift ih =>
    obtain ⟨t, rfl⟩ := hdrift
    exact ih.keeps (Service.keeps_forget ..)

/-! ## The tokens -/

/-- A token as `generateToken` makes them. -/
def Drawn (t : Bytes) : Prop := t.length = kTokenLen ∧ ∀ b ∈ t, b ∈ Store.charset

theorem Store.exec_forall_drawn {s s' : Store} {o : Call} {out : Outcome} {r : Option o.Res}
    (h : s.exec o out = some (s', r)) (hs : ∀ t ∈ s.drawn, Drawn t) : ∀ t ∈ s'.drawn, Drawn t := by
  rcases exec_store h with rfl | ⟨conn, cmd, -, rfl⟩ | ⟨conn, sql, -, rfl⟩ | ⟨token, -, hdraw, rfl⟩
  · exact hs
  · rwa [redisRun_drawn]
  · rcases s.mysqlQuery_cases sql with e | ⟨user, pass, -, -, e⟩
    all_goals rwa [e]
  · rw [canDraw, Bool.and_eq_true, Bool.and_eq_true, List.all_eq_true] at hdraw
    refine List.forall_mem_cons.mpr ⟨⟨by simpa using hdraw.1.1, fun b hb ↦ ?_⟩, hs⟩
    simpa using hdraw.1.2 b hb

theorem Auth.forall_drawn (ms : List Move) : ∀ t ∈ (start.run ms).store.drawn, Drawn t := by
  have hmeets : Meets step (fun _ _ ↦ True) start ms := meets_of_forall (fun _ _ _ ↦ trivial) _
  refine hmeets.invariant (I := fun s ↦ ∀ t ∈ s.store.drawn, Drawn t) (fun s m hs _ ↦ ?_) nofun
  rcases s.move_cases m with ⟨t, rfl⟩ | ⟨key, rfl⟩ | ⟨e, -⟩ | ⟨i, out, t, o, next, store, r, -, -, hexec,
    -, e⟩
  · exact hs
  · exact hs
  · rwa [e]
  · rw [e]
    exact Store.exec_forall_drawn hexec hs

theorem Drawn.plain {t : Bytes} (h : Drawn t) : ∀ b ∈ t, ¬ b < 32 ∧ b ≠ 34 ∧ b ≠ 92 := by
  have hcharset : ∀ b ∈ Store.charset, ¬ b < 32 ∧ b ≠ 34 ∧ b ≠ 92 := by decide +kernel
  exact fun b hb ↦ hcharset b (h.2 b hb)

/-- It can be sent as it is. -/
theorem Drawn.fine {t : Bytes} (h : Drawn t) : (Wish.profile t).Fine := by
  have hcharset : ∀ b ∈ Store.charset, b ≠ 32 ∧ b ≠ 9 ∧ b ≠ 13 ∧ b ≠ 10 := by decide +kernel
  have hne : t ≠ [] := by
    rintro rfl
    exact absurd h.1 (by decide)
  have htoken : IsToken t := ⟨hne, by rw [h.1]; decide, fun b hb ↦ hcharset b (h.2 b hb)⟩
  exact ⟨hne, htoken.trimmed⟩

/-! ## What the page reads -/

/-- A member of the object that `api` makes of a response: with `JSON.parse` the last one of a name
counts. -/
def field (name : String) (body : Bytes) : Option Bytes :=
  (decodeObject body).bind fun ms ↦ ms.reverse.lookup (lit name)

/-- The token is got out of the answer to a login. -/
theorem field_loginJson {t : Bytes} (h : Drawn t) : field "token" (loginJson t) = some t := by
  have htext : loginJson t =
      object [(lit "message", lit "login success"), (lit "token", t)] := by
    simp only [loginJson, object, JsonText.member, List.map_cons, List.map_nil,
      List.intercalate_cons_cons, List.intercalate_singleton, List.append_assoc, List.cons_append,
      List.nil_append]
    rfl
  have hmessage : JsonText.ReadsMember (lit "message", lit "login success")
      (lit "message", lit "login success") :=
    ⟨JsonText.reads_of_plain (by decide +kernel), JsonText.reads_of_plain (by decide +kernel)⟩
  have htoken : JsonText.ReadsMember (lit "token", t) (lit "token", t) :=
    ⟨JsonText.reads_of_plain (x := lit "token") (by decide +kernel), JsonText.reads_of_plain h.plain⟩
  rw [field, htext, JsonText.decodeObject_object (.cons hmessage (.cons htoken .nil))]
  rfl

/-- The name is got out of a profile. -/
theorem field_profileJson (username : Bytes) :
    field "username" (profileJson username) = some username := by
  have husername : JsonText.ReadsMember (lit "username", jsonEscape username)
      (lit "username", username) := ⟨reads_key (.inl rfl), reads_jsonEscape username⟩
  rw [field, profileJson_eq, JsonText.decodeObject_object (.cons husername .nil)]
  rfl

/-- The operation is in the order as it has been seen. -/
theorem mem_settled {es : List (Happening Operation Result)} {s : Service} {i : ℕ} {op : Operation}
    {r : Result} (h : Annotated service .empty es s) (hop : .invoke i op ∈ visible es)
    (hr : .respond i r ∈ visible es) : (i, op, r) ∈ (points es).map (settled es) := by
  obtain ⟨op', hmem⟩ := h.linearization.responded i r hr
  have hop' := h.linearization.invoked i op' r hmem
  obtain rfl : op' = op := (h.course i).invoke_unique (mem_eventsOf (mem_visible.mp hop'))
    (mem_eventsOf (mem_visible.mp hop))
  exact hmem

/-- **The page shows the name it has logged in with.**  From the answer to a login it gets a token that
can be sent as one, and whenever it is shown a name for that token, it is that of the login. -/
theorem page_shows_name {file : Option Bytes} {ls : List Label} {i : ℕ} {user password body : Bytes}
    (h : Meets (Sys.step file) Sys.Legible Sys.start ls)
    (hlogin : .invoke i (.login user password) ∈ Desk.history file ls)
    (hanswer : .respond i ⟨200, body⟩ ∈ Desk.history file ls) :
    ∃ token, field "token" body = some token ∧ (Wish.profile token).Fine ∧
      ∀ j shown, .invoke j (.profile token) ∈ Desk.history file ls →
        .respond j ⟨200, shown⟩ ∈ Desk.history file ls → field "username" shown = some user := by
  obtain ⟨ms, hms, -, hhistory⟩ := Desk.refines_start.run (Desk.meets_legible h)
  obtain ⟨es, issued, p, hexplained⟩ := exists_explained hms
  rw [Desk.history, hhistory, ← hexplained.seen] at hlogin hanswer ⊢
  have howned := Owned.runs hexplained.legal.runs_settled
  have hmem := mem_settled hexplained.legal hlogin hanswer
  obtain ⟨token, rfl, hissued, -⟩ := howned.logins _ _ _ _ hmem
  have hdrawn := Auth.forall_drawn ms token (hexplained.issued token hissued)
  refine ⟨token, field_loginJson hdrawn, hdrawn.fine, fun j shown hprofile hshown ↦ ?_⟩
  obtain ⟨v, rfl, -, howner⟩ := howned.profiles _ _ _
    (mem_settled hexplained.legal hprofile hshown)
  rw [howner _ _ _ hmem, field_profileJson]

/-- The token that the client of the run below is given. -/
def bobToken : Bytes := lit "0123456789abcdefghijklmnopqrstuv"

/-- A client registers. -/
def Label.registers : List Label :=
  [.accept 7 0, .insert, .event 0 (.readable 0
    [.got (lit "POST /register HTTP/1.1\r\nContent-Length: 34\r\n\r\n\x7b\"username\":\"bob\",\"password\":\"pw\"\x7d")]
    ⟨[], []⟩)] ++ List.replicate 8 (.act 0) ++
  [.take 0, .call 0 (.handle 0), .call 0 .served, .call 0 .served, .write 0 (.took 10),
    .write 0 (.fail .EINTR), .write 0 (.took 1000), .call 0 .served]

/-- A client registers, logs in and asks for its profile with the token; its entry in the cache is
refused, and that changes nothing. -/
def Label.logsIn : List Label :=
  Label.registers ++
  .event 0 (.readable 1 [.got bobLogin.serialise] ⟨[], []⟩) :: List.replicate 8 (.act 0) ++
  [.take 1, .call 1 (.handle 0), .call 1 .served, .call 1 .served, .call 1 (.handle 0),
    .call 1 .served, .call 1 .refused, .call 1 .served, .call 1 (.token bobToken),
    .call 1 (.handle 1), .call 1 .served, .call 1 .served, .write 1 (.took 1000)] ++
  .event 0 (.readable 2 [.got (lit "GET /profile HTTP/1.1\r\nAuthorization: Bearer " ++ bobToken ++
    crlf2)] ⟨[], []⟩) :: List.replicate 8 (.act 0) ++
  [.take 2, .call 2 (.handle 0), .call 2 .served, .call 2 .served, .write 2 (.took 1000)]

theorem page_shows_name_logsIn :
    ∃ token, field "token" (loginJson bobToken) = some token ∧ (Wish.profile token).Fine ∧
      ∀ j shown, .invoke j (.profile token) ∈ Desk.history none Label.logsIn →
        .respond j ⟨200, shown⟩ ∈ Desk.history none Label.logsIn →
          field "username" shown = some (lit "bob") := by
  have hlegible : Meets (Sys.step none) Sys.Legible Sys.start Label.logsIn := by decide +kernel
  have hlogin : .invoke 1 (.login (lit "bob") (lit "pw")) ∈ Desk.history none Label.logsIn := by
    decide +kernel
  have hanswer : .respond 1 ⟨200, loginJson bobToken⟩ ∈ Desk.history none Label.logsIn := by
    decide +kernel
  exact page_shows_name hlegible hlogin hanswer

end ReactorServer
