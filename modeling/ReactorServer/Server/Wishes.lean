import ReactorServer.Server.Cases
import ReactorServer.Framing.RoundTrip
import ReactorServer.Db.Bodies
import ReactorServer.Http.Bearer

/-!
# What the page asks for

`static/index.html` is the other end of the four routes.  Its functions pass a method, a path, and a
body or a token to `api`, and `api` hands them to `fetch`.  What the browser makes of that is a request,
with headers of its own, and the network cuts the requests into pieces.

On the other side they go through the request loop, the route and the scanners of the handlers, and in
the end a task is submitted.  `page_requests_submitted` says when that is the task that was meant: the
credentials have nothing to escape in them, since `getJsonValue` does not undo an escape, and are within
the limits, and a token has no blank at its end.
-/

set_option autoImplicit false

namespace ReactorServer

open Search
open JsonText (quote utf8 Plain)

/-! ## What the page asks for -/

/-- What a user wants of the page: `submitAuth` in its two modes, `loadProfile` and `logout`. -/
inductive Wish where
  | register (username password : List Char)
  | login (username password : List Char)
  | profile (token : Bytes)
  | logout (token : Bytes)
  deriving DecidableEq, Repr

namespace Wish

/-- The method that is passed to `api`. -/
def method : Wish → Bytes
  | .register .. | .login .. | .logout _ => lit "POST"
  | .profile _ => lit "GET"

/-- The path that is passed to `api`. -/
def path : Wish → Bytes
  | .register .. => lit "/register"
  | .login .. => lit "/login"
  | .profile _ => lit "/profile"
  | .logout _ => lit "/logout"

/-- The body that `api` makes, empty for `undefined`. -/
def body : Wish → Bytes
  | .register username password | .login username password => credentialsJson username password
  | .profile _ | .logout _ => []

/-- The token that is passed to `api`. -/
def token : Wish → Option Bytes
  | .register .. | .login .. => none
  | .profile token | .logout token => some token

/-- A request that `fetch` may make of it: there is an `Authorization` header for the token, and the
other headers are up to the browser. -/
structure SentAs (w : Wish) (r : HttpRequest) : Prop where
  method : r.method = w.method
  path : r.url = w.path
  body : r.body = w.body
  authorization : ∀ t ∈ w.token, ∃ line, FirstAuthorization r.lines line ∧ BearerLine 1 t line

/-- The task that it should come to. -/
def task (fd : ℕ) : Wish → Task
  | .register username password => .register fd true (utf8 username) (utf8 password)
  | .login username password => .login fd true (utf8 username) (utf8 password)
  | .profile token => .profile fd true token
  | .logout token => .logout fd true token

/-- There is nothing to escape in the credentials, and they are accepted; or there is nothing to trim
off the token. -/
def Fine : Wish → Prop
  | .register username password | .login username password =>
    (∀ c ∈ username, Plain c) ∧ (∀ c ∈ password, Plain c) ∧
      checkCredentials (utf8 username) (utf8 password) = none
  | .profile token | .logout token => token ≠ [] ∧ Trimmed token

end Wish

/-! ## What the handlers read in it -/

theorem getJsonValue_username_iff {username password : List Char} :
    getJsonValue (credentialsJson username password) (lit "username") = utf8 username ↔
      ∀ c ∈ username, Plain c := by
  rw [credentialsJson_eq]
  refine getJsonValue_eq_utf8_iff ?_
  rw [indexOf_keyPattern_append (by decide), indexOf_self_append]
  rfl

theorem getJsonValue_password_iff {username password : List Char} (h : ∀ c ∈ username, Plain c) :
    getJsonValue (credentialsJson username password) (lit "password") = utf8 password ↔
      ∀ c ∈ password, Plain c := by
  have hno : 34 ∉ quote username := by
    rw [JsonText.quote_eq_utf8_iff.mpr h]
    exact fun hin ↦ (h _ (JsonText.mem_utf8_iff.mp hin)).1 rfl
  have key := getJsonValue_eq_utf8_iff (t := [125]) (indexOf_password hno (quote password ++ [34, 125]))
  simpa only [credentialsJson_eq, List.append_assoc, List.cons_append, List.nil_append] using key

/-- The text in front of the blank line is the header block. -/
theorem headerSection_serialise (r : HttpRequest) : headerSection r.serialise = r.head := by
  have hblank := r.indexOf_crlf2_serialise []
  rw [List.append_nil] at hblank
  rw [headerSection, hblank]
  exact List.take_left

/-- The first `Authorization` line is found behind the request line. -/
theorem firstAuthorization_serialise {r : HttpRequest} {line : Bytes}
    (h : FirstAuthorization r.lines line) :
    FirstAuthorization (splitLines (headerSection r.serialise)) line := by
  obtain ⟨hfield, before, after, hlines, hbefore⟩ := h
  rw [headerSection_serialise, HttpRequest.head,
    splitLines_joinLines (List.cons_ne_nil _ _) fun _ hl ↦ (r.isLine_of_mem hl).no_break]
  refine ⟨hfield, requestLine r.method r.url :: before, after, by rw [hlines]; rfl, ?_⟩
  exact List.forall_mem_cons.mpr ⟨r.not_isField_requestLine (by decide), hbefore⟩

theorem parseBearerToken_serialise_iff {r : HttpRequest} {line t : Bytes}
    (h : FirstAuthorization r.lines line) (hline : BearerLine 1 t line) (hne : t ≠ []) :
    parseBearerToken r.serialise = t ↔ Trimmed t := by
  rw [parseBearerToken_eq_iff hne]
  exact and_iff_left ⟨line, firstAuthorization_serialise h, hline⟩

/-! ## The tasks -/

/-- The tasks that are submitted, in order. -/
def submissions (acts : List Act) : List Task :=
  acts.filterMap fun
    | .submit t => some t
    | _ => none

@[simp] theorem submissions_append (as bs : List Act) :
    submissions (as ++ bs) = submissions as ++ submissions bs := List.filterMap_append

theorem submissions_eq_nil {acts : List Act} (h : ∀ t, .submit t ∉ acts) : submissions acts = [] := by
  refine List.filterMap_eq_nil_iff.mpr fun a ha ↦ ?_
  cases a with
  | submit t => exact absurd ha (h t)
  | _ => rfl

@[simp] theorem submissions_writeFromBuffer (c : Conn) (k : Kernel) :
    submissions (writeFromBuffer c k).acts = [] :=
  submissions_eq_nil (not_submit_writeFromBuffer c k)

@[simp] theorem submissions_sendResponse (c : Conn) (k : Kernel) (statusCode : ℕ)
    (contentType body : Bytes) (keepAlive : Bool) :
    submissions (sendResponse c k statusCode contentType body keepAlive).acts = [] := by
  obtain ⟨c', -, h⟩ := sendResponse_loaded c k statusCode contentType body keepAlive
  rw [h, Run.after_acts, submissions_append, submissions_writeFromBuffer]
  rfl

@[simp] theorem submissions_sendJson (c : Conn) (k : Kernel) (statusCode : ℕ) (body : Bytes)
    (keepAlive : Bool) : submissions (sendJson c k statusCode body keepAlive).acts = [] := by
  refine submissions_eq_nil fun t ht ↦ ?_
  rcases sendJson_acts ht with ⟨_, h⟩ | ⟨_, _, h⟩ | h
  all_goals exact absurd h (by simp)

theorem submissions_handleCredentials (task : Bytes → Bytes → Task) (c : Conn) (k : Kernel)
    (request : Bytes) (keepAlive : Bool) :
    submissions (handleCredentials task c k request keepAlive).acts =
      let username := getJsonValue (parseBody request) (lit "username")
      let password := getJsonValue (parseBody request) (lit "password")
      if checkCredentials username password = none then [task username password] else [] := by
  rw [handleCredentials]
  dsimp only
  split
  · next error herror => simp [herror]
  · next haccept => simp [haccept, submissions]

theorem submissions_handleToken (task : Bytes → Task) (c : Conn) (k : Kernel) (request : Bytes)
    (keepAlive : Bool) :
    submissions (handleToken task c k request keepAlive).acts =
      if parseBearerToken request = [] then [] else [task (parseBearerToken request)] := by
  rw [handleToken]
  split
  · exact submissions_sendJson ..
  · rfl

theorem submissions_sendFile (c : Conn) (k : Kernel) (statusCode : ℕ) (contentType content : Bytes)
    (keepAlive : Bool) :
    submissions (sendFile c k statusCode contentType content keepAlive).acts = [] := by
  obtain ⟨c', -, h⟩ := sendFile_loaded c k statusCode contentType content keepAlive
  rw [h, Run.after_acts, submissions_append, submissions_writeFromBuffer]
  rfl

/-- A request for one of the four routes goes to its handler. -/
theorem serve_of_route {request : Bytes} {handler : Conn → Kernel → Bytes → Bool → Run}
    (h : dbHandler (parseMethod request) (parseUrl request) = some handler) (file : Option Bytes)
    (c : Conn) (k : Kernel) (keepAlive : Bool) :
    serve file c k request keepAlive true = handler c k request keepAlive := by
  unfold serve
  dsimp only
  rw [h]
  rfl

/-- Another one is answered at once. -/
theorem submissions_serve_page {request : Bytes}
    (h : dbHandler (parseMethod request) (parseUrl request) = none) (file : Option Bytes)
    (c : Conn) (k : Kernel) (keepAlive : Bool) :
    submissions (serve file c k request keepAlive true).acts = [] := by
  unfold serve
  dsimp only
  rw [h]
  by_cases hroot : parseUrl request = lit "/"
  · simp only [Bool.not_true, Bool.false_eq_true, if_false, if_pos hroot]
    cases file with
    | some content => exact submissions_sendFile ..
    | none => exact submissions_sendResponse ..
  · simp only [Bool.not_true, Bool.false_eq_true, if_false, if_neg hroot]
    exact submissions_sendResponse ..

/-- The tasks that a request leads to.  They depend on nothing of the connection but its descriptor
(`submissions_serve`), so any connection will do to say what they are. -/
def requested (fd : ℕ) (request : Bytes) (keepAlive allowed : Bool) : List Task :=
  submissions (serve none (newConn fd 0).1 ⟨[], []⟩ request keepAlive allowed).acts

theorem submissions_serve (file : Option Bytes) (c : Conn) (k : Kernel) (request : Bytes)
    (keepAlive allowed : Bool) :
    submissions (serve file c k request keepAlive allowed).acts =
      requested c.fd request keepAlive allowed := by
  rw [requested]
  cases allowed with
  | false => exact (submissions_sendResponse ..).trans (submissions_sendResponse ..).symm
  | true =>
    rcases dbHandler_cases (parseMethod request) (parseUrl request) with
      ⟨-, task, -, hroute⟩ | ⟨-, -, task, -, hroute⟩ | ⟨-, -, hroute⟩
    · rw [serve_of_route hroute, serve_of_route hroute, submissions_handleCredentials,
        submissions_handleCredentials]
      rfl
    · rw [serve_of_route hroute, serve_of_route hroute, submissions_handleToken,
        submissions_handleToken]
      rfl
    · rw [submissions_serve_page hroute, submissions_serve_page hroute]

/-- A request leads to at most one. -/
theorem length_requested_le (fd : ℕ) (request : Bytes) (keepAlive allowed : Bool) :
    (requested fd request keepAlive allowed).length ≤ 1 := by
  rw [requested]
  rcases serve_cases none (newConn fd 0).1 ⟨[], []⟩ request keepAlive allowed with
    ⟨c', reply, -, -, h⟩ | ⟨status, body, -, h⟩ | ⟨t, -, -, h⟩
  · rw [h, Run.after_acts, submissions_append, submissions_writeFromBuffer]
    exact Nat.zero_le _
  · rw [h, submissions_sendJson]
    exact Nat.zero_le _
  · rw [h]
    exact Nat.le_refl _

/-! ## The task of a request -/

theorem requested_credentials {request : Bytes} (task : ℕ → Bool → Bytes → Bytes → Task)
    (hroute : dbHandler (parseMethod request) (parseUrl request) =
      some fun c k request ka ↦ handleCredentials (task c.fd ka) c k request ka)
    (fd : ℕ) (keepAlive : Bool) :
    requested fd request keepAlive true =
      let username := getJsonValue (parseBody request) (lit "username")
      let password := getJsonValue (parseBody request) (lit "password")
      if checkCredentials username password = none then [task fd keepAlive username password]
      else [] := by
  rw [requested, serve_of_route hroute]
  exact submissions_handleCredentials ..

theorem requested_token {request : Bytes} (task : ℕ → Bool → Bytes → Task)
    (hroute : dbHandler (parseMethod request) (parseUrl request) =
      some fun c k request ka ↦ handleToken (task c.fd ka) c k request ka)
    (fd : ℕ) (keepAlive : Bool) :
    requested fd request keepAlive true =
      if parseBearerToken request = [] then [] else [task fd keepAlive (parseBearerToken request)] := by
  rw [requested, serve_of_route hroute]
  exact submissions_handleToken ..

/-- **The credentials arrive** as they were entered exactly when there is nothing to escape in them and
they are accepted. -/
theorem credentials_arrive_iff {task : Bytes → Bytes → Task} {username password : List Char}
    (htask : ∀ u p u' p', task u p = task u' p' → u = u' ∧ p = p') :
    (let body := credentialsJson username password
      let username := getJsonValue body (lit "username")
      let password := getJsonValue body (lit "password")
      if checkCredentials username password = none then [task username password] else []) =
        [task (utf8 username) (utf8 password)] ↔
      (∀ c ∈ username, Plain c) ∧ (∀ c ∈ password, Plain c) ∧
        checkCredentials (utf8 username) (utf8 password) = none := by
  dsimp only
  constructor
  · intro h
    split at h
    · next haccept =>
      obtain ⟨husername, hpassword⟩ := htask _ _ _ _ (List.singleton_inj.mp h)
      have hplain := getJsonValue_username_iff.mp husername
      rw [husername, hpassword] at haccept
      exact ⟨hplain, (getJsonValue_password_iff hplain).mp hpassword, haccept⟩
    · cases h
  · rintro ⟨husername, hpassword, haccept⟩
    rw [getJsonValue_username_iff.mpr husername, (getJsonValue_password_iff husername).mpr hpassword,
      if_pos haccept]

/-- **The token arrives** exactly when there is one and nothing is trimmed off. -/
theorem token_arrives_iff {task : Bytes → Task} {r : HttpRequest} {line t : Bytes}
    (htask : ∀ t t', task t = task t' → t = t') (h : FirstAuthorization r.lines line)
    (hline : BearerLine 1 t line) :
    (if parseBearerToken r.serialise = [] then [] else [task (parseBearerToken r.serialise)]) =
      [task t] ↔ t ≠ [] ∧ Trimmed t := by
  constructor
  · intro harrives
    split at harrives
    · cases harrives
    · next hne =>
      have htoken := htask _ _ (List.singleton_inj.mp harrives)
      rw [htoken] at hne
      exact ⟨hne, (parseBearerToken_serialise_iff h hline hne).mp htoken⟩
  · rintro ⟨hne, htrim⟩
    rw [(parseBearerToken_serialise_iff h hline hne).mpr htrim, if_neg hne]

/-- **A request of the page comes to its task** exactly when the wish is fine. -/
theorem Wish.SentAs.requested_iff {w : Wish} {r : HttpRequest} (h : w.SentAs r) (fd : ℕ) :
    requested fd r.serialise true true = [w.task fd] ↔ w.Fine := by
  have hmethod : parseMethod r.serialise = w.method := r.parseMethod_serialise.trans h.method
  have hpath : parseUrl r.serialise = w.path := r.parseUrl_serialise.trans h.path
  have hbody : parseBody r.serialise = w.body := r.parseBody_serialise.trans h.body
  rcases w with ⟨username, password⟩ | ⟨username, password⟩ | t | t
  · rw [requested_credentials .register (by rw [hmethod, hpath]; rfl), hbody]
    exact credentials_arrive_iff fun _ _ _ _ e ↦ by simpa using e
  · rw [requested_credentials .login (by rw [hmethod, hpath]; rfl), hbody]
    exact credentials_arrive_iff fun _ _ _ _ e ↦ by simpa using e
  · obtain ⟨line, hfirst, hline⟩ := h.authorization t rfl
    rw [requested_token .profile (by rw [hmethod, hpath]; rfl)]
    exact token_arrives_iff (fun _ _ e ↦ by simpa using e) hfirst hline
  · obtain ⟨line, hfirst, hline⟩ := h.authorization t rfl
    rw [requested_token .logout (by rw [hmethod, hpath]; rfl)]
    exact token_arrives_iff (fun _ _ e ↦ by simpa using e) hfirst hline

/-! ## Whole runs -/

/-- The requests that are dispatched, in order. -/
def dispatches (acts : List Act) : List Dispatch :=
  acts.filterMap fun
    | .dispatch d => some d
    | _ => none

@[simp] theorem dispatches_append (as bs : List Act) :
    dispatches (as ++ bs) = dispatches as ++ dispatches bs := List.filterMap_append

theorem mem_dispatches {d : Dispatch} {acts : List Act} : d ∈ dispatches acts ↔ .dispatch d ∈ acts := by
  rw [dispatches, List.mem_filterMap]
  constructor
  · rintro ⟨a, ha, hd⟩
    cases a with
    | dispatch d' =>
      obtain rfl := Option.some.inj hd
      exact ha
    | _ => cases hd
  · exact fun h ↦ ⟨_, h, rfl⟩

/-- Without items there is nothing dispatched. -/
theorem dispatches_eq_nil {acts : List Act} (h : items acts = []) : dispatches acts = [] := by
  rw [List.eq_nil_iff_forall_not_mem]
  intro d hd
  exact absurd (List.filterMap_eq_nil_iff.mp h _ (mem_dispatches.mp hd)) (by simp [Act.item])

/-- When nothing is rejected, what is dispatched are the items. -/
theorem map_dispatches {acts : List Act} {xs : List (Bytes × Bool)}
    (h : items acts = xs.map fun x ↦ .request x.1 x.2) :
    (dispatches acts).map (fun d ↦ (d.request, d.keepAlive)) = xs := by
  induction acts generalizing xs with
  | nil => exact (List.map_eq_nil_iff.mp h.symm).symm
  | cons a acts ih =>
    cases a with
    | dispatch d =>
      rcases xs with _ | ⟨x, xs⟩
      · cases h
      · obtain ⟨hx, hxs⟩ := List.cons.inj h
        obtain ⟨hrequest, hkeep⟩ := Item.request.inj hx
        exact congrArg₂ List.cons (Prod.ext hrequest hkeep) (ih hxs)
    | reject status =>
      rcases xs with _ | ⟨x, xs⟩
      · cases h
      · cases (List.cons.inj h).1
    | _ => exact ih h

/-- The tasks of some actions are those of the requests that were dispatched. -/
def Requested (fd : ℕ) (acts : List Act) : Prop :=
  submissions acts = (dispatches acts).flatMap fun d ↦ requested fd d.request d.keepAlive d.allowed

theorem Requested.append {fd : ℕ} {as bs : List Act} (h : Requested fd as) (h' : Requested fd bs) :
    Requested fd (as ++ bs) := by
  rw [Requested, submissions_append, dispatches_append, List.flatMap_append, h, h']

/-- Nothing is dispatched and nothing is submitted. -/
theorem requested_of_quiet {fd : ℕ} {acts : List Act} (h : submissions acts = [])
    (hitems : items acts = []) : Requested fd acts := by
  rw [Requested, h, dispatches_eq_nil hitems, List.flatMap_nil]

theorem requested_turn (file : Option Bytes) (c : Conn) (k : Kernel) (headers text rest : Bytes) :
    Requested c.fd (turn file c k headers text rest).acts := by
  have hserve := submissions_serve file { c with inputBuffer := rest } (allowRequest k).2 text
    (wantKeepAlive text headers) (allowRequest k).1
  rw [turn, Requested]
  dsimp only
  rw [Run.after_acts, submissions_append, dispatches_append, hserve,
    dispatches_eq_nil (items_serve ..), List.append_nil]
  exact (List.append_nil _).symm

theorem requested_processRequests (file : Option Bytes) (c : Conn) (k : Kernel) :
    Requested c.fd (processRequests file c k).acts := by
  refine processRequests_induct file (P := fun c _ r ↦ Requested c.fd r.acts) ?_ ?_ ?_ ?_ c k
  · intro c k _
    exact requested_of_quiet rfl rfl
  · intro c k status message _
    obtain ⟨c', reply, -, h⟩ := rejectInput_loaded c k status message
    rw [h, Run.after_acts, Run.after_acts, Requested, submissions_append, submissions_append,
      dispatches_append, dispatches_append, submissions_writeFromBuffer,
      dispatches_eq_nil (items_writeFromBuffer ..)]
    rfl
  · intro c k headers text rest _ _
    exact requested_turn ..
  · intro c k headers text rest _ _ ih
    have hfd : (turn file c k headers text rest).conn.fd = c.fd := (serve_sameInput ..).fd
    rw [hfd] at ih
    exact (requested_turn ..).append ih

/-- **Every task is that of a request**, whatever the events are. -/
theorem requested_handle (file : Option Bytes) (c : Conn) (e : Event) :
    Requested c.fd (handle file c e).acts := by
  cases e with
  | readable now reads k =>
    obtain ⟨acts, hacts, hcases⟩ := handleMessage_cases file c now reads k
    have hreads : Requested c.fd acts := by
      refine requested_of_quiet (submissions_eq_nil fun t ht ↦ ?_) (items_reads hacts)
      rcases hacts _ ht with h | ⟨r, h⟩
      · cases h
      · cases h
    rcases hcases with ⟨-, -, h⟩ | ⟨-, h⟩
    · rw [handle, h, Run.after_acts]
      exact hreads.append (requested_processRequests ..)
    · rw [handle, h]
      exact hreads.append (requested_of_quiet rfl rfl)
  | writable k =>
    refine requested_of_quiet (submissions_eq_nil fun t ht ↦ ?_) (handleWrite_items c k)
    have hfd : t.fd = c.fd := handle_submit ht
    rw [handle, handleWrite] at ht
    split at ht
    · simp [not_submit_writeFromBuffer] at ht
    · simp [disableWriting, updateChannel] at ht

theorem requested_deliver (file : Option Bytes) (c : Conn) (es : List Event) :
    Requested c.fd (deliver file c es).2 := by
  induction es generalizing c with
  | nil => exact requested_of_quiet rfl rfl
  | cons e es ih =>
    have hrest := ih (handle file c e).conn
    rw [handle_fd] at hrest
    exact (requested_handle file c e).append hrest

/-- One thing for each, at most one and the right one, when all of them together are right. -/
theorem flatMap_eq_map_iff {α β γ : Type} {R : α → β → Prop} {P : α → Prop} {f : α → γ}
    {g : β → List γ} (hle : ∀ b, (g b).length ≤ 1) (hiff : ∀ a b, R a b → (g b = [f a] ↔ P a))
    {as : List α} {bs : List β} (h : List.Forall₂ R as bs) :
    bs.flatMap g = as.map f ↔ ∀ a ∈ as, P a := by
  have hlength : ∀ bs : List β, (bs.flatMap g).length ≤ bs.length := by
    intro bs
    induction bs with
    | nil => exact Nat.le_refl _
    | cons b bs ih =>
      have hb := hle b
      rw [List.flatMap_cons, List.length_append, List.length_cons]
      omega
  induction h with
  | nil => simp
  | @cons a b as bs hab hrest ih =>
    rw [List.forall_mem_cons, List.flatMap_cons, List.map_cons]
    refine Iff.trans ?_ (and_congr (hiff a b hab) ih)
    constructor
    · intro heq
      have hsum := congrArg List.length heq
      rw [List.length_append, List.length_cons, List.length_map, hrest.length_eq] at hsum
      have hone : (g b).length = 1 := by
        have hb := hle b
        have hbs := hlength bs
        omega
      obtain ⟨x, hx⟩ := List.length_eq_one_iff.mp hone
      rw [hx] at heq ⊢
      obtain ⟨rfl, htail⟩ := List.cons.inj heq
      exact ⟨rfl, htail⟩
    · rintro ⟨hhead, htail⟩
      rw [hhead, htail]
      rfl

/-- **What the page asks for reaches the database pool.**  Send any number of its requests over a
connection, cut into pieces in any way; as long as the rate limiter lets them pass, the tasks that are
submitted are those that were meant, in that order, if and only if every wish is fine. -/
theorem page_requests_submitted (file : Option Bytes) (fd now : ℕ) {ws : List Wish}
    {rs : List HttpRequest} (hsent : List.Forall₂ Wish.SentAs ws rs) {es : List Event}
    (hes : ∀ e ∈ es, e.Drains) (hstream : stream es = rs.flatMap HttpRequest.serialise)
    (hallowed : ∀ d, .dispatch d ∈ (deliver file (newConn fd now).1 es).2 → d.allowed = true) :
    submissions (deliver file (newConn fd now).1 es).2 = ws.map (Wish.task fd) ↔
      ∀ w ∈ ws, w.Fine := by
  have hitems : items (deliver file (newConn fd now).1 es).2 =
      (rs.map fun r ↦ (r.serialise, true)).map fun x ↦ .request x.1 x.2 := by
    have hbuf : (newConn fd now).1.inputBuffer ++ stream es = rs.flatMap HttpRequest.serialise :=
      hstream
    have key := deliver_items file (c := (newConn fd now).1) hes greedy_nil
      (by rw [hbuf]; exact headersFit_serialise rs)
    rw [hbuf, greedy_serialise] at key
    rw [List.map_map]
    exact (key (by simp [Open, Item.closing])).1
  have htasks : submissions (deliver file (newConn fd now).1 es).2 =
      rs.flatMap fun r ↦ requested fd r.serialise true true := by
    have hrequested := requested_deliver file (newConn fd now).1 es
    have hmap := map_dispatches hitems
    generalize (deliver file (newConn fd now).1 es).2 = acts at hallowed hrequested hmap ⊢
    calc submissions acts
      _ = (dispatches acts).flatMap fun d ↦ requested fd d.request d.keepAlive d.allowed := hrequested
      _ = (dispatches acts).flatMap fun d ↦ requested fd d.request d.keepAlive true :=
        List.flatMap_congr fun d hd ↦ by rw [hallowed d (mem_dispatches.mp hd)]
      _ = ((dispatches acts).map fun d ↦ (d.request, d.keepAlive)).flatMap fun x ↦
          requested fd x.1 x.2 true := by rw [List.flatMap_map]
      _ = rs.flatMap fun r ↦ requested fd r.serialise true true := by
        rw [hmap, List.flatMap_map]
  rw [htasks]
  exact flatMap_eq_map_iff (fun r ↦ length_requested_le ..) (fun w r h ↦ h.requested_iff fd) hsent

/-- A login, as it is wished for. -/
def bobWish : Wish := .login ['b', 'o', 'b'] ['p', 'w']

/-- The same as it is sent. -/
def bobLogin : HttpRequest where
  method := bobWish.method
  url := bobWish.path
  lines := [lit "Host: a", lit "Content-Type: application/json", lit "Content-Length: 34"]
  body := bobWish.body
  method_ne := by decide +kernel
  method_ok := by decide +kernel
  url_slash := by decide +kernel
  url_ok := by decide +kernel
  lines_ok := by decide +kernel
  length_ok := .inl ⟨[lit "Host: a", lit "Content-Type: application/json"], lit "Content-Length: 34", [],
    rfl, ⟨lit "Content-Length", [], [32], lit "34", by decide +kernel, by decide +kernel, by simp,
      by simp [isBlank], by decide +kernel, by decide +kernel, by decide +kernel⟩,
    fun l hl ↦ not_isField_of_map (by revert l; decide +kernel)⟩
  body_le := by decide +kernel
  no_connection := fun l hl ↦ not_isField_of_map (by revert l; decide +kernel)
  head_le := by decide +kernel

/-- A request for a profile. -/
def abcProfile : HttpRequest where
  method := lit "GET"
  url := lit "/profile"
  lines := [lit "Host: a", lit "Authorization: Bearer abc"]
  body := []
  method_ne := by decide +kernel
  method_ok := by decide +kernel
  url_slash := by decide +kernel
  url_ok := by decide +kernel
  lines_ok := by decide +kernel
  length_ok := .inr ⟨rfl, fun l hl ↦ not_isField_of_map (by revert l; decide +kernel)⟩
  body_le := by decide +kernel
  no_connection := fun l hl ↦ not_isField_of_map (by revert l; decide +kernel)
  head_le := by decide +kernel

/-- The two requests, cut in the body of the first. -/
def bobPieces : List Event :=
  [.readable 0 [.got (bobLogin.serialise.take 100)] ⟨[], []⟩,
   .readable 1 [.got (bobLogin.serialise.drop 100 ++ abcProfile.serialise)] ⟨[], []⟩]

theorem page_requests_submitted_bob :
    submissions (deliver none (newConn 5 0).1 bobPieces).2 =
      [.login 5 true (lit "bob") (lit "pw"), .profile 5 true (lit "abc")] := by
  have hlogin : bobWish.SentAs bobLogin := ⟨rfl, rfl, rfl, by simp [bobWish, Wish.token]⟩
  have hprofile : (Wish.profile (lit "abc")).SentAs abcProfile := by
    refine ⟨rfl, rfl, rfl, ?_⟩
    rintro t ⟨⟩
    have hline : BearerLine 1 (lit "abc") (lit "Authorization: Bearer abc") :=
      bearerLine_iff.mpr ⟨lit " Bearer abc", by decide +kernel,
        ⟨[32], lit "Bearer", [], by decide +kernel, by decide +kernel, by decide +kernel, by simp⟩⟩
    exact ⟨_, ⟨hline.isField, [lit "Host: a"], [], rfl, fun l hl ↦
      not_isField_of_map (by revert l; decide +kernel)⟩, hline⟩
  have hallowed : ∀ d ∈ dispatches (deliver none (newConn 5 0).1 bobPieces).2, d.allowed = true := by
    decide +kernel
  refine (page_requests_submitted none 5 0 (.cons hlogin (.cons hprofile .nil)) (by decide)
    (by decide +kernel) fun d hd ↦ hallowed d (mem_dispatches.mpr hd)).mpr ?_
  refine List.forall_mem_cons.mpr ⟨⟨by simp [Plain], by simp [Plain], by decide +kernel⟩, ?_⟩
  refine List.forall_mem_cons.mpr ⟨⟨by decide, by decide, by decide +kernel⟩, List.forall_mem_nil _⟩

end ReactorServer
