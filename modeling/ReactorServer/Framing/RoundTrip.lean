import ReactorServer.Framing.Run
import ReactorServer.Http.Format

/-!
# The round trip of the request format

Put any number of well-formed requests one behind the other, cut the text into pieces in any way,
and feed the pieces to the server: it dispatches those requests, in that order, and its parsers
give back the method, the URL and the body that went into each.

The pieces are fed by `deliver`, which calls the handlers one after another and does not care how
the writes go; on a connection that is not deleted along the way, as none is if the writes do not fail
for good, that is its life (`run_eq_deliver`).
-/

set_option autoImplicit false

namespace ReactorServer

open Search

/-! ## Feeding a connection -/

/-- Call the handlers of some events, one after another. -/
def deliver (file : Option Bytes) : Conn → List Event → Conn × List Act
  | c, [] => (c, [])
  | c, e :: es =>
    let r := handle file c e
    let (c', acts) := deliver file r.conn es
    (c', r.acts ++ acts)

/-- Unless it is deleted, the life of a connection is its events delivered one after another. -/
theorem run_eq_deliver (file : Option Bytes) (s : Session) (es : List Event)
    (h : .delete ∉ s.trace ++ (deliver file s.conn es).2) :
    Session.run file s es = ⟨(deliver file s.conn es).1, s.trace ++ (deliver file s.conn es).2⟩ := by
  induction es generalizing s with
  | nil => simp [Session.run, deliver]
  | cons e es ih =>
    rw [deliver] at h ⊢
    have halive : s.alive = true := by
      simp only [Session.alive, decide_eq_true_eq]
      exact fun hmem ↦ h (List.mem_append_left _ hmem)
    rw [Session.run_cons, Session.step_of_alive file halive, ih,
      List.append_assoc]
    rwa [List.append_assoc]

/-- **Feeding a connection dispatches the greedy decomposition**, as long as nothing closes; and if no
write fails for good, the connection is not deleted. -/
theorem deliver_items (file : Option Bytes) {c : Conn} {es : List Event}
    (hes : ∀ e ∈ es, e.Drains) (hbuf : greedy c.inputBuffer = ([], c.inputBuffer))
    (hfit : HeadersFit (c.inputBuffer ++ stream es))
    (hopen : Open (greedy (c.inputBuffer ++ stream es)).1) :
    items (deliver file c es).2 = (greedy (c.inputBuffer ++ stream es)).1 ∧
      (deliver file c es).1.inputBuffer = (greedy (c.inputBuffer ++ stream es)).2 ∧
      ((∀ e ∈ es, e.Calm) → c.closeAfterWrite = false → .delete ∉ (deliver file c es).2) := by
  induction es generalizing c with
  | nil =>
    rw [stream_nil, List.append_nil, hbuf]
    exact ⟨rfl, rfl, fun _ _ ↦ List.not_mem_nil⟩
  | cons e es ih =>
    have hstream : c.inputBuffer ++ stream (e :: es) =
        (c.inputBuffer ++ e.bytes) ++ stream es := by simp [stream]
    rw [hstream] at hfit hopen ⊢
    have hfirst : Open (greedy (c.inputBuffer ++ e.bytes)).1 := by
      by_contra hnot
      have key := upToClosing_greedy_append hfit hnot
      rw [← open_upToClosing_iff, key, open_upToClosing_iff] at hopen
      exact hnot hopen
    obtain ⟨hitems, hkept⟩ := handle_items file (hes e List.mem_cons_self) hbuf
    have hkept := hkept hfirst
    rw [upToClosing_of_open hfirst] at hitems
    rw [greedy_append _ hfirst] at hopen ⊢
    rw [← hkept] at hopen ⊢
    have hrest := ih (c := (handle file c e).conn)
      (fun e he ↦ hes e (List.mem_cons_of_mem _ he)) (by rw [hkept]; exact greedy_snd hfirst)
      (by rw [hkept]; exact hfit.greedy_snd hfirst)
      (fun i hi ↦ hopen i (List.mem_append_right _ hi))
    rw [deliver]
    dsimp only
    rw [items_append, hitems, hrest.1]
    refine ⟨rfl, hrest.2.1, fun hcalm hclose hmem ↦ ?_⟩
    have hsteady := handle_steady file (hcalm e List.mem_cons_self) hclose hfirst
    rcases List.mem_append.mp hmem with hmem | hmem
    · exact hsteady.alive hmem
    · exact hrest.2.2 (fun e he ↦ hcalm e (List.mem_cons_of_mem _ he)) hsteady.stays hmem

/-! ## Requests one behind the other -/

/-- A turn of the loop cuts off a well-formed request. -/
theorem nextFrame_serialise (r : HttpRequest) (rest : Bytes) :
    nextFrame (r.serialise ++ rest) = .request r.head r.serialise rest := by
  have htake : (r.serialise ++ rest).take r.head.length = r.head := by
    rw [HttpRequest.serialise, List.append_assoc, List.take_left]
  have hlen : r.head.length + 4 + r.body.length = r.serialise.length := by
    rw [HttpRequest.serialise, List.length_append, List.length_append]
    simp only [crlf2, List.length_cons, List.length_nil]
    omega
  refine nextFrame_eq_request_iff.mpr ⟨_, r.indexOf_crlf2_serialise rest, ?_⟩
  rw [htake, r.requestContentLength_head, hlen, List.take_left, List.drop_left,
    List.length_append]
  exact ⟨r.body_le, Nat.le_add_right _ _, rfl, rfl, rfl⟩

theorem greedy_serialise (rs : List HttpRequest) :
    greedy (rs.flatMap HttpRequest.serialise) =
      (rs.map fun r ↦ .request r.serialise true, []) := by
  induction rs with
  | nil => exact greedy_nil
  | cons r rs ih =>
    rw [List.flatMap_cons, greedy_eq, nextFrame_serialise]
    dsimp only
    rw [ih, r.wantKeepAlive_serialise]
    rfl

theorem headersFit_serialise (rs : List HttpRequest) :
    HeadersFit (rs.flatMap HttpRequest.serialise) := by
  induction rs with
  | nil => exact .of_length_le (Nat.zero_le _)
  | cons r rs ih =>
    intro t i ht hi
    rw [List.flatMap_cons] at ht
    rcases ht.cases_request (nextFrame_serialise r _) with rfl | ⟨-, ht⟩
    · rw [r.indexOf_crlf2_serialise, Option.some_inj] at hi
      exact hi ▸ r.head_le
    · exact ih t i ht hi

/-- **The round trip of the request format.**  If no write fails for good, this is what becomes of the
connection, and it is not deleted. -/
theorem format_round_trip (file : Option Bytes) (fd now : ℕ) (rs : List HttpRequest)
    (es : List Event) (hes : ∀ e ∈ es, e.Drains)
    (hstream : stream es = rs.flatMap HttpRequest.serialise) :
    items (deliver file (newConn fd now).1 es).2 = rs.map (fun r ↦ .request r.serialise true) ∧
      (deliver file (newConn fd now).1 es).1.inputBuffer = [] ∧
      ((∀ e ∈ es, e.Calm) → (Session.run file (.start fd now) es).alive = true ∧
        items (Session.run file (.start fd now) es).trace = rs.map (fun r ↦ .request r.serialise true) ∧
        (Session.run file (.start fd now) es).conn.inputBuffer = []) ∧
      ∀ r ∈ rs, parseMethod r.serialise = r.method ∧ parseUrl r.serialise = r.url ∧
        parseBody r.serialise = r.body ∧ wantKeepAlive r.serialise r.head = true := by
  have hbuf : (newConn fd now).1.inputBuffer ++ stream es = rs.flatMap HttpRequest.serialise :=
    hstream
  have key := deliver_items file (c := (newConn fd now).1) hes greedy_nil
    (by rw [hbuf]; exact headersFit_serialise rs)
  rw [hbuf, greedy_serialise] at key
  have hopen : Open (rs.map fun r ↦ Item.request r.serialise true) := by
    intro i hi
    obtain ⟨r, -, rfl⟩ := List.mem_map.mp hi
    rfl
  obtain ⟨hitems, hkept, halive⟩ := key hopen
  refine ⟨hitems, hkept, fun hcalm ↦ ?_, fun r _ ↦ ⟨r.parseMethod_serialise, r.parseUrl_serialise,
    r.parseBody_serialise, r.wantKeepAlive_serialise⟩⟩
  have hstart : .delete ∉ (newConn fd now).2 := by simp [newConn, enableReadingET, updateChannel]
  have hnone : .delete ∉ (newConn fd now).2 ++ (deliver file (newConn fd now).1 es).2 := fun hmem ↦
    (List.mem_append.mp hmem).elim hstart (halive hcalm rfl)
  rw [run_eq_deliver file (.start fd now) es hnone]
  exact ⟨decide_eq_true hnone, (items_append ..).trans hitems, hkept⟩

/-- A request whose body looks like the end of a header block and the start of another request. -/
def trickyLogin : HttpRequest where
  method := lit "POST"
  url := lit "/login"
  lines := [lit "Host: a", lit "content-LENGTH : 008"]
  body := lit "\r\n\r\nGET "
  method_ne := by decide +kernel
  method_ok := by decide +kernel
  url_slash := by decide +kernel
  url_ok := by decide +kernel
  lines_ok := by decide +kernel
  length_ok := .inl ⟨[lit "Host: a"], lit "content-LENGTH : 008", [], rfl,
    ⟨lit "content-LENGTH", [32], [32], lit "008", by decide +kernel, by decide +kernel,
      by decide +kernel, by decide +kernel, by decide +kernel, by decide +kernel,
      by decide +kernel⟩,
    fun l hl ↦ not_isField_of_map (by revert l; decide +kernel)⟩
  body_le := by decide +kernel
  no_connection := fun l hl ↦ not_isField_of_map (by revert l; decide +kernel)
  head_le := by decide

/-- The request, in three pieces. -/
def trickyPieces : List Event :=
  [.readable 0 [.got (trickyLogin.serialise.take 20)] ⟨[], []⟩,
   .readable 0 [.got ((trickyLogin.serialise.drop 20).take 30), .fail .EINTR] ⟨[], []⟩,
   .readable 1 [.got (trickyLogin.serialise.drop 50)] ⟨[.fail .EAGAIN], []⟩]

theorem format_round_trip_trickyLogin :
    items (deliver none (newConn 5 0).1 trickyPieces).2 = [.request trickyLogin.serialise true] ∧
      (deliver none (newConn 5 0).1 trickyPieces).1.inputBuffer = [] ∧
      (Session.run none (.start 5 0) trickyPieces).alive = true ∧
      items (Session.run none (.start 5 0) trickyPieces).trace = [.request trickyLogin.serialise true] := by
  obtain ⟨hitems, hkept, hrun, -⟩ :=
    format_round_trip none 5 0 [trickyLogin] trickyPieces (by decide) (by decide +kernel)
  obtain ⟨halive, hdispatched, -⟩ := hrun (by decide)
  exact ⟨hitems, hkept, halive, hdispatched⟩

end ReactorServer
