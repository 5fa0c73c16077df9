import ReactorServer.Framing.Run
import ReactorServer.Lib.Machine

/-!
# Requests in front of the end of the input

A peer that has sent its requests may close its side at once.  Whether `handleMessage` sees the end
of the input in a read event of its own, or in the same drain as the last bytes, is a matter of
timing; and in the second case it tears the connection down without looking at what it has just
read.  There are two more ways to dispatch the wrong requests.  After a request that is not keep-alive
the connection may linger, and a further read event runs the request loop on it again; and a look at
the buffer in the middle of a blank line may find the header too large (`Framing/Limits`).

`dispatched_iff_keepsRequests` says that these are the only three.  The condition `KeepsRequests` is
about one event and the state in which it is delivered: if the bytes it brings complete a request,
then the request loop runs exactly when it should.  The other condition, that no look is `CutShort`, is
about how the stream is cut.
-/

set_option autoImplicit false

namespace ReactorServer

open Search Machine

/-! ## The requests of a stream -/

/-- A turn of the loop finds a complete request. -/
def Frame.isRequest : Frame → Bool
  | .request .. => true
  | _ => false

/-- An item is a request, not a rejection. -/
def Item.isRequest : Item → Bool
  | .request .. => true
  | .reject _ => false

/-- The complete requests in a stream, up to and including the first that is not keep-alive. -/
def completeRequests (s : Bytes) : List Item := (upToClosing (greedy s).1).filter Item.isRequest

theorem isRequest_of_open {is : List Item} (h : Open is) : ∀ i ∈ is, i.isRequest = true := by
  intro i hi
  cases i with
  | request => rfl
  | reject status => exact absurd (h _ hi) (by simp [Item.closing])

/-- A run of the loop dispatches a request exactly when the first thing it finds is one. -/
theorem completeRequests_eq_nil_iff (s : Bytes) :
    completeRequests s = [] ↔ (nextFrame s).isRequest = false := by
  rw [completeRequests, greedy_eq]
  cases nextFrame s with
  | incomplete => simp [upToClosing, Frame.isRequest]
  | headerTooLarge => simp [upToClosing, Item.closing, Item.isRequest, Frame.isRequest]
  | bodyTooLarge => simp [upToClosing, Item.closing, Item.isRequest, Frame.isRequest]
  | request headers text rest =>
    dsimp only
    rw [upToClosing]
    split <;> simp [Item.isRequest, Frame.isRequest]

/-- What comes behind a stream in which nothing closes adds the requests that it completes. -/
theorem completeRequests_append {a : Bytes} (b : Bytes) (h : Open (greedy a).1) :
    completeRequests (a ++ b) = (greedy a).1 ++ completeRequests ((greedy a).2 ++ b) := by
  rw [completeRequests, greedy_append b h, upToClosing_append_of_open _ h, List.filter_append,
    List.filter_eq_self.mpr (isRequest_of_open h), completeRequests]

/-- One request in front. -/
theorem completeRequests_of_request {s headers text rest : Bytes}
    (h : nextFrame s = .request headers text rest) : completeRequests s =
      .request text (wantKeepAlive text headers) ::
        if wantKeepAlive text headers then completeRequests rest else [] := by
  rw [completeRequests, greedy_eq, h]
  dsimp only
  rw [upToClosing]
  cases hka : wantKeepAlive text headers with
  | true =>
    rw [if_neg (by simp [Item.closing]), if_pos rfl]
    exact List.filter_cons_of_pos rfl
  | false =>
    rw [if_pos (by simp [Item.closing]), if_neg (by simp)]
    rfl

/-! ## Within the limits -/

/-- A stream that keeps to the size limits, as far as the framer gets: header blocks, bodies, and a
remainder without a blank line. -/
def WithinLimits (s : Bytes) : Prop :=
  ∀ t, Reaches s t →
    (∀ h, indexOf crlf2 t = some h →
      h ≤ kMaxHeaderBytes ∧ requestContentLength (t.take h) ≤ kMaxBodyBytes) ∧
    (indexOf crlf2 t = none → t.length ≤ kMaxHeaderBytes)

theorem WithinLimits.rest {s headers text rest : Bytes} (h : WithinLimits s)
    (hf : nextFrame s = .request headers text rest) (hka : wantKeepAlive text headers = true) :
    WithinLimits rest :=
  fun t ht ↦ h t (.of_nextFrame hf hka ht)

theorem WithinLimits.nextFrame_cases {s : Bytes} (h : WithinLimits s) :
    nextFrame s = .incomplete ∨ ∃ headers text rest, nextFrame s = .request headers text rest := by
  cases hf : nextFrame s with
  | incomplete => exact .inl rfl
  | headerTooLarge =>
    obtain ⟨hnone, hlen⟩ := nextFrame_eq_headerTooLarge_iff.mp hf
    exact absurd ((h s (.here s)).2 hnone) (by omega)
  | bodyTooLarge =>
    obtain ⟨i, hi, hn⟩ := nextFrame_eq_bodyTooLarge_iff.mp hf
    exact absurd ((h s (.here s)).1 i hi).2 (by omega)
  | request headers text rest => exact .inr ⟨headers, text, rest, rfl⟩

/-- Within the limits the complete requests are all that there is. -/
theorem WithinLimits.completeRequests_eq {s : Bytes} (h : WithinLimits s) :
    completeRequests s = upToClosing (greedy s).1 := by
  refine List.filter_eq_self.mpr ?_
  induction hn : s.length using Nat.strong_induction_on generalizing s with
  | _ n ih =>
    rw [greedy_eq]
    rcases h.nextFrame_cases with hf | ⟨headers, text, rest, hf⟩
    · rw [hf]
      simp [upToClosing]
    · have hrest : rest.length < n := hn ▸ length_rest_lt hf
      rw [hf]
      dsimp only
      rw [upToClosing]
      split
      · simp [Item.isRequest]
      · rename_i hka
        have hka' : wantKeepAlive text headers = true := by simpa [Item.closing] using hka
        rw [List.forall_mem_cons]
        exact ⟨rfl, ih rest.length hrest (h.rest hf hka') rfl⟩

theorem Reaches.reject_mem {s t : Bytes} {status : ℕ} (h : Reaches s t)
    (ht : nextFrame t = .headerTooLarge ∧ status = 400 ∨ nextFrame t = .bodyTooLarge ∧ status = 413) :
    .reject status ∈ upToClosing (greedy s).1 := by
  induction h with
  | here s =>
    rw [greedy_eq]
    rcases ht with ⟨hf, rfl⟩ | ⟨hf, rfl⟩
    all_goals
      rw [hf]
      exact List.mem_singleton.mpr rfl
  | @next s t i hh hn hlen hka _ ih =>
    have hf := nextFrame_eq_request_iff.mpr ⟨i, hh, hn, hlen, rfl, rfl, rfl⟩
    rw [greedy_eq, hf]
    dsimp only
    rw [upToClosing, hka]
    exact List.mem_cons_of_mem _ (ih ht)

/-- A short stream in which nothing is rejected is within the limits. -/
theorem WithinLimits.of_length_le {s : Bytes} (hlen : s.length ≤ kMaxHeaderBytes)
    (hitems : ∀ i ∈ upToClosing (greedy s).1, i.isRequest = true) : WithinLimits s := by
  intro t ht
  refine ⟨fun i hi ↦ ⟨(HeadersFit.of_length_le hlen t i ht hi).trans (Nat.sub_le ..), ?_⟩,
    fun _ ↦ Nat.le_trans ht.length_le hlen⟩
  by_contra hbody
  have hf := nextFrame_eq_bodyTooLarge_iff.mpr ⟨i, hi, Nat.lt_of_not_le hbody⟩
  exact absurd (hitems _ (ht.reject_mem (.inr ⟨hf, rfl⟩))) (by simp [Item.isRequest])

/-! ## A look in the middle of a blank line -/

/-- A look at what has arrived finds more than `kMaxHeaderBytes` bytes of a request and no blank line,
and with what is still to come the request is complete. -/
def CutShort (seen rest : Bytes) : Prop :=
  ∃ t, Reaches seen t ∧ indexOf crlf2 t = none ∧ kMaxHeaderBytes < t.length ∧
    (nextFrame (t ++ rest)).isRequest = true

theorem CutShort.not_open {seen rest : Bytes} (h : CutShort seen rest) : ¬ Open (greedy seen).1 := by
  obtain ⟨t, ht, hnone, hlen, -⟩ := h
  have hmem := ht.reject_mem (.inl ⟨nextFrame_eq_headerTooLarge_iff.mpr ⟨hnone, hlen⟩, rfl⟩)
  rw [← open_upToClosing_iff]
  exact fun hopen ↦ absurd (hopen _ hmem) (by simp [Item.closing])

/-- It takes a header block that leaves no room for three more bytes below the limit. -/
theorem HeadersFit.not_cutShort {seen rest : Bytes} (h : HeadersFit (seen ++ rest)) :
    ¬ CutShort seen rest := by
  rintro ⟨t, ht, hnone, hlen, hrequest⟩
  cases hf : nextFrame (t ++ rest) with
  | request headers text rest' =>
    obtain ⟨i, hi, -⟩ := nextFrame_eq_request_iff.mp hf
    have hnear := length_lt_of_indexOf_append hnone hi
    have hle := h _ i (ht.append rest) hi
    rw [show crlf2.length = 4 from rfl] at hnear
    rw [kMaxHeaderBytes_eq] at hle hlen
    omega
  | _ => simp [hf, Frame.isRequest] at hrequest

/-- No later look cuts short what the first closing one has not. -/
theorem CutShort.of_append {a b rest : Bytes} (h : CutShort (a ++ b) rest)
    (hopen : ¬ Open (greedy a).1) : CutShort a (b ++ rest) := by
  induction hn : a.length using Nat.strong_induction_on generalizing a with
  | _ n ih =>
    obtain ⟨t, ht, hnone, hlen, hrequest⟩ := h
    have hlarge := nextFrame_eq_headerTooLarge_iff.mpr ⟨hnone, hlen⟩
    rcases hf : nextFrame a with _ | _ | _ | ⟨headers, text, rest'⟩
    · rw [greedy_eq, hf] at hopen
      exact absurd .nil hopen
    · -- the look at `a` is cut short itself
      obtain ⟨hnone', hlen'⟩ := nextFrame_eq_headerTooLarge_iff.mp hf
      refine ⟨a, .here a, hnone', hlen', ?_⟩
      rw [← List.append_assoc]
      rcases ht.eq_or_request with rfl | ⟨headers, text, rest', hf', -⟩
      · exact hrequest
      · rw [nextFrame_append_request rest hf']
        rfl
    · have hf' := nextFrame_append_bodyTooLarge b hf
      rcases ht.eq_or_request with rfl | ⟨headers, text, rest', hf'', -⟩
      · cases hlarge.symm.trans hf'
      · cases hf'.symm.trans hf''
    · have hf' := nextFrame_append_request b hf
      rcases ht.cases_request hf' with rfl | ⟨hka, ht'⟩
      · cases hlarge.symm.trans hf'
      rw [greedy_eq, hf] at hopen
      have hopen' : ¬ Open (greedy rest').1 := fun h ↦
        hopen (open_cons.mpr ⟨by simp [Item.closing, hka], h⟩)
      obtain ⟨t', ht'', h'⟩ := ih rest'.length (hn ▸ length_rest_lt hf)
        ⟨t, ht', hnone, hlen, hrequest⟩ hopen' rfl
      exact ⟨t', .of_nextFrame hf hka ht'', h'⟩

/-- **What a closing look has come to.**  When something closes in what has arrived, the complete
requests in it are those of the whole stream, unless the look is cut short. -/
theorem completeRequests_append_eq_iff {a rest : Bytes} (hopen : ¬ Open (greedy a).1) :
    completeRequests a = completeRequests (a ++ rest) ↔ ¬ CutShort a rest := by
  induction hn : a.length using Nat.strong_induction_on generalizing a with
  | _ n ih =>
    have hnot : ∀ {f : Frame}, nextFrame a = f → f ≠ .headerTooLarge →
        (∀ headers text rest', f = .request headers text rest' → wantKeepAlive text headers = false) →
        ¬ CutShort a rest := by
      rintro f hf hne hka ⟨t, ht, hnone, hlen, -⟩
      rcases ht.eq_or_request with rfl | ⟨headers, text, rest', hf', hka', -⟩
      · exact hne (hf.symm.trans (nextFrame_eq_headerTooLarge_iff.mpr ⟨hnone, hlen⟩))
      · rw [hka headers text rest' (hf.symm.trans hf')] at hka'
        cases hka'
    rcases hf : nextFrame a with _ | _ | _ | ⟨headers, text, rest'⟩
    · rw [greedy_eq, hf] at hopen
      exact absurd .nil hopen
    · obtain ⟨hnone, hlen⟩ := nextFrame_eq_headerTooLarge_iff.mp hf
      rw [(completeRequests_eq_nil_iff a).mpr (by rw [hf]; rfl), eq_comm, completeRequests_eq_nil_iff,
        ← Bool.not_eq_true]
      refine not_congr ⟨fun h ↦ ⟨a, .here a, hnone, hlen, h⟩, ?_⟩
      rintro ⟨t, ht, -, -, hrequest⟩
      rcases ht.eq_or_request with rfl | ⟨_, _, _, hf', -⟩
      · exact hrequest
      · cases hf.symm.trans hf'
    · have hf' := nextFrame_append_bodyTooLarge rest hf
      rw [(completeRequests_eq_nil_iff a).mpr (by rw [hf]; rfl),
        (completeRequests_eq_nil_iff (a ++ rest)).mpr (by rw [hf']; rfl)]
      exact iff_of_true rfl (hnot hf (by simp) nofun)
    · have hf' := nextFrame_append_request rest hf
      rw [completeRequests_of_request hf, completeRequests_of_request hf']
      cases hka : wantKeepAlive text headers with
      | false =>
        refine iff_of_true rfl (hnot hf (by simp) ?_)
        rintro _ _ _ ⟨⟩
        exact hka
      | true =>
        rw [greedy_eq, hf] at hopen
        have hopen' : ¬ Open (greedy rest').1 := fun h ↦
          hopen (open_cons.mpr ⟨by simp [Item.closing, hka], h⟩)
        rw [if_pos rfl, if_pos rfl, List.cons_inj_right, ih rest'.length (hn ▸ length_rest_lt hf) hopen' rfl]
        refine not_congr ⟨?_, ?_⟩
        · rintro ⟨t, ht, h⟩
          exact ⟨t, .of_nextFrame hf hka ht, h⟩
        · rintro ⟨t, ht, hnone, hlen, h⟩
          rcases ht.cases_request hf with rfl | ⟨-, ht'⟩
          · cases hf.symm.trans (nextFrame_eq_headerTooLarge_iff.mpr ⟨hnone, hlen⟩)
          · exact ⟨t, ht', hnone, hlen, h⟩

/-! ## After the closing item -/

/-- The items after the first closing one. -/
def afterClosing : List Item → List Item
  | [] => []
  | i :: is => if i.closing then is else afterClosing is

theorem upToClosing_append_afterClosing (is : List Item) : upToClosing is ++ afterClosing is = is := by
  induction is with
  | nil => rfl
  | cons i is ih =>
    rw [upToClosing, afterClosing]
    split
    · rfl
    · rw [List.cons_append, ih]

theorem afterClosing_of_open {is : List Item} (h : Open is) : afterClosing is = [] := by
  have key := upToClosing_append_afterClosing is
  rwa [upToClosing_of_open h, List.append_right_eq_self] at key

theorem afterClosing_upToClosing (is : List Item) : afterClosing (upToClosing is) = [] := by
  have key := upToClosing_append_afterClosing (upToClosing is)
  rwa [upToClosing_upToClosing, List.append_right_eq_self] at key

theorem afterClosing_append_of_open {is : List Item} (js : List Item) (h : Open is) :
    afterClosing (is ++ js) = afterClosing js := by
  have key := upToClosing_append_afterClosing (is ++ js)
  rw [upToClosing_append_of_open js h, List.append_assoc, List.append_cancel_left_eq] at key
  exact List.append_cancel_left (key.trans (upToClosing_append_afterClosing js).symm)

theorem afterClosing_append_of_not_open {is : List Item} (js : List Item) (h : ¬ Open is) :
    afterClosing (is ++ js) = afterClosing is ++ js := by
  have key := upToClosing_append_afterClosing (is ++ js)
  rw [upToClosing_append_of_not_open js h] at key
  refine List.append_cancel_left (?_ : upToClosing is ++ _ = upToClosing is ++ _)
  rw [key, ← List.append_assoc, upToClosing_append_afterClosing]

/-! ## The requests a connection dispatches -/

/-- The requests dispatched, in order. -/
def requests (acts : List Act) : List Item := (items acts).filter Item.isRequest

/-- The event does not upset the order of things: if its bytes complete a request, then the request
loop is going to run, which it does when reading ends at `EAGAIN`, just in case nothing closing has
been dispatched so far. -/
def KeepsRequests (s : Session) : Event → Prop
  | .readable _ reads _ =>
    s.alive = true → (nextFrame (s.conn.inputBuffer ++ (readAll reads).1)).isRequest = true →
      ((readAll reads).2 = true ↔ Open (items s.trace))
  | .writable _ => True

instance (s : Session) (e : Event) : Decidable (KeepsRequests s e) :=
  match e with
  | .readable .. => inferInstanceAs (Decidable (_ → _ → (_ ↔ _)))
  | .writable _ => inferInstanceAs (Decidable True)

/-- No request has been dispatched after the closing one. -/
def NothingAfter (s : Session) : Prop := (afterClosing (items s.trace)).filter Item.isRequest = []

theorem handleMessage_items {file : Option Bytes} {c : Conn} {reads : List ReadResult}
    (h : (readAll reads).2 = true) (now : ℕ) (k : Kernel) :
    items (handleMessage file c now reads k).acts =
      upToClosing (greedy (c.inputBuffer ++ (readAll reads).1)).1 := by
  obtain ⟨acts, hacts, ⟨-, -, he⟩ | ⟨hfalse, -⟩⟩ := handleMessage_cases file c now reads k
  · rw [he, Run.after_acts, items_append, items_reads hacts, List.nil_append]
    exact (processRequests_items file (c.received now (readAll reads).1) k).1
  · exact absurd (h.symm.trans hfalse) (by simp)

/-- One calm event keeps it so exactly when it meets the condition. -/
theorem nothingAfter_step_iff (file : Option Bytes) (s : Session) {e : Event} (he : e.Calm) :
    NothingAfter (s.step file e) ↔ NothingAfter s ∧ KeepsRequests s e := by
  cases halive : s.alive with
  | false =>
    rw [Session.step_of_not_alive file halive]
    cases e <;> simp [KeepsRequests, halive]
  | true =>
    rw [Session.step_of_alive file halive, NothingAfter, NothingAfter]
    cases e with
    | writable k => simp [handle, KeepsRequests]
    | readable now reads k =>
      have hdrains : (readAll reads).2 = true := he.drains
      rw [items_append, handle, handleMessage_items hdrains]
      by_cases hopen : Open (items s.trace)
      · rw [afterClosing_append_of_open _ hopen, afterClosing_upToClosing,
          afterClosing_of_open hopen]
        simp [KeepsRequests, hdrains, hopen]
      · rw [afterClosing_append_of_not_open _ hopen, List.filter_append,
          List.append_eq_nil_iff, ← completeRequests, completeRequests_eq_nil_iff]
        simp [KeepsRequests, hdrains, hopen, halive]

theorem nothingAfter_run_iff (file : Option Bytes) (fd now : ℕ) (es : List Event)
    (hcalm : ∀ e ∈ es, e.Calm) :
    NothingAfter (Session.run file (.start fd now) es) ↔
      Meets (Session.step file) KeepsRequests (.start fd now) es := by
  rw [Session.run, holds_iff_meets (I := fun _ ↦ True) (fun _ _ _ _ ↦ trivial)
    (fun s e he _ ↦ nothingAfter_step_iff file s (hcalm e he)) trivial]
  exact and_iff_right rfl

/-! ## The last event -/

/-- Reading ends at the end of the input, or at an error, which the code treats alike. -/
def Event.Final : Event → Prop
  | .readable _ reads _ => (readAll reads).2 = false
  | .writable _ => False

instance (e : Event) : Decidable e.Final :=
  match e with
  | .readable _ reads _ => inferInstanceAs (Decidable ((readAll reads).2 = false))
  | .writable _ => inferInstanceAs (Decidable False)

/-- The end of the input dispatches nothing. -/
theorem items_step_final {file : Option Bytes} {s : Session} {e : Event} (he : e.Final) :
    items (s.step file e).trace = items s.trace := by
  cases halive : s.alive with
  | false => rw [Session.step_of_not_alive file halive]
  | true =>
    rw [Session.step_of_alive file halive]
    cases e with
    | writable k => exact absurd he id
    | readable now reads k =>
      obtain ⟨acts, hacts, ⟨htrue, -⟩ | ⟨-, h⟩⟩ := handleMessage_cases file s.conn now reads k
      · exact absurd (htrue.symm.trans he) (by simp)
      · rw [handle, h]
        dsimp only
        rw [items_append, items_append, items_reads hacts]
        exact List.append_nil _

theorem requests_eq (acts : List Act) : requests acts =
    (upToClosing (items acts)).filter Item.isRequest ++
      (afterClosing (items acts)).filter Item.isRequest := by
  rw [requests, ← List.filter_append, upToClosing_append_afterClosing]

/-- **What a connection dispatches before the end of the input.**  For a peer that sends its requests
and then closes, and for every segmentation, the requests dispatched are the complete requests of the
stream, up to and including the first one that is not keep-alive, with none of them dispatched when the
connection has been told to close, if and only if every event meets `KeepsRequests` in the state it is
delivered in and no look at the buffer cuts a request short. -/
theorem dispatched_iff_keepsRequests (file : Option Bytes) (fd now : ℕ) (es : List Event)
    (e : Event) (hcalm : ∀ e ∈ es, e.Calm) (hfinal : e.Final) :
    requests (Session.run file (.start fd now) (es ++ [e])).trace =
          completeRequests (stream (es ++ [e])) ∧
        NothingAfter (Session.run file (.start fd now) (es ++ [e])) ↔
      Meets (Session.step file) KeepsRequests (.start fd now) (es ++ [e]) ∧
        ∀ es₁ es₂, es = es₁ ++ es₂ → ¬ CutShort (stream es₁) (stream es₂ ++ e.bytes) := by
  have hafter := nothingAfter_run_iff file fd now es hcalm
  have hframed := framed_run file fd now es hcalm
  rw [meets_append, ← Session.run, ← hafter, NothingAfter, requests, Session.run_concat,
    items_step_final hfinal, ← requests, ← NothingAfter, and_comm, and_assoc, and_congr_right_iff]
  intro hnothing
  obtain ⟨now', reads, k, rfl⟩ : ∃ now' reads k, e = .readable now' reads k := by
    cases e with
    | readable now' reads k => exact ⟨now', reads, k, rfl⟩
    | writable k => exact absurd hfinal id
  have hfalse : (readAll reads).2 = false := hfinal
  rw [requests_eq, hnothing, List.append_nil, stream_append, stream_singleton]
  generalize Session.run file (.start fd now) es = s at *
  rcases hframed with ⟨hall, hitems, hbuf, -, halive⟩ | ⟨es₁, e₁, es₂, rfl, hall, hopen, hitems⟩
  · -- nothing closing so far: the last drain must not complete a request
    have hopen' : Open (items s.trace) := by
      rw [hitems]
      exact hall.open
    have halive' : s.alive = true := by simpa [Session.alive] using halive
    have hlooks : ∀ es₁ es₂, es = es₁ ++ es₂ →
        ¬ CutShort (stream es₁) (stream es₂ ++ (Event.readable now' reads k).bytes) :=
      fun es₁ es₂ heq hcut ↦ hcut.not_open (hall es₁ ⟨es₂, heq.symm⟩)
    rw [and_iff_left hlooks, upToClosing_of_open hopen', hitems,
      List.filter_eq_self.mpr (isRequest_of_open hall.open), completeRequests_append _ hall.open,
      List.self_eq_append_right, completeRequests_eq_nil_iff]
    simp [Meets, KeepsRequests, halive', hfalse, hopen', hbuf, Event.bytes]
  · -- something closing has come up: it must have come up in its place
    have hopen' : ¬ Open (items s.trace) := by
      rwa [← open_upToClosing_iff, hitems, open_upToClosing_iff]
    have hkeeps : Meets (Session.step file) KeepsRequests s [.readable now' reads k] := by
      simp [Meets, KeepsRequests, hfalse, hopen']
    rw [and_iff_right hkeeps, hitems, ← completeRequests, stream_append_cons es₁ es₂ e₁,
      List.append_assoc, completeRequests_append_eq_iff hopen]
    constructor
    · intro hlook es' es'' heq hcut
      rcases List.append_eq_append_iff.mp heq with ⟨l, rfl, hl⟩ | ⟨l, rfl, rfl⟩
      · cases l with
        | nil => exact hcut.not_open (by simpa using hall.open)
        | cons e' l =>
          obtain ⟨rfl, rfl⟩ := List.cons.inj hl
          rw [stream_append_cons] at hcut
          have hfirst := hcut.of_append hopen
          rw [← List.append_assoc, ← stream_append] at hfirst
          exact hlook hfirst
      · exact hcut.not_open (hall es' ⟨l, rfl⟩)
    · exact fun hlooks ↦ hlooks (es₁ ++ [e₁]) es₂ (List.append_cons ..)

/-- A request, and the end of the input in a read event of its own. -/
def requestBeforeEof : List Event × Event :=
  ([.readable 0 [.got (lit "GET /hello HTTP/1.1\r\n\r\n")] ⟨[], []⟩], .readable 1 [.got []] ⟨[], []⟩)

theorem dispatched_requestBeforeEof :
    requests (Session.run none (.start 5 0) (requestBeforeEof.1 ++ [requestBeforeEof.2])).trace =
          completeRequests (stream (requestBeforeEof.1 ++ [requestBeforeEof.2])) ∧
        NothingAfter (Session.run none (.start 5 0) (requestBeforeEof.1 ++ [requestBeforeEof.2])) := by
  refine (dispatched_iff_keepsRequests none 5 0 requestBeforeEof.1 requestBeforeEof.2 (by decide)
    (by decide)).mpr ⟨by decide +kernel, fun es₁ es₂ heq ↦ HeadersFit.not_cutShort ?_⟩
  have hstream : stream es₁ ++ (stream es₂ ++ requestBeforeEof.2.bytes) =
      stream (requestBeforeEof.1 ++ [requestBeforeEof.2]) := by
    rw [heq, stream_append, stream_append, stream_singleton, List.append_assoc]
  rw [hstream]
  exact .of_length_le (by decide)

/-- The same bytes, and the end of the input in the same drain. -/
def requestWithEof : Event :=
  .readable 0 [.got (lit "GET /hello HTTP/1.1\r\n\r\n"), .got []] ⟨[], []⟩

/-- The end of the input swallows a request that was read in the same drain. -/
theorem eof_swallows_request :
    requestWithEof.Final ∧ WithinLimits (stream [requestWithEof]) ∧
      upToClosing (greedy (stream [requestWithEof])).1 =
        [.request (lit "GET /hello HTTP/1.1\r\n\r\n") true] ∧
      requests (Session.run none (.start 5 0) [requestWithEof]).trace = [] :=
  ⟨by decide, .of_length_le (by decide) (by decide +kernel), by decide +kernel, by decide +kernel⟩

end ReactorServer
