import ReactorServer.Connection.Process

/-!
# What the handlers can do

Every property of a connection is proved from the same handful of facts about what a call of a
member function can do, and they are collected here so that nothing after this file has to open
the definitions again:

* `drain_spec` — a send loop gets rid of an initial part of its data, and how it ends says how
  much is left and whether a call failed;
* `writeFromBuffer_cases` — a drain of the pending output waits for `EPOLLOUT`, deletes the
  connection, or finishes;
* `serve_cases` — a request is answered through the output buffer, through `sendJson`, or by a
  task;
* `processRequests_induct` — the request loop, as an induction principle;
* `handleMessage_cases` — a read event drains the socket and runs the loop, or deletes the
  connection.
-/

set_option autoImplicit false

namespace ReactorServer

/-! ## Reading a list of actions -/

/-- The bytes an action hands to the socket. -/
def Act.sent : Act → Bytes
  | .io _ _ bs => bs
  | .jsonIo _ bs => bs
  | _ => []

/-- The bytes a list of actions hands to the socket. -/
def sentBytes (acts : List Act) : Bytes := acts.flatMap Act.sent

@[simp] theorem sentBytes_nil : sentBytes [] = [] := rfl
@[simp] theorem sentBytes_cons (a : Act) (acts : List Act) :
    sentBytes (a :: acts) = a.sent ++ sentBytes acts := rfl
@[simp] theorem sentBytes_append (as bs : List Act) :
    sentBytes (as ++ bs) = sentBytes as ++ sentBytes bs := List.flatMap_append

/-- A call of `write` or `sendfile`, made for the pending output, that fails for good. -/
def Act.isHard : Act → Bool
  | .io _ r _ => r.hard
  | _ => false

/-- No `write` or `sendfile` is going to fail for good. -/
def Kernel.NoError (k : Kernel) : Prop := ∀ r ∈ k.io, r.hard = false

instance (k : Kernel) : Decidable k.NoError :=
  inferInstanceAs (Decidable (∀ r ∈ k.io, r.hard = false))

theorem Kernel.NoError.of_suffix {k : Kernel} {io : List WriteResult} (h : k.NoError)
    (hio : io <:+ k.io) : ({ k with io := io } : Kernel).NoError :=
  fun r hr ↦ h r (hio.subset hr)

/-! ## The send loop -/

/-- **The send loop.**  What it hands over is the first `taken` bytes of its data; it ends with
nothing left, or at a result that says why; and it uses the results in order. -/
theorem drain_spec (look : List Act) (call : WriteResult → Bytes → Act) (data : Bytes)
    (io : List WriteResult) :
    (drain look call data io).taken ≤ data.length ∧
      ((drain look call data io).exit = .sent ↔ (drain look call data io).taken = data.length) ∧
      (drain look call data io).io <:+ io := by
  induction io generalizing data with
  | nil =>
    rw [drain]
    split
    · rename_i h; subst h; simp
    · simp
  | cons r rs ih =>
    rw [drain.eq_def]
    dsimp only
    split
    · rename_i h; subst h; simp
    · rename_i hne
      have hpos : 0 < data.length := List.length_pos_iff.mpr hne
      split
      · exact ⟨Nat.zero_le _, by simp; omega, List.suffix_cons _ _⟩
      · rename_i n
        obtain ⟨hle, hexit, hio⟩ := ih (data.drop (n + 1))
        have hlen : (data.take (n + 1)).length + (data.drop (n + 1)).length = data.length := by
          rw [← List.length_append, List.take_append_drop]
        simp only [Drain.after]
        exact ⟨by omega, hexit.trans ⟨fun h ↦ by omega, fun h ↦ by omega⟩,
          hio.trans (List.suffix_cons _ _)⟩
      · obtain ⟨hle, hexit, hio⟩ := ih data
        simp only [Drain.after, Nat.zero_add]
        exact ⟨hle, hexit, hio.trans (List.suffix_cons _ _)⟩
      · exact ⟨Nat.zero_le _, by simp; omega, List.suffix_cons _ _⟩
      · exact ⟨Nat.zero_le _, by simp; omega, List.suffix_cons _ _⟩

/-- The actions of a send loop: its tests and its calls. -/
theorem drain_acts (look : List Act) (call : WriteResult → Bytes → Act) (data : Bytes)
    (io : List WriteResult) {a : Act} (h : a ∈ (drain look call data io).acts) :
    a ∈ look ∨ ∃ r bs, a = call r bs := by
  induction io generalizing data with
  | nil =>
    rw [drain] at h
    split at h
    · exact .inl h
    · simp only [List.mem_append, List.mem_cons] at h
      rcases h with h | rfl | h
      · exact .inl h
      · exact .inr ⟨_, _, rfl⟩
      · exact .inl h
  | cons r rs ih =>
    rw [drain.eq_def] at h
    dsimp only at h
    split at h
    · exact .inl h
    · split at h
      all_goals
        simp only [Drain.after, List.mem_append, List.mem_cons, List.not_mem_nil, or_false] at h
      · exact h.imp_right fun h ↦ ⟨_, _, h⟩
      · exact h.elim (·.imp_right fun h ↦ ⟨_, _, h⟩) (ih _)
      · exact h.elim (·.imp_right fun h ↦ ⟨_, _, h⟩) (ih _)
      · exact h.imp_right fun h ↦ ⟨_, _, h⟩
      · exact h.imp_right fun h ↦ ⟨_, _, h⟩

/-- **The send loop sends its data in order.** -/
theorem sentBytes_drain {look : List Act} {call : WriteResult → Bytes → Act}
    (hlook : sentBytes look = []) (hcall : ∀ r bs, (call r bs).sent = bs) (data : Bytes)
    (io : List WriteResult) :
    sentBytes (drain look call data io).acts = data.take (drain look call data io).taken := by
  induction io generalizing data with
  | nil =>
    rw [drain]
    split
    · simp [hlook]
    · simp [hlook, hcall]
  | cons r rs ih =>
    rw [drain.eq_def]
    dsimp only
    split
    · simp [hlook]
    · split
      · simp [hlook, hcall]
      · rename_i n
        simp only [Drain.after, sentBytes_append, sentBytes_cons, sentBytes_nil, hlook, hcall, ih,
          List.nil_append, List.append_nil]
        generalize n + 1 = m
        rw [List.take_add, List.length_take]
        rcases Nat.le_total m data.length with h | h
        · rw [Nat.min_eq_left h]
        · rw [Nat.min_eq_right h, List.take_of_length_le h, List.drop_of_length_le h,
            List.take_length, List.drop_length]
      · simp [Drain.after, hlook, hcall, ih]
      · simp [hlook, hcall]
      · simp [hlook, hcall]

/-- The send loop fails exactly when one of its calls does. -/
theorem drain_failed_iff {look : List Act} {hard : Act → Bool}
    {call : WriteResult → Bytes → Act} (hlook : ∀ a ∈ look, hard a = false)
    (hcall : ∀ r bs, hard (call r bs) = r.hard) (data : Bytes) (io : List WriteResult) :
    (drain look call data io).exit = .failed ↔
      ∃ a ∈ (drain look call data io).acts, hard a = true := by
  have hl : ¬ ∃ a ∈ look, hard a = true := by
    rintro ⟨a, ha, h⟩
    rw [hlook a ha] at h
    exact absurd h (by simp)
  induction io generalizing data with
  | nil =>
    rw [drain]
    split
    · simpa using fun a ha ↦ hlook a ha
    · rename_i hne
      simp only [reduceCtorEq, List.mem_append, List.mem_cons, false_iff, not_exists, not_and,
        Bool.not_eq_true]
      rintro a (h | rfl | h)
      · exact hlook a h
      · simp [hcall, WriteResult.hard, hne]
      · exact hlook a h
  | cons r rs ih =>
    rw [drain.eq_def]
    dsimp only
    split
    · simpa using fun a ha ↦ hlook a ha
    · split
      · simp [or_and_right, exists_or, hl, hcall, WriteResult.hard]
      · simpa [Drain.after, or_and_right, exists_or, hl, hcall, WriteResult.hard] using ih _
      · simpa [Drain.after, or_and_right, exists_or, hl, hcall, WriteResult.hard] using ih _
      · simp [or_and_right, exists_or, hl, hcall, WriteResult.hard]
      · simp [or_and_right, exists_or, hl, hcall, WriteResult.hard]

/-- A send loop that does not get to the end of its data was stopped by one of the results. -/
theorem drain_stopped {look : List Act} {call : WriteResult → Bytes → Act} {data : Bytes}
    {io : List WriteResult} (h : (drain look call data io).exit ≠ .sent) :
    ∃ r ∈ io, call r [] ∈ (drain look call data io).acts ∧
      ((drain look call data io).exit = .blocked ∧ r = .fail .EAGAIN ∨
        (drain look call data io).exit = .failed ∧ r.hard = true) := by
  induction io generalizing data with
  | nil =>
    rw [drain] at h
    split at h
    · exact absurd rfl h
    · exact absurd rfl h
  | cons r rs ih =>
    rw [drain.eq_def] at h ⊢
    dsimp only at h ⊢
    split at h
    · exact absurd rfl h
    · rename_i hne
      simp only [hne, if_false]
      split at h
      · exact ⟨.took 0, by simp, by simp, .inr ⟨rfl, rfl⟩⟩
      · obtain ⟨q, hq, hcall, hexit⟩ := ih h
        exact ⟨q, List.mem_cons_of_mem _ hq, List.mem_append_right _ hcall, hexit⟩
      · obtain ⟨q, hq, hcall, hexit⟩ := ih h
        exact ⟨q, List.mem_cons_of_mem _ hq, List.mem_append_right _ hcall, hexit⟩
      · exact ⟨.fail .EAGAIN, by simp, by simp, .inl ⟨rfl, rfl⟩⟩
      · exact ⟨.fail .other, by simp, by simp, .inr ⟨rfl, rfl⟩⟩

/-! ## Draining the pending output -/

/-- Everything the reactor still has to send on a connection. -/
def Conn.pendingBytes (c : Conn) : Bytes := c.unwritten ++ c.unsentFile

theorem Conn.pendingBytes_eq_nil_iff {c : Conn} : c.pendingBytes = [] ↔ c.outputPending = false := by
  rw [Conn.pendingBytes, List.append_eq_nil_iff, Conn.outputPending_eq_false_iff]

/-- `c'` is `c` after some calls of `write` and `sendfile` on its pending output. -/
structure Drained (c c' : Conn) (ios : List Act) : Prop where
  /-- Only the position in the output has moved. -/
  same : c' = { c with writeIndex := c'.writeIndex, fileFd := c'.fileFd }
  /-- The actions are those calls, and looks at the members. -/
  acts : ∀ a ∈ ios, a = .touch ∨ ∃ r bs, a = .io (!c.closeAfterWrite) r bs
  /-- What was sent was the front of what was pending. -/
  bytes : sentBytes ios ++ c'.pendingBytes = c.pendingBytes

theorem Drained.not_delete {c c' : Conn} {ios : List Act} (h : Drained c c' ios) :
    .delete ∉ ios := by
  intro hmem
  rcases h.acts _ hmem with h | ⟨r, bs, h⟩
  · exact absurd h (by simp)
  · exact absurd h (by simp)

theorem Drained.closeAfterWrite {c c' : Conn} {ios : List Act} (h : Drained c c' ios) :
    c'.closeAfterWrite = c.closeAfterWrite := by rw [h.same]

theorem Conn.unwritten_wrote (c : Conn) (n : ℕ) : (c.wrote n).unwritten = c.unwritten.drop n := by
  rw [unwritten, unwritten, wrote, List.drop_drop]

theorem Conn.unsentFile_wroteFile {c : Conn} {n : ℕ} (h : n ≤ c.unsentFile.length) :
    (c.wroteFile n).unsentFile = c.unsentFile.drop n := by
  rw [unsentFile, unsentFile, wroteFile]
  cases hf : c.fileFd with
  | none => simp
  | some f =>
    simp only [unsentFile, hf, Option.map_some, Option.getD_some, OpenFile.length_unsent] at h ⊢
    exact OpenFile.unsent_advance h

theorem Conn.pendingBytes_wroteFile {c : Conn} {n : ℕ} (hw : c.unwritten = [])
    (h : n ≤ c.unsentFile.length) : (c.wroteFile n).pendingBytes = c.unsentFile.drop n := by
  rw [pendingBytes, unsentFile_wroteFile h, show (c.wroteFile n).unwritten = c.unwritten from rfl,
    hw, List.nil_append]

theorem writeLoop_drained (c : Conn) (io : List WriteResult) :
    Drained c (c.wrote (writeLoop c io).taken) (writeLoop c io).acts where
  same := rfl
  acts a ha := by simpa using drain_acts _ _ _ _ ha
  bytes := by
    rw [Conn.pendingBytes, Conn.unwritten_wrote, writeLoop, sentBytes_drain rfl (fun _ _ ↦ rfl),
      ← List.append_assoc, List.take_append_drop]
    rfl

theorem fileLoop_drained {c : Conn} (hw : c.unwritten = []) (io : List WriteResult) :
    Drained c (c.wroteFile (fileLoop c io).taken) (fileLoop c io).acts where
  same := rfl
  acts a ha := by simpa using drain_acts _ _ _ _ ha
  bytes := by
    have hle : (fileLoop c io).taken ≤ c.unsentFile.length := (drain_spec _ _ _ _).1
    rw [Conn.pendingBytes_wroteFile hw hle, fileLoop, sentBytes_drain rfl (fun _ _ ↦ rfl),
      List.take_append_drop, Conn.pendingBytes, hw, List.nil_append]

theorem Drained.trans {c c' c'' : Conn} {as bs : List Act} (h : Drained c c' as)
    (h' : Drained c' c'' bs) : Drained c c'' (as ++ bs) where
  same := by
    have e := h'.same
    rw [h.same] at e
    exact e
  acts a ha := by
    rcases List.mem_append.mp ha with ha | ha
    · exact h.acts a ha
    · have e := h'.acts a ha
      rwa [h.same] at e
  bytes := by rw [sentBytes_append, List.append_assoc, h'.bytes, h.bytes]

/-- A list of output calls contains one that failed for good. -/
def HasHard (acts : List Act) : Prop := ∃ a ∈ acts, a.isHard = true

theorem hasHard_append {as bs : List Act} : HasHard (as ++ bs) ↔ HasHard as ∨ HasHard bs := by
  simp only [HasHard, List.mem_append, or_and_right, exists_or]

/-- How a loop of `writeFromBuffer` ends, seen from its results and from its calls. -/
theorem drain_io_cases (keepAlive : Bool) (data : Bytes) (io : List WriteResult) {d : Drain}
    (hd : drain [.touch] (.io keepAlive) data io = d) :
    d.exit = .sent ∧ ¬ HasHard d.acts ∧ d.taken = data.length ∨
      d.exit = .blocked ∧ ¬ HasHard d.acts ∧ d.taken < data.length ∧ .fail .EAGAIN ∈ io ∨
      d.exit = .failed ∧ HasHard d.acts ∧ ∃ r ∈ io, r.hard = true := by
  obtain ⟨hle, hsent, -⟩ := drain_spec [.touch] (.io keepAlive) data io
  have hfail : (drain [.touch] (.io keepAlive) data io).exit = .failed ↔
      HasHard (drain [.touch] (.io keepAlive) data io).acts :=
    drain_failed_iff (by simp [Act.isHard]) (fun _ _ ↦ rfl) data io
  rw [hd] at hle hsent hfail
  cases he : d.exit with
  | sent => exact .inl ⟨rfl, fun h ↦ by simp [hfail.mpr h] at he, hsent.mp he⟩
  | blocked =>
    have hne : d.exit ≠ .sent := by simp [he]
    have hlt : d.taken ≠ data.length := fun h ↦ hne (hsent.mpr h)
    rw [← hd] at hne
    obtain ⟨r, hr, -, h⟩ := drain_stopped hne
    rw [hd] at h
    rcases h with ⟨-, rfl⟩ | ⟨h, -⟩
    · exact .inr (.inl ⟨rfl, fun h ↦ by simp [hfail.mpr h] at he, by omega, hr⟩)
    · exact absurd (he.symm.trans h) (by simp)
  | failed =>
    have hne : d.exit ≠ .sent := by simp [he]
    rw [← hd] at hne
    obtain ⟨r, hr, -, h⟩ := drain_stopped hne
    rw [hd] at h
    rcases h with ⟨h, -⟩ | ⟨-, hhard⟩
    · exact absurd (he.symm.trans h) (by simp)
    · exact .inr (.inr ⟨rfl, hfail.mp he, r, hr, hhard⟩)

/-- **A drain of the pending output** goes as far as the kernel lets it.  At `EAGAIN` it arms
`EPOLLOUT`; when a call fails for good, it deletes the connection; otherwise it finishes. -/
theorem writeFromBuffer_cases (c : Conn) (k : Kernel) : ∃ c' ios io',
    Drained c c' ios ∧ io' <:+ k.io ∧
      (writeFromBuffer c k = (stopWrite c' { k with io := io' } .blocked).after ios ∧
          ¬ HasHard ios ∧ c'.pendingBytes ≠ [] ∧ .fail .EAGAIN ∈ k.io ∨
        writeFromBuffer c k = (stopWrite c' { k with io := io' } .failed).after ios ∧
          HasHard ios ∧ (∃ r ∈ k.io, r.hard = true) ∨
        writeFromBuffer c k = (finishWrite c' { k with io := io' }).after ios ∧
          ¬ HasHard ios ∧ c'.pendingBytes = []) := by
  have hdrained₁ := writeLoop_drained c k.io
  have hsuf₁ : (writeLoop c k.io).io <:+ k.io := (drain_spec _ _ _ _).2.2
  have hcases₁ := drain_io_cases (!c.closeAfterWrite) c.unwritten k.io rfl
  rw [← writeLoop] at hcases₁
  rw [writeFromBuffer]
  dsimp only
  generalize writeLoop c k.io = d₁ at *
  rcases hcases₁ with ⟨he₁, hh₁, ht₁⟩ | ⟨he₁, hh₁, ht₁, hr₁⟩ | ⟨he₁, hh₁, hr₁⟩
  · -- the buffer is out, and the file follows
    have hw : (c.wrote d₁.taken).unwritten = [] := by
      rw [Conn.unwritten_wrote, ht₁, List.drop_length]
    rw [if_neg (not_not.mpr he₁)]
    have hdrained₂ := fileLoop_drained hw d₁.io
    have hsuf₂ : (fileLoop (c.wrote d₁.taken) d₁.io).io <:+ d₁.io := (drain_spec _ _ _ _).2.2
    have hle₂ : (fileLoop (c.wrote d₁.taken) d₁.io).taken ≤ _ := (drain_spec _ _ _ _).1
    have hpend := Conn.pendingBytes_wroteFile hw hle₂
    have hcases₂ := drain_io_cases (!c.closeAfterWrite) (c.wrote d₁.taken).unsentFile d₁.io rfl
    rw [show drain [.touch] (.io !c.closeAfterWrite) (c.wrote d₁.taken).unsentFile d₁.io =
      fileLoop (c.wrote d₁.taken) d₁.io from rfl] at hcases₂
    generalize fileLoop (c.wrote d₁.taken) d₁.io = d₂ at *
    refine ⟨_, _, _, hdrained₁.trans hdrained₂, hsuf₂.trans hsuf₁, ?_⟩
    rw [hasHard_append, or_iff_right hh₁, hpend]
    rcases hcases₂ with ⟨he₂, hh₂, ht₂⟩ | ⟨he₂, hh₂, ht₂, hr₂⟩ | ⟨he₂, hh₂, r, hr₂, hhard⟩
    · exact .inr (.inr ⟨if_neg (not_not.mpr he₂), hh₂, List.drop_eq_nil_iff.mpr ht₂.ge⟩)
    · rw [he₂, if_pos (by simp)]
      refine .inl ⟨rfl, hh₂, ?_, hsuf₁.subset hr₂⟩
      rw [ne_eq, List.drop_eq_nil_iff]
      omega
    · rw [he₂, if_pos (by simp)]
      exact .inr (.inl ⟨rfl, hh₂, r, hsuf₁.subset hr₂, hhard⟩)
  · rw [he₁, if_pos (by simp)]
    refine ⟨_, _, _, hdrained₁, hsuf₁, .inl ⟨rfl, hh₁, ?_, hr₁⟩⟩
    rw [Conn.pendingBytes, Conn.unwritten_wrote, ne_eq, List.append_eq_nil_iff,
      List.drop_eq_nil_iff]
    omega
  · rw [he₁, if_pos (by simp)]
    exact ⟨_, _, _, hdrained₁, hsuf₁, .inr (.inl ⟨rfl, hh₁, hr₁⟩)⟩

/-- The actions of `sendJson`. -/
theorem sendJson_acts {c : Conn} {k : Kernel} {status : ℕ} {body : Bytes} {ka : Bool} {a : Act}
    (h : a ∈ (sendJson c k status body ka).acts) :
    (∃ reply, a = .json reply) ∨ (∃ r bs, a = .jsonIo r bs) ∨ a = .complete := by
  rw [sendJson, List.cons_append, List.mem_cons, List.mem_append] at h
  rcases h with rfl | h | h
  · exact .inl ⟨_, rfl⟩
  · rcases drain_acts _ _ _ _ h with h | ⟨r, bs, rfl⟩
    · exact absurd h (by simp)
    · exact .inr (.inl ⟨r, bs, rfl⟩)
  · split at h
    · exact .inr (.inr (List.mem_singleton.mp h))
    · exact absurd h (by simp)

/-! ## Answering a request -/

/-- The complete response of a request that is answered on the reactor thread, `none` for one that
goes to the database pool. -/
def answer (file : Option Bytes) (request : Bytes) (keepAlive allowed : Bool) : Option Bytes :=
  let method := parseMethod request
  let url := parseUrl request
  if !allowed then
    some (buildHttpResponse 429 (lit "application/json") (errorJson "too many requests") keepAlive)
  else if method = lit "POST" ∧ (url = lit "/register" ∨ url = lit "/login") then
    let body := parseBody request
    (checkCredentials (getJsonValue body (lit "username")) (getJsonValue body (lit "password"))).map
      fun error ↦ jsonResponse 400 error keepAlive
  else if method = lit "POST" ∧ url = lit "/logout" ∨ method = lit "GET" ∧ url = lit "/profile" then
    if parseBearerToken request = [] then
      some (jsonResponse 401 (errorJson "missing token") keepAlive)
    else none
  else
    match (if url = lit "/" then file else none) with
    | some content => some (fileHeader 200 (lit "text/html") content.length keepAlive ++ content)
    | none =>
      let statusCode : ℕ := if url = lit "/" ∨ url = lit "/hello" then 200 else 404
      some (buildHttpResponse statusCode (lit "text/html") (getResponse url) keepAlive)

/-- `c'` is `c` with a response made its output. -/
structure Loaded (c c' : Conn) (keepAlive : Bool) (reply : Bytes) : Prop where
  /-- Only the output has changed. -/
  same : c' = { c with writeBuf := c'.writeBuf, writeIndex := c'.writeIndex,
                       closeAfterWrite := !keepAlive, fileFd := c'.fileFd }
  /-- With no file left over from before, what is pending is the response. -/
  pending : c.unsentFile = [] → c'.pendingBytes = reply

/-- `sendResponse` replaces the buffer and leaves a file alone that may still be in transit. -/
theorem sendResponse_loaded (c : Conn) (k : Kernel) (statusCode : ℕ) (contentType body : Bytes)
    (keepAlive : Bool) : ∃ c',
      Loaded c c' keepAlive (buildHttpResponse statusCode contentType body keepAlive) ∧
      sendResponse c k statusCode contentType body keepAlive =
        (writeFromBuffer c' k).after
          [.issue keepAlive (buildHttpResponse statusCode contentType body keepAlive)] := by
  refine ⟨_, ⟨rfl, fun h ↦ ?_⟩, rfl⟩
  have h' : (c.fileFd.map OpenFile.unsent).getD [] = [] := h
  simp [Conn.pendingBytes, Conn.unwritten, Conn.unsentFile, h']

theorem sendFile_loaded (c : Conn) (k : Kernel) (statusCode : ℕ) (contentType content : Bytes)
    (keepAlive : Bool) : ∃ c',
      Loaded c c' keepAlive (fileHeader statusCode contentType content.length keepAlive ++ content) ∧
      sendFile c k statusCode contentType content keepAlive =
        (writeFromBuffer c' k).after
          [.issue keepAlive
            (fileHeader statusCode contentType content.length keepAlive ++ content)] := by
  refine ⟨_, ⟨rfl, fun _ ↦ ?_⟩, rfl⟩
  simp [Conn.pendingBytes, Conn.unwritten, Conn.unsentFile]

theorem handleCredentials_cases {task : Bytes → Bytes → Task} {c : Conn}
    (htask : ∀ u p, (task u p).fd = c.fd) (k : Kernel) (request : Bytes) (keepAlive : Bool) :
    let body := parseBody request
    let verdict := checkCredentials (getJsonValue body (lit "username"))
      (getJsonValue body (lit "password"))
    (∃ error, verdict = some error ∧
        handleCredentials task c k request keepAlive = sendJson c k 400 error keepAlive) ∨
      ∃ t, verdict = none ∧ t.fd = c.fd ∧
        handleCredentials task c k request keepAlive = ⟨c, k, [.submit t]⟩ := by
  intro body verdict
  rw [handleCredentials]
  cases h : verdict with
  | some error => exact .inl ⟨error, rfl, by simp only [verdict, body] at h; simp [h]⟩
  | none =>
    refine .inr ⟨_, rfl, htask (getJsonValue body (lit "username"))
      (getJsonValue body (lit "password")), ?_⟩
    simp only [verdict, body] at h
    simp [h, body]

theorem handleToken_cases {task : Bytes → Task} {c : Conn} (htask : ∀ t, (task t).fd = c.fd)
    (k : Kernel) (request : Bytes) (keepAlive : Bool) :
    (parseBearerToken request = [] ∧ handleToken task c k request keepAlive =
        sendJson c k 401 (errorJson "missing token") keepAlive) ∨
      ∃ t, parseBearerToken request ≠ [] ∧ t.fd = c.fd ∧
        handleToken task c k request keepAlive = ⟨c, k, [.submit t]⟩ := by
  rw [handleToken]
  by_cases h : parseBearerToken request = []
  · exact .inl ⟨h, if_pos h⟩
  · exact .inr ⟨_, h, htask (parseBearerToken request), if_neg h⟩

/-- The routes of the database pool: two that want credentials, two that want a token. -/
theorem dbHandler_cases (method url : Bytes) :
    ((method = lit "POST" ∧ (url = lit "/register" ∨ url = lit "/login")) ∧
        ∃ task : ℕ → Bool → Bytes → Bytes → Task, (∀ fd ka u p, (task fd ka u p).fd = fd) ∧
          dbHandler method url =
            some fun c k request ka ↦ handleCredentials (task c.fd ka) c k request ka) ∨
      (¬ (method = lit "POST" ∧ (url = lit "/register" ∨ url = lit "/login")) ∧
        (method = lit "POST" ∧ url = lit "/logout" ∨ method = lit "GET" ∧ url = lit "/profile") ∧
        ∃ task : ℕ → Bool → Bytes → Task, (∀ fd ka t, (task fd ka t).fd = fd) ∧
          dbHandler method url =
            some fun c k request ka ↦ handleToken (task c.fd ka) c k request ka) ∨
      (¬ (method = lit "POST" ∧ (url = lit "/register" ∨ url = lit "/login")) ∧
        ¬ (method = lit "POST" ∧ url = lit "/logout" ∨ method = lit "GET" ∧ url = lit "/profile") ∧
        dbHandler method url = none) := by
  rw [dbHandler]
  by_cases hreg : method = lit "POST" ∧ url = lit "/register"
  · rw [if_pos hreg]
    exact .inl ⟨⟨hreg.1, .inl hreg.2⟩, .register, fun _ _ _ _ ↦ rfl, rfl⟩
  rw [if_neg hreg]
  by_cases hlogin : method = lit "POST" ∧ url = lit "/login"
  · rw [if_pos hlogin]
    exact .inl ⟨⟨hlogin.1, .inr hlogin.2⟩, .login, fun _ _ _ _ ↦ rfl, rfl⟩
  rw [if_neg hlogin]
  have hcred : ¬ (method = lit "POST" ∧ (url = lit "/register" ∨ url = lit "/login")) :=
    fun h ↦ h.2.elim (fun hu ↦ hreg ⟨h.1, hu⟩) fun hu ↦ hlogin ⟨h.1, hu⟩
  by_cases hlogout : method = lit "POST" ∧ url = lit "/logout"
  · rw [if_pos hlogout]
    exact .inr (.inl ⟨hcred, .inl hlogout, .logout, fun _ _ _ ↦ rfl, rfl⟩)
  rw [if_neg hlogout]
  by_cases hprofile : method = lit "GET" ∧ url = lit "/profile"
  · rw [if_pos hprofile]
    exact .inr (.inl ⟨hcred, .inr hprofile, .profile, fun _ _ _ ↦ rfl, rfl⟩)
  · rw [if_neg hprofile]
    exact .inr (.inr ⟨hcred, fun h ↦ h.elim hlogout hprofile, rfl⟩)

/-- **A request is answered** through the output buffer, through `sendJson`, or by a task that
carries the descriptor of its connection. -/
theorem serve_cases (file : Option Bytes) (c : Conn) (k : Kernel) (request : Bytes)
    (keepAlive allowed : Bool) :
    (∃ c' reply, answer file request keepAlive allowed = some reply ∧ Loaded c c' keepAlive reply ∧
        serve file c k request keepAlive allowed =
          (writeFromBuffer c' k).after [.issue keepAlive reply]) ∨
      (∃ status body,
        answer file request keepAlive allowed = some (jsonResponse status body keepAlive) ∧
        serve file c k request keepAlive allowed = sendJson c k status body keepAlive) ∨
      ∃ t, answer file request keepAlive allowed = none ∧ t.fd = c.fd ∧
        serve file c k request keepAlive allowed = ⟨c, k, [.submit t]⟩ := by
  unfold serve answer
  dsimp only
  cases allowed with
  | false =>
    obtain ⟨c', hl, he⟩ := sendResponse_loaded c k 429 (lit "application/json")
      (errorJson "too many requests") keepAlive
    exact .inl ⟨c', _, rfl, hl, he⟩
  | true =>
    simp only [Bool.not_true, Bool.false_eq_true, if_false]
    rcases dbHandler_cases (parseMethod request) (parseUrl request) with
      ⟨hcred, task, htask, hh⟩ | ⟨hcred, htok, task, htask, hh⟩ | ⟨hcred, htok, hh⟩
    · rw [if_pos hcred, hh]
      rcases handleCredentials_cases (htask c.fd keepAlive) k request keepAlive with
        ⟨error, hv, he⟩ | ⟨t, hv, ht, he⟩
      · exact .inr (.inl ⟨400, error, by rw [hv]; rfl, he⟩)
      · exact .inr (.inr ⟨t, by rw [hv]; rfl, ht, he⟩)
    · rw [if_neg hcred, if_pos htok, hh]
      rcases handleToken_cases (htask c.fd keepAlive) k request keepAlive with
        ⟨hv, he⟩ | ⟨t, hv, ht, he⟩
      · exact .inr (.inl ⟨401, errorJson "missing token", if_pos hv, he⟩)
      · exact .inr (.inr ⟨t, if_neg hv, ht, he⟩)
    · rw [if_neg hcred, if_neg htok, hh]
      dsimp only
      obtain ⟨cp, hlp, hep⟩ := sendResponse_loaded c k
        (if parseUrl request = lit "/" ∨ parseUrl request = lit "/hello" then 200 else 404)
        (lit "text/html") (getResponse (parseUrl request)) keepAlive
      by_cases hroot : parseUrl request = lit "/"
      · rw [if_pos hroot, if_pos hroot]
        cases file with
        | some content =>
          obtain ⟨c', hl, he⟩ := sendFile_loaded c k 200 (lit "text/html") content keepAlive
          exact .inl ⟨c', _, rfl, hl, he⟩
        | none => exact .inl ⟨cp, _, rfl, hlp, hep⟩
      · rw [if_neg hroot, if_neg hroot]
        exact .inl ⟨cp, _, rfl, hlp, hep⟩

/-! ## The request loop -/

/-- What every step of sending leaves alone: the input, and the mask apart from `EPOLLOUT`. -/
structure SameInput (c c' : Conn) : Prop where
  fd : c'.fd = c.fd
  inputBuffer : c'.inputBuffer = c.inputBuffer
  events : c'.channel.events = { c.channel.events with epollout := c'.channel.events.epollout }

theorem SameInput.refl (c : Conn) : SameInput c c := ⟨rfl, rfl, rfl⟩

theorem SameInput.trans {c c' c'' : Conn} (h : SameInput c c') (h' : SameInput c' c'') :
    SameInput c c'' := by
  refine ⟨h'.fd.trans h.fd, h'.inputBuffer.trans h.inputBuffer, ?_⟩
  rw [h'.events, h.events]

theorem Drained.sameInput {c c' : Conn} {ios : List Act} (h : Drained c c' ios) :
    SameInput c c' := by
  rw [h.same]
  exact ⟨rfl, rfl, rfl⟩

theorem Loaded.sameInput {c c' : Conn} {ka : Bool} {reply : Bytes} (h : Loaded c c' ka reply) :
    SameInput c c' := by
  rw [h.same]
  exact ⟨rfl, rfl, rfl⟩

theorem stopWrite_sameInput (c : Conn) (k : Kernel) (e : Exit) :
    SameInput c (stopWrite c k e).conn := by
  rw [stopWrite]
  split
  · exact .refl c
  · exact ⟨rfl, rfl, rfl⟩

theorem finishWrite_sameInput (c : Conn) (k : Kernel) : SameInput c (finishWrite c k).conn :=
  ⟨rfl, rfl, rfl⟩

theorem writeFromBuffer_sameInput (c : Conn) (k : Kernel) :
    SameInput c (writeFromBuffer c k).conn := by
  obtain ⟨c', ios, io', hd, -, ⟨h, -⟩ | ⟨h, -⟩ | ⟨h, -⟩⟩ := writeFromBuffer_cases c k
  · rw [h]; exact hd.sameInput.trans (stopWrite_sameInput ..)
  · rw [h]; exact hd.sameInput.trans (stopWrite_sameInput ..)
  · rw [h]; exact hd.sameInput.trans (finishWrite_sameInput c' { k with io := io' })

theorem serve_sameInput (file : Option Bytes) (c : Conn) (k : Kernel) (request : Bytes)
    (keepAlive allowed : Bool) :
    SameInput c (serve file c k request keepAlive allowed).conn := by
  rcases serve_cases file c k request keepAlive allowed with
    ⟨c', reply, -, hl, h⟩ | ⟨status, body, -, h⟩ | ⟨t, -, -, h⟩
  · rw [h]; exact hl.sameInput.trans (writeFromBuffer_sameInput ..)
  · rw [h]; exact .refl c
  · rw [h]; exact .refl c

@[simp] theorem turn_inputBuffer (file : Option Bytes) (c : Conn) (k : Kernel)
    (headers text rest : Bytes) :
    (turn file c k headers text rest).conn.inputBuffer = rest :=
  (serve_sameInput ..).inputBuffer

/-- A request that is cut off leaves the rest of the buffer, and is not empty. -/
theorem nextFrame_request {buf headers text rest : Bytes}
    (h : nextFrame buf = .request headers text rest) : text ++ rest = buf ∧ 4 ≤ text.length := by
  unfold nextFrame at h
  split at h
  · split at h <;> exact absurd h (by simp)
  · dsimp only at h
    split at h
    · exact absurd h (by simp)
    · split at h
      · exact absurd h (by simp)
      · simp only [Frame.request.injEq] at h
        obtain ⟨-, rfl, rfl⟩ := h
        refine ⟨List.take_append_drop _ _, ?_⟩
        rw [List.length_take]
        omega

/-- What is left in the buffer is shorter. -/
theorem length_rest_lt {buf headers text rest : Bytes}
    (h : nextFrame buf = .request headers text rest) : rest.length < buf.length := by
  obtain ⟨happ, hlen⟩ := nextFrame_request h
  rw [← happ, List.length_append]
  omega

/-- The fuel of the loop is enough: more of it changes nothing. -/
theorem processLoop_fuel (file : Option Bytes) : ∀ (fuel fuel' : ℕ) (c : Conn) (k : Kernel),
    c.inputBuffer.length < fuel → c.inputBuffer.length < fuel' →
    processLoop file fuel c k = processLoop file fuel' c k
  | 0, _, _, _, h, _ => absurd h (by omega)
  | _, 0, _, _, _, h => absurd h (by omega)
  | fuel + 1, fuel' + 1, c, k, h, h' => by
    rw [processLoop, processLoop]
    cases hf : nextFrame c.inputBuffer with
    | incomplete => rfl
    | headerTooLarge => rfl
    | bodyTooLarge => rfl
    | request headers text rest =>
      have hrest := length_rest_lt hf
      have ih := processLoop_fuel file fuel fuel' (turn file c k headers text rest).conn
        (turn file c k headers text rest).kernel (by simp; omega) (by simp; omega)
      simp only [Run.andThen, ih]

/-- A rejection replaces the buffer by a closing response. -/
theorem rejectInput_loaded (c : Conn) (k : Kernel) (status : ℕ) (message : String) : ∃ c' reply,
    Loaded { c with inputBuffer := [] } c' false reply ∧
      rejectInput c k status message =
        ((writeFromBuffer c' k).after [.issue false reply]).after [.frame, .reject status] := by
  obtain ⟨c', hl, h⟩ := sendResponse_loaded { c with inputBuffer := [] } k status
    (lit "application/json") (errorJson message) false
  exact ⟨c', _, hl, by rw [rejectInput, h]⟩

/-- The request loop, as one equation. -/
theorem processRequests_eq (file : Option Bytes) (c : Conn) (k : Kernel) :
    processRequests file c k =
      match nextFrame c.inputBuffer with
      | .incomplete => ⟨c, k, [.frame]⟩
      | .headerTooLarge => rejectInput c k 400 "request header too large"
      | .bodyTooLarge => rejectInput c k 413 "request body too large"
      | .request headers text rest =>
        if wantKeepAlive text headers then
          (turn file c k headers text rest).andThen (processRequests file)
        else turn file c k headers text rest := by
  rw [processRequests, processLoop]
  cases hf : nextFrame c.inputBuffer with
  | incomplete => rfl
  | headerTooLarge => rfl
  | bodyTooLarge => rfl
  | request headers text rest =>
    have hrest := length_rest_lt hf
    have hfuel : processLoop file c.inputBuffer.length (turn file c k headers text rest).conn
        (turn file c k headers text rest).kernel = processRequests file
          (turn file c k headers text rest).conn (turn file c k headers text rest).kernel :=
      processLoop_fuel file _ _ _ _ (by simp; omega) (by simp)
    simp only [Run.andThen, hfuel]

/-- **Induction along the request loop.**  A property of the loop's runs holds if it holds of a
turn that stops, and passes from the rest of the loop to a turn that goes round. -/
theorem processRequests_induct (file : Option Bytes) {P : Conn → Kernel → Run → Prop}
    (incomplete : ∀ c k, nextFrame c.inputBuffer = .incomplete → P c k ⟨c, k, [.frame]⟩)
    (reject : ∀ c k status message, (nextFrame c.inputBuffer = .headerTooLarge ∧ status = 400 ∨
      nextFrame c.inputBuffer = .bodyTooLarge ∧ status = 413) →
      P c k (rejectInput c k status message))
    (close : ∀ c k headers text rest, nextFrame c.inputBuffer = .request headers text rest →
      wantKeepAlive text headers = false → P c k (turn file c k headers text rest))
    (next : ∀ c k headers text rest, nextFrame c.inputBuffer = .request headers text rest →
      wantKeepAlive text headers = true →
      P (turn file c k headers text rest).conn (turn file c k headers text rest).kernel
        (processRequests file (turn file c k headers text rest).conn
          (turn file c k headers text rest).kernel) →
      P c k ((turn file c k headers text rest).andThen (processRequests file)))
    (c : Conn) (k : Kernel) : P c k (processRequests file c k) := by
  induction hn : c.inputBuffer.length using Nat.strong_induction_on generalizing c k with
  | _ n ih =>
    rw [processRequests_eq]
    cases hf : nextFrame c.inputBuffer with
    | incomplete => exact incomplete c k hf
    | headerTooLarge => exact reject c k 400 _ (.inl ⟨hf, rfl⟩)
    | bodyTooLarge => exact reject c k 413 _ (.inr ⟨hf, rfl⟩)
    | request headers text rest =>
      dsimp only
      split
      · rename_i hka
        exact next c k headers text rest hf hka (ih rest.length (hn ▸ length_rest_lt hf) _ _ (by simp))
      · rename_i hka
        exact close c k headers text rest hf (by simpa using hka)

/-- Every run of the request loop begins with a look at the buffer. -/
theorem processRequests_acts (file : Option Bytes) (c : Conn) (k : Kernel) :
    ∃ acts, (processRequests file c k).acts = .frame :: acts := by
  refine processRequests_induct file (P := fun _ _ r ↦ ∃ acts, r.acts = .frame :: acts) ?_ ?_ ?_ ?_ c k
  · intro c k _
    exact ⟨[], rfl⟩
  · intro c k status message _
    exact ⟨_, rfl⟩
  · intro c k headers text rest _ _
    exact ⟨_, rfl⟩
  · intro c k headers text rest _ _ _
    exact ⟨_, rfl⟩

/-! ## The results a call does not use -/

theorem serve_io (file : Option Bytes) (c : Conn) (k : Kernel) (request : Bytes)
    (ka allowed : Bool) : (serve file c k request ka allowed).kernel.io <:+ k.io := by
  rcases serve_cases file c k request ka allowed with
    ⟨c', reply, -, -, h⟩ | ⟨status, body, -, h⟩ | ⟨t, -, -, h⟩
  · rw [h]
    obtain ⟨c'', ios, io', -, hio, ⟨h, -⟩ | ⟨h, -⟩ | ⟨h, -⟩⟩ := writeFromBuffer_cases c' k
    all_goals
      rw [h]
      exact hio
  · rw [h]
    exact (drain_spec _ _ _ _).2.2
  · rw [h]

theorem allowRequest_io (k : Kernel) : (allowRequest k).2.io = k.io := by
  rw [allowRequest]
  split <;> rfl

theorem turn_io (file : Option Bytes) (c : Conn) (k : Kernel) (headers text rest : Bytes) :
    (turn file c k headers text rest).kernel.io <:+ k.io := by
  have key := serve_io file { c with inputBuffer := rest } (allowRequest k).2 text
    (wantKeepAlive text headers) (allowRequest k).1
  rwa [allowRequest_io] at key

/-! ## A read event -/

/-- The bytes a read event appends to the input buffer, and whether it ends at `EAGAIN`. -/
def readAll : List ReadResult → Bytes × Bool
  | [] => ([], true)
  | .got [] :: _ => ([], false)
  | .got (b :: bs) :: rs => (b :: bs ++ (readAll rs).1, (readAll rs).2)
  | .fail .EINTR :: rs => readAll rs
  | .fail .EAGAIN :: _ => ([], true)
  | .fail .other :: _ => ([], false)

theorem readLoop_eq (c : Conn) (reads : List ReadResult) : ∃ acts,
    readLoop c reads =
      ({ c with inputBuffer := c.inputBuffer ++ (readAll reads).1 }, acts, (readAll reads).2) ∧
      (∀ a ∈ acts, a = .touch ∨ ∃ r, a = .read r) ∧
      ((readAll reads).2 = true → .read (.fail .EAGAIN) ∈ acts) := by
  induction reads generalizing c with
  | nil => exact ⟨[.read (.fail .EAGAIN)], by simp [readLoop, readAll], by simp, by simp⟩
  | cons r rs ih =>
    match r with
    | .got [] =>
      exact ⟨[.read (.got [])], by simp [readLoop, readAll], by simp, by simp [readAll]⟩
    | .got (b :: bs) =>
      obtain ⟨acts, he, hacts, hlast⟩ := ih { c with inputBuffer := c.inputBuffer ++ b :: bs }
      refine ⟨_, by rw [readLoop, he]; simp [readAll]; rfl, ?_, ?_⟩
      · rintro a ha
        rcases List.mem_cons.mp ha with rfl | ha
        · exact .inr ⟨_, rfl⟩
        · rcases List.mem_cons.mp ha with rfl | ha
          · exact .inl rfl
          · exact hacts a ha
      · intro h
        exact List.mem_cons_of_mem _ (List.mem_cons_of_mem _ (hlast h))
    | .fail .EINTR =>
      obtain ⟨acts, he, hacts, hlast⟩ := ih c
      refine ⟨_, by rw [readLoop, he]; simp [readAll]; rfl, ?_, ?_⟩
      · rintro a ha
        rcases List.mem_cons.mp ha with rfl | ha
        · exact .inr ⟨_, rfl⟩
        · exact hacts a ha
      · intro h
        exact List.mem_cons_of_mem _ (hlast h)
    | .fail .EAGAIN =>
      exact ⟨[.read (.fail .EAGAIN)], by simp [readLoop, readAll], by simp, by simp⟩
    | .fail .other =>
      exact ⟨[.read (.fail .other)], by simp [readLoop, readAll], by simp, by simp [readAll]⟩

/-- A connection after a read event at time `now` has appended `bs` to its input. -/
def Conn.received (c : Conn) (now : ℕ) (bs : Bytes) : Conn :=
  { c with lastActiveSec := now, inputBuffer := c.inputBuffer ++ bs }

/-- **A read event** appends what it read and runs the request loop, or ends the connection. -/
theorem handleMessage_cases (file : Option Bytes) (c : Conn) (now : ℕ) (reads : List ReadResult)
    (k : Kernel) : ∃ acts, (∀ a ∈ acts, a = .touch ∨ ∃ r, a = .read r) ∧
      ((readAll reads).2 = true ∧ .read (.fail .EAGAIN) ∈ acts ∧
        handleMessage file c now reads k =
          (processRequests file (c.received now (readAll reads).1) k).after acts ∨
        (readAll reads).2 = false ∧ handleMessage file c now reads k =
          ⟨c.received now (readAll reads).1, k, acts ++ [.delete]⟩) := by
  obtain ⟨acts, he, hacts, hlast⟩ := readLoop_eq { c with lastActiveSec := now } reads
  refine ⟨.touch :: acts, ?_, ?_⟩
  · intro a ha
    rcases List.mem_cons.mp ha with rfl | ha
    · exact .inl rfl
    · exact hacts a ha
  · rw [handleMessage, he]
    dsimp only
    cases h : (readAll reads).2 with
    | true => exact .inl ⟨rfl, List.mem_cons_of_mem _ (hlast h), rfl⟩
    | false => exact .inr ⟨rfl, rfl⟩

theorem not_delete_reads {acts : List Act} (h : ∀ a ∈ acts, a = .touch ∨ ∃ r, a = .read r) :
    .delete ∉ acts := by
  intro hmem
  rcases h _ hmem with h | ⟨r, h⟩
  · exact absurd h (by simp)
  · exact absurd h (by simp)

/-! ## A step of a session -/

theorem Session.step_of_alive (file : Option Bytes) {s : Session} (h : s.alive = true) (e : Event) :
    s.step file e = ⟨(handle file s.conn e).conn, s.trace ++ (handle file s.conn e).acts⟩ := if_pos h

theorem Session.step_of_not_alive (file : Option Bytes) {s : Session} (h : s.alive = false)
    (e : Event) : s.step file e = s := if_neg (by simp [h])

theorem Session.run_cons (file : Option Bytes) (s : Session) (e : Event) (es : List Event) :
    Session.run file s (e :: es) = Session.run file (s.step file e) es := rfl

theorem Session.run_concat (file : Option Bytes) (s : Session) (es : List Event) (e : Event) :
    Session.run file s (es ++ [e]) = (Session.run file s es).step file e := List.foldl_concat ..

end ReactorServer
