import ReactorServer.Connection.Cases
import Mathlib.Data.List.Forall2

/-!
# A response drains once

Many connections send at the same time, one response each, and those that send the static file
borrow one descriptor.  A connection gets on with its response in `writeFromBuffer`, directly or
through `handleWrite`; between any two of its system calls the others make theirs.

`sendfile` is given the offset to read from, and advances it by what it returns.  So the position
is the connection's own (`OpenFile`), and what a connection does depends on its own results only:
its actions are those of `writeFromBuffer`, and the interleaving is in when they are performed.

`Sends` says of a list of actions that it sends its response in order, announces the end not before
everything is out, and then calls the delete callback once if the connection is to be closed.  `SendsAll`
adds that the end is announced when everything is out.  Both hold of every drain without errors, and
pass from one drain to the next.  And a drain gets on with the response when there is room in the socket
(`writeFromBuffer_sends_some`).
-/

set_option autoImplicit false

namespace ReactorServer

/-! ## What one drain does -/

/-- These actions send `whole` up to `rest`.  `complete` comes when everything has been sent; the
delete callback is called after that, at the very end, and only if `close` is set. -/
structure Sends (close : Bool) (whole rest : Bytes) (acts : List Act) : Prop where
  bytes : sentBytes acts ++ rest = whole
  complete : ∀ pre post, acts = pre ++ .complete :: post → sentBytes pre = whole
  delete : ∀ pre post, acts = pre ++ .delete :: post →
    post = [] ∧ close = true ∧ .complete ∈ pre
  closes : .complete ∈ acts → close = true → .delete ∈ acts

namespace Sends

variable {close : Bool} {whole mid rest : Bytes} {as bs : List Act}

theorem nil (close : Bool) (whole : Bytes) : Sends close whole whole [] where
  bytes := rfl
  complete pre post h := by simp at h
  delete pre post h := by simp at h
  closes h := by cases h

/-- Actions that only send. -/
theorem of_forall (hbytes : sentBytes as ++ rest = whole)
    (has : ∀ a ∈ as, a ≠ .complete ∧ a ≠ .delete) : Sends close whole rest as where
  bytes := hbytes
  complete pre post h := absurd rfl (has .complete (by simp [h])).1
  delete pre post h := absurd rfl (has .delete (by simp [h])).2
  closes h := absurd rfl (has .complete h).1

/-- **One drain after the other.** -/
theorem append (ha : Sends close whole mid as) (halive : .delete ∉ as) (hb : Sends close mid rest bs) :
    Sends close whole rest (as ++ bs) where
  bytes := by rw [sentBytes_append, List.append_assoc, hb.bytes, ha.bytes]
  complete pre post h := by
    rcases List.append_eq_append_iff.mp h with ⟨l, rfl, h'⟩ | ⟨l, rfl, h'⟩
    · rw [sentBytes_append, hb.complete l post h', ha.bytes]
    · cases l with
      | nil =>
        have hmid := hb.complete [] post (by rw [h']; rfl)
        rw [← ha.bytes, ← hmid, sentBytes_nil, List.append_nil, List.append_nil]
      | cons a l =>
        obtain ⟨rfl, rfl⟩ := List.cons.inj h'
        exact ha.complete pre l rfl
  delete pre post h := by
    rcases List.append_eq_append_iff.mp h with ⟨l, rfl, h'⟩ | ⟨l, rfl, h'⟩
    · obtain ⟨hpost, hclose, hmem⟩ := hb.delete l post h'
      exact ⟨hpost, hclose, List.mem_append_right _ hmem⟩
    · cases l with
      | nil =>
        obtain ⟨-, -, hmem⟩ := hb.delete [] post (by rw [h']; rfl)
        cases hmem
      | cons a l =>
        obtain ⟨rfl, rfl⟩ := List.cons.inj h'
        exact absurd (by simp) halive
  closes h hclose := by
    rcases List.mem_append.mp h with h | h
    · exact List.mem_append_left _ (ha.closes h hclose)
    · exact List.mem_append_right _ (hb.closes h hclose)

/-- The end of a response. -/
theorem finish (close : Bool) {l : List Act} (hl : ∀ a ∈ l, a.sent = [] ∧ a ≠ .delete) :
    Sends close [] [] (.complete :: (l ++ if close then [.delete] else [])) where
  bytes := by
    rw [List.append_nil, sentBytes, List.flatMap_eq_nil_iff]
    rintro a ha
    rcases List.mem_cons.mp ha with rfl | ha
    · rfl
    rcases List.mem_append.mp ha with ha | ha
    · exact (hl a ha).1
    · cases close with
      | true => rw [List.mem_singleton.mp ha]; rfl
      | false => cases ha
  complete pre post h := by
    have hnil : sentBytes (.complete :: (l ++ if close then [.delete] else [])) = [] := by
      rw [sentBytes_cons, sentBytes_append]
      have hl' : sentBytes l = [] := List.flatMap_eq_nil_iff.mpr fun a ha ↦ (hl a ha).1
      rw [hl']
      cases close <;> rfl
    rw [h, sentBytes_append, List.append_eq_nil_iff] at hnil
    exact hnil.1
  delete pre post h := by
    cases pre with
    | nil => cases h
    | cons a pre =>
      obtain ⟨rfl, htail⟩ := List.cons.inj h
      -- the callback is not among `l`, so it is the last action
      have hlast : ∀ {x : List Act}, (if close then [Act.delete] else []) = x ++ .delete :: post →
          post = [] ∧ close = true := by
        intro x hx
        cases close with
        | false => simp at hx
        | true =>
          cases x with
          | nil => exact ⟨(List.cons.inj hx).2.symm, rfl⟩
          | cons b x => simp at hx
      rcases List.append_eq_append_iff.mp htail with ⟨x, -, hx⟩ | ⟨x, hl', hx⟩
      · exact ⟨(hlast hx).1, (hlast hx).2, List.mem_cons_self⟩
      · cases x with
        | nil => exact ⟨(hlast (x := []) hx.symm).1, (hlast (x := []) hx.symm).2, List.mem_cons_self⟩
        | cons b x =>
          obtain ⟨rfl, -⟩ := List.cons.inj hx
          exact absurd rfl (hl .delete (by simp [hl'])).2
  closes _ hclose := by simp [hclose]

end Sends

/-- The actions of whole drains: when they have sent the last byte, they announce the end. -/
structure SendsAll (close : Bool) (whole rest : Bytes) (acts : List Act) : Prop
    extends Sends close whole rest acts where
  finishes : rest = [] → sentBytes acts ≠ [] → .complete ∈ acts

namespace SendsAll

variable {close : Bool} {whole mid rest : Bytes} {as bs : List Act}

theorem nil (close : Bool) (whole : Bytes) : SendsAll close whole whole [] :=
  ⟨.nil close whole, fun _ h ↦ absurd rfl h⟩

/-- Actions that send nothing. -/
theorem of_quiet (has : ∀ a ∈ as, a.sent = [] ∧ a ≠ .complete ∧ a ≠ .delete) :
    SendsAll close whole whole as := by
  have hbytes : sentBytes as = [] := List.flatMap_eq_nil_iff.mpr fun a ha ↦ (has a ha).1
  exact ⟨.of_forall (by rw [hbytes]; rfl) fun a ha ↦ (has a ha).2, fun _ h ↦ absurd hbytes h⟩

theorem append (ha : SendsAll close whole mid as) (halive : .delete ∉ as)
    (hb : SendsAll close mid rest bs) : SendsAll close whole rest (as ++ bs) where
  toSends := ha.toSends.append halive hb.toSends
  finishes hrest hsent := by
    by_cases hbs : sentBytes bs = []
    · -- the last byte has been sent before
      have hmid : mid = [] := by rw [← hb.bytes, hbs, hrest, List.append_nil]
      rw [sentBytes_append, hbs, List.append_nil] at hsent
      exact List.mem_append_left _ (ha.finishes hmid hsent)
    · exact List.mem_append_right _ (hb.finishes hrest hbs)

end SendsAll

/-- The end of a drain. -/
theorem finishWrite_sends {c : Conn} (k : Kernel) :
    Sends c.closeAfterWrite [] (finishWrite c k).conn.pendingBytes (finishWrite c k).acts := by
  have hpending : (finishWrite c k).conn.pendingBytes = [] := by
    rw [Conn.pendingBytes_eq_nil_iff]
    rfl
  rw [hpending]
  refine Sends.finish c.closeAfterWrite (l := [(disableWriting c.channel).2, .touch]) fun a ha ↦ ?_
  rcases List.mem_pair.mp ha with rfl | rfl
  · exact ⟨rfl, by simp [disableWriting, updateChannel]⟩
  · exact ⟨rfl, by simp⟩

/-- **A drain without errors** sends from where the last one stopped. -/
theorem writeFromBuffer_sendsAll (c : Conn) {k : Kernel} (hk : k.NoError) :
    (writeFromBuffer c k).conn.closeAfterWrite = c.closeAfterWrite ∧
      SendsAll c.closeAfterWrite c.pendingBytes (writeFromBuffer c k).conn.pendingBytes
        (writeFromBuffer c k).acts := by
  obtain ⟨c', ios, io', hd, -, hcases⟩ := writeFromBuffer_cases c k
  have hios : Sends c.closeAfterWrite c.pendingBytes c'.pendingBytes ios := by
    refine .of_forall hd.bytes fun a ha ↦ ?_
    rcases hd.acts a ha with rfl | ⟨r, bs, rfl⟩
    · simp
    · simp
  rcases hcases with ⟨h, -, hne, -⟩ | ⟨-, -, r, hr, hhard⟩ | ⟨h, -, hpending⟩
  · rw [h]
    refine ⟨hd.closeAfterWrite, hios.append hd.not_delete (.of_forall rfl ?_), fun hnil ↦ absurd hnil hne⟩
    simp [stopWrite, enableWriting, updateChannel]
  · rw [hk r hr] at hhard
    cases hhard
  · rw [h]
    refine ⟨hd.closeAfterWrite, hios.append hd.not_delete ?_, fun _ _ ↦ ?_⟩
    · rw [hpending, ← hd.closeAfterWrite]
      exact finishWrite_sends { k with io := io' }
    · exact List.mem_append_right _ (by simp [finishWrite])

theorem handleWrite_sendsAll (c : Conn) {k : Kernel} (hk : k.NoError) :
    (handleWrite c k).conn.closeAfterWrite = c.closeAfterWrite ∧
      SendsAll c.closeAfterWrite c.pendingBytes (handleWrite c k).conn.pendingBytes
        (handleWrite c k).acts := by
  rw [handleWrite]
  cases hout : c.outputPending with
  | true =>
    obtain ⟨hclose, hdrains⟩ := writeFromBuffer_sendsAll c hk
    have htouch : SendsAll c.closeAfterWrite c.pendingBytes c.pendingBytes [.touch] :=
      .of_quiet (by simp [Act.sent])
    exact ⟨hclose, htouch.append (by simp) hdrains⟩
  | false =>
    exact ⟨rfl, .of_quiet (by simp [Act.sent, disableWriting, updateChannel])⟩

/-! ## A socket with room -/

/-- The first call that is not interrupted takes something. -/
def hasRoom : List WriteResult → Bool
  | [] => true
  | .took n :: _ => 0 < n
  | .fail .EINTR :: rs => hasRoom rs
  | .fail _ :: _ => false

theorem drain_nil (look : List Act) (call : WriteResult → Bytes → Act) (io : List WriteResult) :
    drain look call [] io = ⟨0, io, look, .sent⟩ := by
  cases io with
  | nil => rfl
  | cons r rs => exact if_pos rfl

theorem drain_taken_pos (look : List Act) (call : WriteResult → Bytes → Act) {data : Bytes}
    (hdata : data ≠ []) {io : List WriteResult} (hio : hasRoom io = true) :
    0 < (drain look call data io).taken := by
  have hpos : 0 < data.length := List.length_pos_iff.mpr hdata
  induction io with
  | nil =>
    rw [drain, if_neg hdata]
    exact hpos
  | cons r rs ih =>
    rw [drain.eq_def]
    dsimp only
    rw [if_neg hdata]
    split
    · cases hio
    · refine Nat.add_pos_left ?_ _
      rw [List.length_take]
      omega
    · exact Nat.add_pos_right _ (ih hio)
    · cases hio
    · cases hio

theorem sentBytes_writeLoop_ne_nil {c : Conn} {io : List WriteResult} (hc : c.unwritten ≠ [])
    (hio : hasRoom io = true) : sentBytes (writeLoop c io).acts ≠ [] := by
  have hpos := drain_taken_pos [.touch] (.io !c.closeAfterWrite) hc hio
  rw [writeLoop, sentBytes_drain rfl fun _ _ ↦ rfl, ne_eq, List.take_eq_nil_iff]
  exact fun h ↦ h.elim hpos.ne' hc

theorem sentBytes_fileLoop_ne_nil {c : Conn} {io : List WriteResult} (hc : c.unsentFile ≠ [])
    (hio : hasRoom io = true) : sentBytes (fileLoop c io).acts ≠ [] := by
  have hpos := drain_taken_pos [.touch] (.io !c.closeAfterWrite) hc hio
  rw [fileLoop, sentBytes_drain rfl fun _ _ ↦ rfl, ne_eq, List.take_eq_nil_iff]
  exact fun h ↦ h.elim hpos.ne' hc

/-- **A drain sends something** when there is something to send and room for it. -/
theorem writeFromBuffer_sends_some {c : Conn} {k : Kernel} (hc : c.pendingBytes ≠ [])
    (hk : hasRoom k.io = true) : sentBytes (writeFromBuffer c k).acts ≠ [] := by
  rw [writeFromBuffer]
  dsimp only
  by_cases hw : c.unwritten = []
  · -- the header is out, and the file goes on
    have hloop : writeLoop c k.io = ⟨0, k.io, [.touch], .sent⟩ := by rw [writeLoop, hw, drain_nil]
    have hfile : (c.wrote 0).unsentFile ≠ [] := by
      intro h
      exact hc (by rw [Conn.pendingBytes, hw, List.nil_append]; exact h)
    have hsome := sentBytes_fileLoop_ne_nil hfile hk
    rw [hloop, if_neg (by simp)]
    dsimp only
    split
    · rw [Run.after_acts, sentBytes_append, sentBytes_append]
      simp [hsome]
    · rw [Run.after_acts, sentBytes_append, sentBytes_append]
      simp [hsome]
  · have hsome := sentBytes_writeLoop_ne_nil hw hk
    split
    · rw [Run.after_acts, sentBytes_append]
      simp [hsome]
    · split
      · rw [Run.after_acts, sentBytes_append, sentBytes_append]
        simp [hsome]
      · rw [Run.after_acts, sentBytes_append, sentBytes_append]
        simp [hsome]

theorem handleWrite_sends_some {c : Conn} {k : Kernel} (hc : c.pendingBytes ≠ [])
    (hk : hasRoom k.io = true) : sentBytes (handleWrite c k).acts ≠ [] := by
  have hout : c.outputPending = true := by
    rw [← Bool.not_eq_false, ← Conn.pendingBytes_eq_nil_iff]
    exact hc
  rw [handleWrite, if_pos hout, Run.after_acts, sentBytes_append]
  simp [writeFromBuffer_sends_some hc hk]

/-! ## Many connections -/

/-- What a connection is to send: a header string, the static file after it if it is a download, and
whether the connection is closed then. -/
structure Response where
  header : Bytes
  download : Bool
  closeAfterWrite : Bool
  deriving DecidableEq, Repr

/-- All of it. -/
def Response.whole (file : Bytes) (r : Response) : Bytes :=
  r.header ++ if r.download then file else []

/-- Make it the output of a connection, as `sendResponse` and `sendFile` do. -/
def Conn.load (file : Bytes) (c : Conn) (r : Response) : Conn :=
  { c with writeBuf := r.header, writeIndex := 0, closeAfterWrite := r.closeAfterWrite,
           fileFd := if r.download then some (.whole file) else c.fileFd }

/-- `sendResponse` loads a response without the file, and drains it. -/
theorem sendResponse_eq_load (file : Bytes) (c : Conn) (k : Kernel) (statusCode : ℕ)
    (contentType body : Bytes) (keepAlive : Bool) :
    sendResponse c k statusCode contentType body keepAlive =
      (writeFromBuffer (c.load file
        ⟨buildHttpResponse statusCode contentType body keepAlive, false, !keepAlive⟩) k).after
        [.issue keepAlive (buildHttpResponse statusCode contentType body keepAlive)] := rfl

/-- `sendFile` loads its header with the file, and drains them. -/
theorem sendFile_eq_load (file : Bytes) (c : Conn) (k : Kernel) (statusCode : ℕ)
    (contentType : Bytes) (keepAlive : Bool) :
    sendFile c k statusCode contentType file keepAlive =
      (writeFromBuffer (c.load file
        ⟨fileHeader statusCode contentType file.length keepAlive, true, !keepAlive⟩) k).after
        [.issue keepAlive (fileHeader statusCode contentType file.length keepAlive ++ file)] := rfl

/-- A connection that sends: what it has done, and what the running call has still to do. -/
structure Sender where
  conn : Conn
  done : List Act
  todo : List Act
  deriving DecidableEq, Repr

namespace Sender

/-- The bytes the socket has accepted. -/
def accepted (s : Sender) : Bytes := sentBytes s.done

/-- A new connection with its response. -/
def new (file : Bytes) (r : Response) : Sender :=
  { conn := (newConn 0 0).1.load file r, done := [], todo := [] }

/-- A call of a member function, if none is running and the connection still exists. -/
def call (s : Sender) (r : Run) : Sender :=
  if s.todo = [] ∧ .delete ∉ s.done then { s with conn := r.conn, todo := r.acts } else s

/-- The running call performs its next action. -/
def act (s : Sender) : Sender :=
  match s.todo with
  | [] => s
  | a :: todo => { s with done := s.done ++ [a], todo := todo }

end Sender

/-- A step of one of the connections. -/
inductive SendMove where
  /-- Connection `i` calls `writeFromBuffer`. -/
  | write (i : ℕ) (k : Kernel)
  /-- Connection `i` calls `handleWrite`. -/
  | handle (i : ℕ) (k : Kernel)
  /-- Connection `i` performs an action. -/
  | act (i : ℕ)
  deriving DecidableEq, Repr

/-- No call of the step fails for good. -/
def SendMove.NoError : SendMove → Prop
  | .write _ k => k.NoError
  | .handle _ k => k.NoError
  | .act _ => True

instance : ∀ m : SendMove, Decidable m.NoError
  | .write _ k => inferInstanceAs (Decidable k.NoError)
  | .handle _ k => inferInstanceAs (Decidable k.NoError)
  | .act _ => inferInstanceAs (Decidable True)

/-- One step. -/
def sendStep (ss : List Sender) : SendMove → List Sender
  | .write i k => ss.modify i fun s ↦ s.call (writeFromBuffer s.conn k)
  | .handle i k => ss.modify i fun s ↦ s.call (handleWrite s.conn k)
  | .act i => ss.modify i Sender.act

/-! ## The invariant -/

/-- A connection is on its way with a response. -/
def Sender.OnItsWay (file : Bytes) (r : Response) (s : Sender) : Prop :=
  s.conn.closeAfterWrite = r.closeAfterWrite ∧
    SendsAll r.closeAfterWrite (r.whole file) s.conn.pendingBytes (s.done ++ s.todo)

theorem Sender.onItsWay_new (file : Bytes) (r : Response) : (new file r).OnItsWay file r := by
  refine ⟨rfl, ?_⟩
  have hpending : (new file r).conn.pendingBytes = r.whole file := by
    cases hd : r.download <;>
      simp [new, Conn.load, Conn.pendingBytes, Conn.unwritten, Conn.unsentFile, Response.whole, hd,
        newConn]
  rw [hpending]
  exact .nil _ _

theorem Sender.OnItsWay.call {file : Bytes} {r : Response} {s : Sender} (h : s.OnItsWay file r)
    {run : Run} (hrun : run.conn.closeAfterWrite = s.conn.closeAfterWrite ∧
      SendsAll s.conn.closeAfterWrite s.conn.pendingBytes run.conn.pendingBytes run.acts) :
    (s.call run).OnItsWay file r := by
  rw [Sender.call]
  split
  · rename_i hc
    obtain ⟨htodo, halive⟩ := hc
    obtain ⟨hclose, hdrains⟩ := h
    rw [htodo, List.append_nil] at hdrains
    rw [hclose] at hrun
    exact ⟨hrun.1, hdrains.append halive hrun.2⟩
  · exact h

theorem Sender.OnItsWay.act {file : Bytes} {r : Response} {s : Sender} (h : s.OnItsWay file r) :
    s.act.OnItsWay file r := by
  obtain ⟨hclose, hdrains⟩ := h
  rw [Sender.act]
  cases htodo : s.todo with
  | nil => exact ⟨hclose, hdrains⟩
  | cons a todo =>
    refine ⟨hclose, ?_⟩
    rw [htodo] at hdrains
    simpa using hdrains

/-- All connections are, each with its own response. -/
def AllOnTheirWay (file : Bytes) (rs : List Response) (ss : List Sender) : Prop :=
  List.Forall₂ (Sender.OnItsWay file) rs ss

theorem forall₂_modify {α β : Type} {R : α → β → Prop} {f : β → β} (hf : ∀ a b, R a b → R a (f b))
    {as : List α} {bs : List β} (h : List.Forall₂ R as bs) (i : ℕ) :
    List.Forall₂ R as (bs.modify i f) := by
  induction h generalizing i with
  | nil => simp
  | cons hab h ih =>
    cases i with
    | zero => exact .cons (hf _ _ hab) h
    | succ i => exact .cons hab (ih i)

/-- **A step of one connection leaves all of them on their way.** -/
theorem AllOnTheirWay.step {file : Bytes} {rs : List Response} {ss : List Sender}
    (h : AllOnTheirWay file rs ss) {m : SendMove} (hm : m.NoError) :
    AllOnTheirWay file rs (sendStep ss m) := by
  cases m with
  | write i k =>
    exact forall₂_modify (fun r s hs ↦ hs.call (writeFromBuffer_sendsAll s.conn hm)) h i
  | handle i k => exact forall₂_modify (fun r s hs ↦ hs.call (handleWrite_sendsAll s.conn hm)) h i
  | act i => exact forall₂_modify (fun r s hs ↦ hs.act) h i

theorem allOnTheirWay_run {file : Bytes} {rs : List Response} {ss : List Sender}
    (h : AllOnTheirWay file rs ss) {ms : List SendMove} (hms : ∀ m ∈ ms, m.NoError) :
    AllOnTheirWay file rs (ms.foldl sendStep ss) := by
  induction ms generalizing ss with
  | nil => exact h
  | cons m ms ih =>
    obtain ⟨hm, hms⟩ := List.forall_mem_cons.mp hms
    exact ih (h.step hm) hms

theorem allOnTheirWay_new (file : Bytes) (rs : List Response) :
    AllOnTheirWay file rs (rs.map (Sender.new file)) := by
  induction rs with
  | nil => exact .nil
  | cons r rs ih => exact .cons (Sender.onItsWay_new file r) ih

/-! ## What one sees of a response -/

/-- The response goes out once. -/
structure Sender.DrainsOnce (file : Bytes) (r : Response) (s : Sender) : Prop where
  /-- What has been accepted is the front of the response. -/
  accepted : s.accepted <+: r.whole file
  /-- The drain finishes only with all of it. -/
  complete : .complete ∈ s.done → s.accepted = r.whole file
  /-- With all of it, it does finish. -/
  finished : s.todo = [] → s.accepted = r.whole file → r.whole file ≠ [] → .complete ∈ s.done
  /-- Until then, either of the two functions sends something as soon as there is room. -/
  progress : s.todo = [] → s.accepted ≠ r.whole file → ∀ k : Kernel, hasRoom k.io = true →
    sentBytes (s.call (writeFromBuffer s.conn k)).todo ≠ [] ∧
      sentBytes (s.call (handleWrite s.conn k)).todo ≠ []
  /-- The delete callback is not called before the drain has finished, and never twice. -/
  delete : .delete ∈ s.done → .complete ∈ s.done
  count_le : s.done.count .delete ≤ if r.closeAfterWrite then 1 else 0
  /-- Once the drain has finished, it has been called exactly if the connection is to be closed. -/
  count : s.todo = [] → .complete ∈ s.done → s.done.count .delete = if r.closeAfterWrite then 1 else 0

theorem Sends.count_delete_le {close : Bool} {whole rest : Bytes} {acts : List Act}
    (h : Sends close whole rest acts) : acts.count .delete ≤ if close then 1 else 0 := by
  by_cases hmem : Act.delete ∈ acts
  · obtain ⟨pre, post, hacts, hpre⟩ := List.eq_append_cons_of_mem hmem
    obtain ⟨rfl, rfl, -⟩ := h.delete pre post hacts
    rw [hacts, List.count_append, List.count_eq_zero_of_not_mem hpre]
    simp
  · rw [List.count_eq_zero_of_not_mem hmem]
    exact Nat.zero_le _

theorem Sends.complete_of_delete {close : Bool} {whole rest : Bytes} {as bs : List Act}
    (h : Sends close whole rest (as ++ bs)) (hmem : .delete ∈ as) : .complete ∈ as := by
  obtain ⟨pre, post, rfl⟩ := List.append_of_mem hmem
  have hpre := (h.delete pre (post ++ bs) (by simp)).2.2
  exact List.mem_append_left _ hpre

/-- What has been announced as the end is the end. -/
theorem Sends.sentBytes_of_complete {close : Bool} {whole rest : Bytes} {as bs : List Act}
    (h : Sends close whole rest (as ++ bs)) (hmem : .complete ∈ as) : sentBytes as = whole := by
  obtain ⟨pre, post, rfl⟩ := List.append_of_mem hmem
  have hpre := h.complete pre (post ++ bs) (by simp)
  have hfront : sentBytes (pre ++ .complete :: post) <+: whole := by
    rw [← h.bytes, sentBytes_append _ bs, List.append_assoc]
    exact List.prefix_append ..
  refine hfront.eq_of_length_le ?_
  rw [sentBytes_append, hpre, List.length_append]
  exact Nat.le_add_right _ _

/-- A call of a connection that has not sent everything. -/
theorem Sender.OnItsWay.call_todo {file : Bytes} {r : Response} {s : Sender}
    (h : s.OnItsWay file r) (htodo : s.todo = []) (hne : s.accepted ≠ r.whole file) (run : Run) :
    (s.call run).todo = run.acts := by
  have halive : .delete ∉ s.done := fun hmem ↦
    hne (h.2.sentBytes_of_complete (h.2.complete_of_delete hmem))
  rw [Sender.call, if_pos ⟨htodo, halive⟩]

theorem Sender.OnItsWay.drainsOnce {file : Bytes} {r : Response} {s : Sender}
    (h : s.OnItsWay file r) : s.DrainsOnce file r := by
  obtain ⟨-, hdrains⟩ := id h
  have hle := hdrains.count_delete_le
  rw [List.count_append] at hle
  have hbytes : s.todo = [] → s.accepted ++ s.conn.pendingBytes = r.whole file := fun htodo ↦ by
    rw [← hdrains.bytes, htodo, List.append_nil]
    rfl
  refine ⟨?_, hdrains.sentBytes_of_complete, fun htodo hall hne ↦ ?_, fun htodo hne k hk ↦ ?_,
    hdrains.complete_of_delete, by omega, fun htodo hmem ↦ ?_⟩
  · refine ⟨sentBytes s.todo ++ s.conn.pendingBytes, ?_⟩
    rw [← hdrains.bytes, sentBytes_append, List.append_assoc]
    rfl
  · have hpending : s.conn.pendingBytes = [] := by
      exact List.append_right_eq_self.mp ((hbytes htodo).trans hall.symm)
    rw [htodo, List.append_nil] at hdrains
    refine hdrains.finishes hpending ?_
    rw [← Sender.accepted, hall]
    exact hne
  · have hpending : s.conn.pendingBytes ≠ [] := by
      intro hnil
      rw [← hbytes htodo, hnil, List.append_nil] at hne
      exact hne rfl
    rw [h.call_todo htodo hne, h.call_todo htodo hne]
    exact ⟨writeFromBuffer_sends_some hpending hk, handleWrite_sends_some hpending hk⟩
  · rw [htodo, List.append_nil] at hdrains
    rw [htodo, List.count_nil, Nat.add_zero] at hle
    cases hclose : r.closeAfterWrite with
    | false => simpa [hclose] using hle
    | true =>
      have hdel := hdrains.closes hmem hclose
      have hpos : 0 < s.done.count .delete := List.count_pos_iff.mpr hdel
      simp only [hclose, if_true] at hle ⊢
      omega

/-- **Every response drains exactly once**, for any number of connections and any interleaving of
their calls, when no call fails for good. -/
theorem responses_drain_once (file : Bytes) (rs : List Response) {ms : List SendMove}
    (hms : ∀ m ∈ ms, m.NoError) :
    List.Forall₂ (Sender.DrainsOnce file) rs (ms.foldl sendStep (rs.map (Sender.new file))) :=
  List.Forall₂.imp (fun _ _ h ↦ h.drainsOnce) (allOnTheirWay_run (allOnTheirWay_new file rs) hms)

/-- Two downloads and a page: the first download is interrupted in its header and in the file, and
the others get on in between. -/
def threeResponses : List Response :=
  [⟨lit "head", true, true⟩, ⟨lit "HEAD", true, false⟩, ⟨lit "page", false, true⟩]

/-- The second download and the page come to their ends, and the page closes its connection. -/
def threeInterleaved : List SendMove :=
  [.write 0 ⟨[.took 2, .fail .EAGAIN], []⟩, .act 0, .act 0, .write 1 ⟨[.fail .EINTR, .took 3], []⟩,
    .act 1, .act 1, .act 1, .act 0, .act 0, .act 0, .write 2 ⟨[], []⟩, .act 2, .act 2,
    .handle 0 ⟨[.took 3, .took 1, .fail .EAGAIN], []⟩, .act 0, .act 0, .act 0, .act 1, .act 0] ++
  List.replicate 5 (.act 0) ++ List.replicate 9 (.act 1) ++ List.replicate 9 (.act 2)

theorem responses_drain_once_three :
    List.Forall₂ (Sender.DrainsOnce (lit "file")) threeResponses
        (threeInterleaved.foldl sendStep (threeResponses.map (Sender.new (lit "file")))) ∧
      (threeInterleaved.foldl sendStep (threeResponses.map (Sender.new (lit "file")))).map
          (fun s ↦ (s.accepted, s.done.count .complete, s.done.count .delete)) =
        [(lit "headf", 0, 0), (lit "HEADfile", 1, 0), (lit "page", 1, 1)] :=
  ⟨responses_drain_once (lit "file") threeResponses (by decide), by decide +kernel⟩

end ReactorServer
