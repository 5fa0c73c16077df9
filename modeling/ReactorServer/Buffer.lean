import ReactorServer.Bytes
import ReactorServer.Lib.Machine

/-!
# `class Buffer`

A `Buffer` is a `std::vector<char>`.  `c_str` puts a terminator into that very vector, and `size`
leaves out a last byte that looks like one.  So the terminator and the data can be mistaken for each
other: data that ends in a NUL byte is counted one byte short, and what is appended after `c_str`
comes behind the terminator.

`History` is what the calls so far amount to: the bytes that were appended or set, and whether a
terminator has been put behind them.  `Careful` is the condition on a call under which the buffer
does what it should (`Holds.right`).  `PlainUpdate` is the condition on an update under which this
is so wherever one looks at the buffer in between, and it is the exact one (`plain_of_right`).
-/

set_option autoImplicit false

namespace ReactorServer

open Machine

/-! ## The class -/

/-- `class Buffer`: the vector `buf_`. -/
structure Buffer where
  buf : Bytes := []
  deriving DecidableEq, Repr

namespace Buffer

/-- `Buffer::append`.  The pointer is `none` if it is null, and otherwise the memory it points at. -/
def append (b : Buffer) (str : Option Bytes) (size : ℤ) : Buffer :=
  match str with
  | none => b
  | some mem => if size ≤ 0 then b else ⟨b.buf ++ mem.take size.toNat⟩

/-- `Buffer::size`. -/
def size (b : Buffer) : ℕ :=
  if b.buf ≠ [] ∧ b.buf.getLast? = some 0 then b.buf.length - 1 else b.buf.length

/-- `Buffer::c_str`: the array it returns a pointer to. -/
def cStr (b : Buffer) : Buffer × Bytes :=
  if b.buf = [] then (b, [0])
  else if b.buf.getLast? ≠ some 0 then (⟨b.buf ++ [0]⟩, b.buf ++ [0])
  else (b, b.buf)

/-- `Buffer::clear`. -/
def clear (_ : Buffer) : Buffer := ⟨[]⟩

/-- `Buffer::setBuf`. -/
def setBuf (b : Buffer) (str : Option Bytes) : Buffer :=
  match str with
  | none => b.clear
  | some mem => ⟨cstr mem⟩

end Buffer

/-- A call that is meant to change the buffer. -/
inductive BufferUpdate where
  | append (str : Option Bytes) (size : ℤ)
  | setBuf (str : Option Bytes)
  | clear
  deriving DecidableEq, Repr

/-- A call. -/
inductive BufferCall where
  | update (u : BufferUpdate)
  | size
  | cStr
  deriving DecidableEq, Repr

/-- What a call shows of the buffer. -/
inductive Shown where
  | size (n : ℕ)
  | text (bs : Bytes)
  deriving DecidableEq, Repr

/-- The buffer after an update. -/
def Buffer.update (b : Buffer) : BufferUpdate → Buffer
  | .append str size => b.append str size
  | .setBuf str => b.setBuf str
  | .clear => b.clear

/-- The buffer after a call. -/
def Buffer.step (b : Buffer) : BufferCall → Buffer
  | .update u => b.update u
  | .size => b
  | .cStr => b.cStr.1

/-- What a call returns. -/
def Buffer.shows (b : Buffer) : BufferCall → List Shown
  | .update _ => []
  | .size => [.size b.size]
  | .cStr => [.text b.cStr.2]

/-! ## What the calls amount to -/

/-- The bytes an `append` hands over. -/
def appended (str : Option Bytes) (size : ℤ) : Bytes := (str.getD []).take size.toNat

/-- The bytes appended or set since the last `clear` or `setBuf`, after one more update. -/
def contentsAfter (contents : Bytes) : BufferUpdate → Bytes
  | .append str size => contents ++ appended str size
  | .setBuf str => cstr (str.getD [])
  | .clear => []

/-- The last byte there is is not a NUL. -/
def OpenEnded (contents : Bytes) : Prop := contents.getLast? ≠ some 0

instance (contents : Bytes) : Decidable (OpenEnded contents) :=
  inferInstanceAs (Decidable (_ ≠ _))

/-- The calls so far: what has been appended or set, and whether `c_str` has put a terminator
behind it. -/
structure History where
  contents : Bytes := []
  terminated : Bool := false
  deriving DecidableEq, Repr

namespace History

/-- One more call. -/
def step (h : History) : BufferCall → History
  | .update (.append str size) => { h with contents := contentsAfter h.contents (.append str size) }
  | .update u => ⟨contentsAfter h.contents u, false⟩
  | .size => h
  | .cStr => { h with terminated := h.terminated || !h.contents.isEmpty }

/-- What a call should return: how many bytes there are, and the bytes and a NUL. -/
def shows (h : History) : BufferCall → List Shown
  | .update _ => []
  | .size => [.size h.contents.length]
  | .cStr => [.text (h.contents ++ [0])]

/-- The condition on a call: nothing is appended behind a terminator, and nobody looks at contents
that end in a NUL byte. -/
def Careful (h : History) : BufferCall → Prop
  | .update (.append str size) => appended str size = [] ∨ h.terminated = false
  | .update _ => True
  | .size => OpenEnded h.contents
  | .cStr => OpenEnded h.contents

instance (h : History) : ∀ o : BufferCall, Decidable (h.Careful o)
  | .update (.append ..) => inferInstanceAs (Decidable (_ ∨ _))
  | .update (.setBuf _) => inferInstanceAs (Decidable True)
  | .update .clear => inferInstanceAs (Decidable True)
  | .size => inferInstanceAs (Decidable (OpenEnded _))
  | .cStr => inferInstanceAs (Decidable (OpenEnded _))

end History

/-- The condition on an update under which it does not matter where one looks at the buffer: the
contents do not end in a NUL byte, and bytes are appended to an empty buffer only. -/
def PlainUpdate (contents : Bytes) (u : BufferUpdate) : Prop :=
  OpenEnded (contentsAfter contents u) ∧
    ∀ str size, u = .append str size → appended str size = [] ∨ contents = []

/-- The updates among some calls. -/
def updates : List BufferCall → List BufferUpdate
  | [] => []
  | .update u :: calls => u :: updates calls
  | .size :: calls => updates calls
  | .cStr :: calls => updates calls

/-- From here on, every call returns what it should. -/
def RightFrom (b : Buffer) (h : History) (calls : List BufferCall) : Prop :=
  trace Buffer.step Buffer.shows b calls = trace History.step History.shows h calls

/-- Every call returns what it should. -/
def Right (calls : List BufferCall) : Prop := RightFrom {} {} calls

/-! ## Careful calls -/

/-- The vector holds the contents, and the terminator if there is one. -/
structure Holds (b : Buffer) (h : History) : Prop where
  buf : b.buf = h.contents ++ if h.terminated then [0] else []
  contents : h.terminated = true → h.contents ≠ []

theorem buf_append (b : Buffer) (str : Option Bytes) (size : ℤ) :
    (b.append str size).buf = b.buf ++ appended str size := by
  unfold Buffer.append appended
  cases str with
  | none => simp
  | some mem =>
    dsimp only
    split
    · rename_i hle
      rw [Int.toNat_of_nonpos hle]
      simp
    · rfl

theorem buf_setBuf (b : Buffer) (str : Option Bytes) :
    (b.setBuf str).buf = cstr (str.getD []) := by
  cases str with
  | none => rfl
  | some mem => rfl

/-- With no terminator in it, the vector is the contents. -/
theorem buf_update (b : Buffer) (u : BufferUpdate) :
    (b.update u).buf = contentsAfter b.buf u := by
  rcases u with ⟨str, size⟩ | ⟨str⟩ | _
  · exact buf_append b str size
  · exact buf_setBuf b str
  · rfl

/-- `size` and `c_str` on a vector with a terminator. -/
theorem Holds.of_terminated {b : Buffer} {h : History} (hb : Holds b h)
    (ht : h.terminated = true) : b.size = h.contents.length ∧ b.cStr = (b, h.contents ++ [0]) := by
  have hbuf : b.buf = h.contents ++ [0] := by rw [hb.buf, ht, if_pos rfl]
  rw [Buffer.size, Buffer.cStr, hbuf]
  simp

/-- `size` and `c_str` on a vector without one. -/
theorem Holds.of_not_terminated {b : Buffer} {h : History} (hb : Holds b h)
    (ht : h.terminated = false) (hopen : OpenEnded h.contents) :
    b.size = h.contents.length ∧ b.cStr.2 = h.contents ++ [0] ∧
      b.cStr.1.buf = h.contents ++ if h.contents = [] then [] else [0] := by
  have hbuf : b.buf = h.contents := by simpa [ht] using hb.buf
  have hlast : h.contents.getLast? ≠ some 0 := hopen
  rw [Buffer.size, Buffer.cStr, hbuf, if_neg fun h0 ↦ hlast h0.2, if_pos hlast]
  by_cases hnil : h.contents = []
  · simp [hnil, hbuf]
  · simp [hnil]

theorem Holds.step {b : Buffer} {h : History} (hb : Holds b h) {o : BufferCall}
    (ho : h.Careful o) : Holds (b.step o) (h.step o) ∧ b.shows o = h.shows o := by
  rcases o with (⟨str, size⟩ | ⟨str⟩ | _) | _ | _
  · refine ⟨⟨?_, fun ht ↦ ?_⟩, rfl⟩
    · show (b.append str size).buf = h.contents ++ appended str size ++ if h.terminated then [0] else []
      rw [buf_append, hb.buf]
      rcases ho with hnil | ht
      · simp [hnil]
      · simp [ht]
    · exact List.append_ne_nil_of_left_ne_nil (hb.contents ht) _
  · exact ⟨⟨(buf_setBuf b str).trans (List.append_nil _).symm, by simp [History.step]⟩, rfl⟩
  · exact ⟨⟨rfl, by simp [History.step]⟩, rfl⟩
  · refine ⟨hb, ?_⟩
    rw [Buffer.shows, History.shows]
    by_cases ht : h.terminated = true
    · rw [(hb.of_terminated ht).1]
    · rw [(hb.of_not_terminated (by simpa using ht) ho).1]
  · rw [Buffer.shows, History.shows]
    by_cases ht : h.terminated = true
    · have he := (hb.of_terminated ht).2
      refine ⟨?_, by rw [he]⟩
      rw [Buffer.step, he, History.step, ht, Bool.true_or]
      exact ⟨by rw [hb.buf, ht], fun _ ↦ hb.contents ht⟩
    · rw [Bool.not_eq_true] at ht
      obtain ⟨-, htext, hbuf⟩ := hb.of_not_terminated ht ho
      refine ⟨⟨?_, ?_⟩, by rw [htext]⟩
      · rw [Buffer.step, hbuf, History.step, ht]
        by_cases hnil : h.contents = []
        · simp [hnil]
        · simp [hnil]
      · simp [History.step, ht]

/-- **Careful calls return what they should.** -/
theorem Holds.right {b : Buffer} {h : History} (hb : Holds b h) {calls : List BufferCall}
    (hcalls : Meets History.step History.Careful h calls) :
    RightFrom b h calls ∧ Holds (calls.foldl Buffer.step b) (calls.foldl History.step h) := by
  have hstep : ∀ (g : History) (b : Buffer) (o : BufferCall), Holds b g → g.Careful o →
      Holds (b.step o) (g.step o) ∧ g.shows o = b.shows o := by
    intro g b o hb ho
    exact ⟨(hb.step ho).1, (hb.step ho).2.symm⟩
  obtain ⟨htrace, hholds⟩ := hcalls.trace_eq (R := fun g b ↦ Holds b g) hstep hb
  exact ⟨htrace.symm, hholds⟩

theorem holds_new : Holds {} {} := ⟨rfl, by simp⟩

/-! ## Updates that may be looked into anywhere -/

@[simp] theorem contents_step_update (h : History) (u : BufferUpdate) :
    (h.step (.update u)).contents = contentsAfter h.contents u := by
  rcases u with ⟨str, size⟩ | ⟨str⟩ | _ <;> rfl

/-- **The contents depend on the updates alone.** -/
theorem contents_updates (h : History) (calls : List BufferCall) :
    (calls.foldl History.step h).contents = (updates calls).foldl contentsAfter h.contents := by
  induction calls generalizing h with
  | nil => rfl
  | cons o calls ih =>
    rw [List.foldl_cons, ih]
    rcases o with u | _ | _
    · rw [contents_step_update]
      rfl
    · rfl
    · rfl

/-- Plain updates stay careful calls, wherever one looks at the buffer in between. -/
theorem careful_of_plain {calls : List BufferCall} {h : History} (hopen : OpenEnded h.contents)
    (hterm : h.terminated = true → h.contents ≠ [])
    (hplain : Meets contentsAfter PlainUpdate h.contents (updates calls)) :
    Meets History.step History.Careful h calls := by
  induction calls generalizing h with
  | nil => trivial
  | cons o calls ih =>
    rcases o with u | _ | _
    · obtain ⟨⟨hnow, happend⟩, hplain⟩ := hplain
      rw [← contents_step_update] at hnow hplain
      rcases u with ⟨str, size⟩ | ⟨str⟩ | _
      · refine ⟨(happend str size rfl).imp_right fun hnil ↦ ?_, ih hnow (fun ht ↦ ?_) hplain⟩
        · by_contra ht
          exact hterm (by simpa using ht) hnil
        · exact List.append_ne_nil_of_left_ne_nil (hterm ht) _
      · exact ⟨trivial, ih hnow (by simp [History.step]) hplain⟩
      · exact ⟨trivial, ih hnow (by simp [History.step]) hplain⟩
    · exact ⟨hopen, ih hopen hterm hplain⟩
    · refine ⟨hopen, ih hopen (fun ht ↦ ?_) hplain⟩
      rcases Bool.or_eq_true_iff.mp ht with ht | hne
      · exact hterm ht
      · have hcontents : h.contents ≠ [] := by simpa using hne
        exact hcontents

theorem updates_map_update (us : List BufferUpdate) : updates (us.map .update) = us := by
  induction us with
  | nil => rfl
  | cons u us ih => rw [List.map_cons, updates, ih]

theorem openEnded_of_size {b : Buffer} (h : b.size = b.buf.length) : OpenEnded b.buf := by
  intro hlast
  have hne : b.buf ≠ [] := by
    rintro hnil
    rw [hnil] at hlast
    exact absurd hlast (by simp)
  have hpos := List.length_pos_iff.mpr hne
  rw [Buffer.size, if_pos ⟨hne, hlast⟩] at h
  omega

theorem cStr_of_openEnded {b : Buffer} (hne : b.buf ≠ []) (hopen : OpenEnded b.buf) :
    b.cStr = (⟨b.buf ++ [0]⟩, b.buf ++ [0]) := by
  have hlast : b.buf.getLast? ≠ some 0 := hopen
  rw [Buffer.cStr, if_neg hne, if_pos hlast]

/-- **Updates that are right wherever one looks are plain.**  If the contents end in a NUL byte, then
`size` shows it; and if bytes are appended to others, then `c_str` before and after it. -/
theorem plain_of_right {us : List BufferUpdate} {b : Buffer} {h : History}
    (hb : b.buf = h.contents) (hopen : OpenEnded h.contents)
    (hright : ∀ calls, updates calls = us → RightFrom b h calls) :
    Meets contentsAfter PlainUpdate h.contents us := by
  induction us generalizing b h with
  | nil => trivial
  | cons u us ih =>
    have hbuf : (b.update u).buf = contentsAfter h.contents u := by rw [buf_update, hb]
    have hopen' : OpenEnded (contentsAfter h.contents u) := by
      have hlook := hright (.update u :: .size :: us.map .update)
        (by rw [updates, updates, updates_map_update])
      have hsize : (b.update u).size = (h.step (.update u)).contents.length :=
        Shown.size.inj (List.cons.inj hlook).1
      rw [contents_step_update, ← hbuf] at hsize
      rw [← hbuf]
      exact openEnded_of_size hsize
    have happend : ∀ str size, u = .append str size → appended str size = [] ∨ h.contents = [] := by
      rintro str size rfl
      by_contra hne
      obtain ⟨hd, hc⟩ := not_or.mp hne
      have hlook := hright (.cStr :: .update (.append str size) :: .cStr :: us.map .update)
        (by rw [updates, updates, updates, updates_map_update])
      obtain ⟨-, hlook⟩ := List.cons.inj hlook
      have htext : (b.cStr.1.append str size).cStr.2 = h.contents ++ appended str size ++ [0] :=
        Shown.text.inj (List.cons.inj hlook).1
      have hbuf' : (b.cStr.1.append str size).buf = h.contents ++ [0] ++ appended str size := by
        rw [buf_append, cStr_of_openEnded (by rwa [hb]) (by rwa [hb]), hb]
      have hlast : OpenEnded (h.contents ++ [0] ++ appended str size) := by
        unfold OpenEnded contentsAfter at hopen'
        rw [List.getLast?_append_of_ne_nil _ hd] at hopen'
        rw [OpenEnded, List.getLast?_append_of_ne_nil _ hd]
        exact hopen'
      rw [cStr_of_openEnded (by rw [hbuf']; simp) (by rwa [hbuf']), hbuf'] at htext
      have hlength := congrArg List.length htext
      simp only [List.length_append, List.length_singleton] at hlength
      omega
    refine ⟨⟨hopen', happend⟩, ?_⟩
    rw [← contents_step_update] at hbuf hopen' ⊢
    refine ih hbuf hopen' fun calls hcalls ↦ ?_
    exact hright (.update u :: calls) (by rw [updates, hcalls])

/-! ## The whole -/

/-- What should be shown depends on the contents alone. -/
theorem history_trace_congr {h h' : History} (he : h.contents = h'.contents)
    (calls : List BufferCall) :
    trace History.step History.shows h calls = trace History.step History.shows h' calls := by
  have hstep : ∀ (g g' : History) (o : BufferCall), g.contents = g'.contents → True →
      (g.step o).contents = (g'.step o).contents ∧ g.shows o = g'.shows o := by
    rintro g g' (u | _ | _) hg -
    · exact ⟨by rw [contents_step_update, contents_step_update, hg], rfl⟩
    · exact ⟨hg, by rw [History.shows, History.shows, hg]⟩
    · exact ⟨hg, by rw [History.shows, History.shows, hg]⟩
  exact ((meets_of_forall (fun _ _ _ ↦ trivial) h).trace_eq hstep he).1

/-- **`Buffer` under its observers.**  If every call is careful, then `size` and `c_str` return what
they should; and putting in or leaving out such calls, as long as they are careful, makes no
difference to any later result.  Updates for which all results are right wherever one looks are
exactly the plain ones. -/
theorem buffer_faithful (calls : List BufferCall) :
    (Meets History.step History.Careful {} calls → Right calls) ∧
      (∀ calls' rest, updates calls' = updates calls →
        Meets History.step History.Careful {} (calls ++ rest) →
        Meets History.step History.Careful {} (calls' ++ rest) →
        trace Buffer.step Buffer.shows (calls.foldl Buffer.step {}) rest =
          trace Buffer.step Buffer.shows (calls'.foldl Buffer.step {}) rest) ∧
      ((∀ calls', updates calls' = updates calls → Right calls') ↔
        Meets contentsAfter PlainUpdate [] (updates calls)) := by
  have hopen : OpenEnded [] := by simp [OpenEnded]
  refine ⟨fun h ↦ (holds_new.right h).1, ?_, ?_, ?_⟩
  · intro calls' rest hupdates h h'
    obtain ⟨hcalls, hrest⟩ := meets_append.mp h
    obtain ⟨hcalls', hrest'⟩ := meets_append.mp h'
    have hcontents : (calls.foldl History.step {}).contents =
        (calls'.foldl History.step {}).contents := by
      rw [contents_updates, contents_updates, hupdates]
    calc trace Buffer.step Buffer.shows (calls.foldl Buffer.step {}) rest
        = trace History.step History.shows (calls.foldl History.step {}) rest :=
          ((holds_new.right hcalls).2.right hrest).1
      _ = trace History.step History.shows (calls'.foldl History.step {}) rest :=
          history_trace_congr hcontents rest
      _ = trace Buffer.step Buffer.shows (calls'.foldl Buffer.step {}) rest :=
          ((holds_new.right hcalls').2.right hrest').1.symm
  · intro hright
    exact plain_of_right (b := {}) (h := {}) rfl hopen hright
  · intro hplain calls' hupdates
    rw [← hupdates] at hplain
    exact (holds_new.right (careful_of_plain hopen (by simp) hplain)).1

/-- A buffer that is looked at before it is set anew. -/
def observed : List BufferCall := [.update (.append (some (lit "ab")) 2), .size, .cStr]

theorem buffer_faithful_observed :
    Right observed ∧
      trace Buffer.step Buffer.shows (observed.foldl Buffer.step {})
          [.update (.setBuf (some (lit "c"))), .cStr] =
        trace Buffer.step Buffer.shows
          ([BufferCall.update (.append (some (lit "ab")) 2)].foldl Buffer.step {})
          [.update (.setBuf (some (lit "c"))), .cStr] ∧
      ∀ calls, updates calls = updates observed → Right calls := by
  obtain ⟨hright, hsame, hplain⟩ := buffer_faithful observed
  refine ⟨hright (by decide), hsame [.update (.append (some (lit "ab")) 2)] _ rfl (by decide)
    (by decide), hplain.mpr ?_⟩
  exact ⟨⟨by decide, fun _ _ _ ↦ .inr rfl⟩, trivial⟩

/-- What is appended after `c_str` comes behind its terminator, and data that ends in a NUL byte is
counted one byte short. -/
theorem buffer_disturbed :
    ¬ Right [.update (.append (some (lit "a")) 1), .cStr, .update (.append (some (lit "b")) 1),
        .size] ∧
      ¬ Right [.update (.append (some [97, 0]) 2), .size] := by
  unfold Right RightFrom
  decide

end ReactorServer
