import ReactorServer.Connection.Cases

/-!
# The requests in a stream

`greedy` says what the requests in a stream of bytes are, with the whole stream in hand: find the
first blank line, read off the length of the body, cut, and go on.  A turn of the request loop,
`nextFrame`, cuts in the same places (`greedy_eq`), and what this file is about is that it also
does so when the stream is still growing: what has been cut off stays cut off, and the rest goes
on from the bytes that were left (`greedy_append`).

The limit on the size of a header is applied to whatever the buffer holds while there is no blank
line in it, which may include the first three bytes of the blank line.  So a header block has to
stay three bytes below the limit if a verdict is to survive growth (`HeadersFit`).
-/

set_option autoImplicit false

namespace ReactorServer

open Search

/-! ## The requests in a stream -/

/-- What the framer makes of the front of a stream. -/
inductive Item where
  /-- A complete request, and whether the connection is to be kept after it. -/
  | request (text : Bytes) (keepAlive : Bool)
  /-- A rejection with this status. -/
  | reject (status : ℕ)
  deriving DecidableEq, Repr

/-- Is the connection on its way out after this? -/
def Item.closing : Item → Bool
  | .request _ keepAlive => !keepAlive
  | .reject _ => true

/-- The items up to and including the first closing one. -/
def upToClosing : List Item → List Item
  | [] => []
  | i :: is => if i.closing then [i] else i :: upToClosing is

/-- No item is closing. -/
def Open (is : List Item) : Prop := ∀ i ∈ is, i.closing = false

instance (is : List Item) : Decidable (Open is) :=
  inferInstanceAs (Decidable (∀ i ∈ is, i.closing = false))

/-- **The greedy decomposition of a stream**: its requests, and the bytes after the last one.  A
remainder that is too long without a blank line, and a body that is announced too large, are
rejected. -/
def greedy (s : Bytes) : List Item × Bytes :=
  match indexOf crlf2 s with
  | none => if s.length > kMaxHeaderBytes then ([.reject 400], s) else ([], s)
  | some h =>
    let n := requestContentLength (s.take h)
    if n > kMaxBodyBytes then ([.reject 413], s)
    else if _ : h + 4 + n ≤ s.length then
      let text := s.take (h + 4 + n)
      let tail := greedy (s.drop (h + 4 + n))
      (.request text (wantKeepAlive text (s.take h)) :: tail.1, tail.2)
    else ([], s)
termination_by s.length
decreasing_by rw [List.length_drop]; omega

/-- The greedy decomposition of `s` gets to `t`: `t` is what is left of `s` after some keep-alive
requests have been cut off. -/
inductive Reaches : Bytes → Bytes → Prop
  | here (s : Bytes) : Reaches s s
  | next {s t : Bytes} {h : ℕ} (hh : indexOf crlf2 s = some h)
      (hn : requestContentLength (s.take h) ≤ kMaxBodyBytes)
      (hlen : h + 4 + requestContentLength (s.take h) ≤ s.length)
      (hka : wantKeepAlive (s.take (h + 4 + requestContentLength (s.take h))) (s.take h) = true)
      (ht : Reaches (s.drop (h + 4 + requestContentLength (s.take h))) t) : Reaches s t

/-- Every header block the framer gets to leaves room for three more bytes below the limit. -/
def HeadersFit (s : Bytes) : Prop :=
  ∀ t h, Reaches s t → indexOf crlf2 t = some h → h ≤ kMaxHeaderBytes - 3

/-! ## One turn of the loop, and the greedy decomposition -/

theorem kMaxHeaderBytes_eq : kMaxHeaderBytes = 16384 := rfl

theorem nextFrame_eq_request_iff {s headers text rest : Bytes} :
    nextFrame s = .request headers text rest ↔ ∃ h, indexOf crlf2 s = some h ∧
      requestContentLength (s.take h) ≤ kMaxBodyBytes ∧
      h + 4 + requestContentLength (s.take h) ≤ s.length ∧ headers = s.take h ∧
      text = s.take (h + 4 + requestContentLength (s.take h)) ∧
      rest = s.drop (h + 4 + requestContentLength (s.take h)) := by
  unfold nextFrame
  cases hi : indexOf crlf2 s with
  | none => dsimp only; split <;> simp
  | some h =>
    dsimp only
    have hb : 0 < kMaxBodyBytes := by decide
    split
    · rename_i hc
      simp only [reduceCtorEq, Option.some.injEq, false_iff, not_exists, not_and]
      rintro h' rfl hle
      omega
    · rename_i hc
      split
      · rename_i hl
        simp only [reduceCtorEq, Option.some.injEq, false_iff, not_exists, not_and]
        rintro h' rfl _ hle
        omega
      · rename_i hl
        simp only [Frame.request.injEq, Option.some.injEq]
        constructor
        · rintro ⟨rfl, rfl, rfl⟩
          exact ⟨h, rfl, by omega, by omega, rfl, rfl, rfl⟩
        · rintro ⟨h', rfl, -, -, rfl, rfl, rfl⟩
          exact ⟨rfl, rfl, rfl⟩

theorem nextFrame_eq_bodyTooLarge_iff {s : Bytes} : nextFrame s = .bodyTooLarge ↔
    ∃ h, indexOf crlf2 s = some h ∧ kMaxBodyBytes < requestContentLength (s.take h) := by
  unfold nextFrame
  cases hi : indexOf crlf2 s with
  | none => dsimp only; split <;> simp
  | some h =>
    dsimp only
    have hb : 0 < kMaxBodyBytes := by decide
    split
    · rename_i hc
      simpa using hc.2
    · rename_i hc
      split
      all_goals
        simp only [reduceCtorEq, Option.some.injEq, false_iff, not_exists, not_and]
        rintro h' rfl
        omega

theorem nextFrame_eq_headerTooLarge_iff {s : Bytes} : nextFrame s = .headerTooLarge ↔
    indexOf crlf2 s = none ∧ kMaxHeaderBytes < s.length := by
  unfold nextFrame
  cases hi : indexOf crlf2 s with
  | none =>
    dsimp only
    have hb : 0 < kMaxHeaderBytes := by decide
    split
    · rename_i hc; simpa using hc.2
    · rename_i hc; simp; omega
  | some h => dsimp only; split <;> [skip; split] <;> simp

/-- The greedy decomposition cuts where a turn of the loop does. -/
theorem greedy_eq (s : Bytes) : greedy s =
    match nextFrame s with
    | .incomplete => ([], s)
    | .headerTooLarge => ([.reject 400], s)
    | .bodyTooLarge => ([.reject 413], s)
    | .request headers text rest =>
      (.request text (wantKeepAlive text headers) :: (greedy rest).1, (greedy rest).2) := by
  rw [greedy]
  unfold nextFrame
  have hb : 0 < kMaxBodyBytes := by decide
  have hh : 0 < kMaxHeaderBytes := by decide
  cases indexOf crlf2 s with
  | none => simp only [hh, gt_iff_lt, true_and]; split <;> rfl
  | some h =>
    simp only [hb, gt_iff_lt, true_and]
    split
    · rfl
    · split
      · rw [if_neg (by omega)]
      · rw [if_pos (by omega)]

theorem greedy_nil : greedy [] = ([], []) := by
  rw [greedy_eq, show nextFrame [] = .incomplete from rfl]

/-! ## A stream that grows -/

theorem nextFrame_append_request {a headers text rest : Bytes} (b : Bytes)
    (h : nextFrame a = .request headers text rest) :
    nextFrame (a ++ b) = .request headers text (rest ++ b) := by
  obtain ⟨i, hi, hn, hlen, rfl, rfl, rfl⟩ := nextFrame_eq_request_iff.mp h
  have hil : i ≤ a.length := by omega
  have htake : (a ++ b).take i = a.take i := List.take_append_of_le_length hil
  refine nextFrame_eq_request_iff.mpr ⟨i, indexOf_append b hi, ?_⟩
  rw [htake, List.length_append, List.take_append_of_le_length hlen,
    List.drop_append_of_le_length hlen]
  exact ⟨hn, by omega, rfl, rfl, rfl⟩

theorem nextFrame_append_bodyTooLarge {a : Bytes} (b : Bytes) (h : nextFrame a = .bodyTooLarge) :
    nextFrame (a ++ b) = .bodyTooLarge := by
  obtain ⟨i, hi, hn⟩ := nextFrame_eq_bodyTooLarge_iff.mp h
  have hfit : i + 4 ≤ a.length := indexOf_add_length_le hi
  refine nextFrame_eq_bodyTooLarge_iff.mpr ⟨i, indexOf_append b hi, ?_⟩
  rwa [List.take_append_of_le_length (by omega)]

/-- A header block that was too large without its blank line stays too large: the blank line would
have to begin in the last three bytes. -/
theorem nextFrame_append_headerTooLarge {a b : Bytes} (hfit : HeadersFit (a ++ b))
    (h : nextFrame a = .headerTooLarge) : nextFrame (a ++ b) = .headerTooLarge := by
  obtain ⟨hnone, hlen⟩ := nextFrame_eq_headerTooLarge_iff.mp h
  refine nextFrame_eq_headerTooLarge_iff.mpr ⟨?_, by rw [List.length_append]; omega⟩
  cases hi : indexOf crlf2 (a ++ b) with
  | none => rfl
  | some i =>
    have hnear : a.length < i + 4 := length_lt_of_indexOf_append hnone hi
    have hle := hfit _ _ (.here _) hi
    rw [kMaxHeaderBytes_eq] at hlen hle
    omega

theorem Reaches.of_nextFrame {s headers text rest t : Bytes}
    (h : nextFrame s = .request headers text rest) (hka : wantKeepAlive text headers = true)
    (ht : Reaches rest t) : Reaches s t := by
  obtain ⟨i, hi, hn, hlen, rfl, rfl, rfl⟩ := nextFrame_eq_request_iff.mp h
  exact .next hi hn hlen hka ht

theorem Reaches.eq_or_request {s t : Bytes} (h : Reaches s t) :
    t = s ∨ ∃ headers text rest, nextFrame s = .request headers text rest ∧
      wantKeepAlive text headers = true ∧ Reaches rest t := by
  cases h with
  | here => exact .inl rfl
  | next hi hn hlen hka ht =>
    exact .inr ⟨_, _, _, nextFrame_eq_request_iff.mpr ⟨_, hi, hn, hlen, rfl, rfl, rfl⟩, hka, ht⟩

theorem Reaches.cases_request {s headers text rest t : Bytes}
    (h : nextFrame s = .request headers text rest) (ht : Reaches s t) :
    t = s ∨ wantKeepAlive text headers = true ∧ Reaches rest t := by
  refine ht.eq_or_request.imp_right ?_
  rintro ⟨headers', text', rest', hf, hka, ht'⟩
  rw [h, Frame.request.injEq] at hf
  obtain ⟨rfl, rfl, rfl⟩ := hf
  exact ⟨hka, ht'⟩

theorem HeadersFit.rest {s headers text rest : Bytes} (hfit : HeadersFit s)
    (h : nextFrame s = .request headers text rest) (hka : wantKeepAlive text headers = true) :
    HeadersFit rest :=
  fun t i ht hi ↦ hfit t i (.of_nextFrame h hka ht) hi

/-! ## Closing items -/

theorem Open.nil : Open [] := by simp [Open]

theorem open_cons {i : Item} {is : List Item} : Open (i :: is) ↔ i.closing = false ∧ Open is := by
  simp [Open]

theorem upToClosing_of_open {is : List Item} (h : Open is) : upToClosing is = is := by
  induction is with
  | nil => rfl
  | cons i is ih =>
    obtain ⟨hi, his⟩ := open_cons.mp h
    rw [upToClosing, if_neg (by simp [hi]), ih his]

theorem open_upToClosing_iff {is : List Item} : Open (upToClosing is) ↔ Open is := by
  induction is with
  | nil => rfl
  | cons i is ih =>
    rw [upToClosing]
    split
    · rename_i hi
      simp [Open, hi]
    · rw [open_cons, open_cons, ih]

theorem upToClosing_upToClosing (is : List Item) :
    upToClosing (upToClosing is) = upToClosing is := by
  induction is with
  | nil => rfl
  | cons i is ih =>
    rw [upToClosing]
    split
    · rename_i hi
      rw [upToClosing, if_pos hi]
    · rename_i hi
      rw [upToClosing, if_neg hi, ih]

theorem upToClosing_append_of_open {is : List Item} (js : List Item) (h : Open is) :
    upToClosing (is ++ js) = is ++ upToClosing js := by
  induction is with
  | nil => rfl
  | cons i is ih =>
    obtain ⟨hi, his⟩ := open_cons.mp h
    rw [List.cons_append, upToClosing, if_neg (by simp [hi]), ih his, List.cons_append]

theorem upToClosing_append_of_not_open {is : List Item} (js : List Item) (h : ¬ Open is) :
    upToClosing (is ++ js) = upToClosing is := by
  induction is with
  | nil => exact absurd .nil h
  | cons i is ih =>
    rw [List.cons_append, upToClosing, upToClosing]
    split
    · rfl
    · rename_i hi
      rw [ih fun his ↦ h (open_cons.mpr ⟨by simpa using hi, his⟩)]

/-! ## The greedy decomposition of a stream that grows -/

/-- **Decomposing in two steps.**  While nothing closes, what has been decomposed stays
decomposed, and the rest goes on from the bytes that were left. -/
theorem greedy_append {a : Bytes} (b : Bytes) (h : Open (greedy a).1) :
    greedy (a ++ b) =
      ((greedy a).1 ++ (greedy ((greedy a).2 ++ b)).1, (greedy ((greedy a).2 ++ b)).2) := by
  induction hn : a.length using Nat.strong_induction_on generalizing a with
  | _ n ih =>
    rw [greedy_eq a] at h ⊢
    cases hf : nextFrame a with
    | incomplete => rfl
    | headerTooLarge => simp [hf, Open, Item.closing] at h
    | bodyTooLarge => simp [hf, Open, Item.closing] at h
    | request headers text rest =>
      have hrest : rest.length < n := hn ▸ length_rest_lt hf
      rw [hf] at h
      rw [greedy_eq (a ++ b), nextFrame_append_request b hf]
      dsimp only
      rw [ih rest.length hrest (open_cons.mp h).2 rfl, List.cons_append]

theorem HeadersFit.greedy_snd {a b : Bytes} (hfit : HeadersFit (a ++ b)) (h : Open (greedy a).1) :
    HeadersFit ((greedy a).2 ++ b) := by
  induction hn : a.length using Nat.strong_induction_on generalizing a with
  | _ n ih =>
    rw [greedy_eq a] at h ⊢
    cases hf : nextFrame a with
    | incomplete => exact hfit
    | headerTooLarge => exact hfit
    | bodyTooLarge => exact hfit
    | request headers text rest =>
      have hrest : rest.length < n := hn ▸ length_rest_lt hf
      rw [hf] at h
      obtain ⟨hka, htail⟩ := open_cons.mp h
      exact ih rest.length hrest (hfit.rest (nextFrame_append_request b hf)
        (by simpa [Item.closing] using hka)) htail rfl

/-- What closes keeps closing when more bytes come. -/
theorem upToClosing_greedy_append {a b : Bytes} (hfit : HeadersFit (a ++ b))
    (h : ¬ Open (greedy a).1) :
    upToClosing (greedy (a ++ b)).1 = upToClosing (greedy a).1 := by
  induction hn : a.length using Nat.strong_induction_on generalizing a with
  | _ n ih =>
    rw [greedy_eq a, greedy_eq (a ++ b)]
    rw [greedy_eq a] at h
    cases hf : nextFrame a with
    | incomplete => rw [hf] at h; exact absurd .nil h
    | headerTooLarge => rw [nextFrame_append_headerTooLarge hfit hf]
    | bodyTooLarge => rw [nextFrame_append_bodyTooLarge b hf]
    | request headers text rest =>
      have hrest : rest.length < n := hn ▸ length_rest_lt hf
      rw [hf] at h
      rw [nextFrame_append_request b hf]
      dsimp only
      rw [upToClosing, upToClosing]
      split
      · rfl
      · rename_i hka
        have hka' : wantKeepAlive text headers = true := by simpa [Item.closing] using hka
        rw [ih rest.length hrest (hfit.rest (nextFrame_append_request b hf) hka')
          (fun htail ↦ h (open_cons.mpr ⟨by simpa using hka, htail⟩)) rfl]

/-- The remainder of a decomposition cannot be decomposed further. -/
theorem greedy_snd {s : Bytes} (h : Open (greedy s).1) : greedy (greedy s).2 = ([], (greedy s).2) := by
  have key := greedy_append [] h
  rw [List.append_nil, List.append_nil] at key
  obtain ⟨h₁, h₂⟩ := Prod.ext_iff.mp key
  exact Prod.ext (List.append_right_eq_self.mp h₁.symm) h₂.symm

theorem Reaches.append {s t : Bytes} (u : Bytes) (h : Reaches s t) : Reaches (s ++ u) (t ++ u) := by
  induction h with
  | here s => exact .here _
  | next hh hn hlen hka _ ih =>
    have hf := nextFrame_append_request u
      (nextFrame_eq_request_iff.mpr ⟨_, hh, hn, hlen, rfl, rfl, rfl⟩)
    exact .of_nextFrame hf hka ih

theorem HeadersFit.of_append {s u : Bytes} (h : HeadersFit (s ++ u)) : HeadersFit s :=
  fun t i ht hi ↦ h (t ++ u) i (ht.append u) (indexOf_append u hi)

theorem Reaches.length_le {s t : Bytes} (h : Reaches s t) : t.length ≤ s.length := by
  induction h with
  | here s => exact Nat.le_refl _
  | next hh hn hlen hka _ ih =>
    rw [List.length_drop] at ih
    omega

/-- A short stream has no room for a header block that is too long. -/
theorem HeadersFit.of_length_le {s : Bytes} (h : s.length ≤ kMaxHeaderBytes) : HeadersFit s := by
  intro t i ht hi
  have hlen := ht.length_le
  have hfit : i + 4 ≤ t.length := indexOf_add_length_le hi
  omega

end ReactorServer
