import Mathlib.Data.List.Nodup
import Mathlib.Data.Nat.Notation

/-!
# Concurrent histories

An `Object` is a sequential specification: what an operation may answer in a state, and what the state
is afterwards.  It may also drift, that is, change without an operation.

What is seen of a concurrent implementation is a history: operations are invoked, each under a number
of its own, and responded to.  A `Linearization` of a history puts operations in an order in which the
object could have carried them out one by one, with the responses of the history.  An operation that
has been responded to before another was invoked comes before it there.

`Annotated` is how one gets there.  Each operation of the run has one event, its point, somewhere
between its invocation and its response, and the points are legal one after another.  At the point it
need not be certain what the response is going to be: it is enough that the object could have given
any response that the result noted there can turn into (`Object.Covers`).
-/

set_option autoImplicit false

universe u v w

/-- A sequential specification. -/
structure Object (σ : Type u) (Op : Type v) (Res : Type w) where
  does : σ → Op → Res → σ → Prop
  drifts : σ → σ → Prop

namespace Object

variable {σ : Type u} {Op : Type v} {Res : Type w} (O : Object σ Op Res)

/-- Operations one after another, each with its number and its response, with drifts in between. -/
inductive Runs : σ → List (ℕ × Op × Res) → σ → Prop where
  | nil (s : σ) : Runs s [] s
  | op {s s' s'' : σ} {seq : List (ℕ × Op × Res)} {op : Op} {r : Res} (h : Runs s seq s')
      (i : ℕ) (hdoes : O.does s' op r s'') : Runs s (seq ++ [(i, op, r)]) s''
  | drift {s s' s'' : σ} {seq : List (ℕ × Op × Res)} (h : Runs s seq s') (hdrift : O.drifts s' s'') :
      Runs s seq s''

/-- Wherever the object can give the one response, it can give the other. -/
def Covers (r r' : Res) : Prop := ∀ s op s', O.does s op r s' → O.does s op r' s'

variable {O}

theorem Covers.refl (r : Res) : O.Covers r r := fun _ _ _ h ↦ h

/-- Responses can be replaced by such as the object could have given instead. -/
theorem Runs.map {f : ℕ × Op × Res → ℕ × Op × Res} {s s' : σ} {seq : List (ℕ × Op × Res)}
    (h : O.Runs s seq s')
    (hf : ∀ e ∈ seq, (f e).2.1 = e.2.1 ∧ O.Covers e.2.2 (f e).2.2) : O.Runs s (seq.map f) s' := by
  induction h with
  | nil => exact .nil s
  | @op s' s'' seq op r h i hdoes ih =>
    obtain ⟨hop, hcovers⟩ := hf (i, op, r) (by simp)
    have hdoes' : O.does s' (f (i, op, r)).2.1 (f (i, op, r)).2.2 s'' := by
      rw [hop]
      exact hcovers _ _ _ hdoes
    rw [List.map_append]
    exact (ih fun e he ↦ hf e (List.mem_append_left _ he)).op _ hdoes'
  | drift h hdrift ih => exact .drift (ih hf) hdrift

end Object

namespace Concurrent

/-! ## Histories -/

/-- What is seen from outside. -/
inductive Seen (Op : Type v) (Res : Type w) where
  | invoke (i : ℕ) (op : Op)
  | respond (i : ℕ) (r : Res)
  deriving DecidableEq, Repr

/-- What happens in a run: the points as well. -/
inductive Happening (Op : Type v) (Res : Type w) where
  | seen (e : Seen Op Res)
  | point (i : ℕ) (op : Op) (r : Res)
  deriving DecidableEq, Repr

section

variable {σ : Type u} {Op : Type v} {Res : Type w}

/-- What is seen of a run. -/
def visible : List (Happening Op Res) → List (Seen Op Res)
  | [] => []
  | .seen e :: es => e :: visible es
  | .point .. :: es => visible es

/-- The points of a run. -/
def points : List (Happening Op Res) → List (ℕ × Op × Res)
  | [] => []
  | .seen _ :: es => points es
  | .point i op r :: es => (i, op, r) :: points es

@[simp] theorem visible_append (es es' : List (Happening Op Res)) :
    visible (es ++ es') = visible es ++ visible es' := by
  induction es with
  | nil => rfl
  | cons e es ih =>
    cases e with
    | seen e => exact congrArg (e :: ·) ih
    | point i op r => exact ih

@[simp] theorem points_append (es es' : List (Happening Op Res)) :
    points (es ++ es') = points es ++ points es' := by
  induction es with
  | nil => rfl
  | cons e es ih =>
    cases e with
    | seen e => exact ih
    | point i op r => exact congrArg ((i, op, r) :: ·) ih

theorem mem_visible {e : Seen Op Res} {es : List (Happening Op Res)} :
    e ∈ visible es ↔ .seen e ∈ es := by
  induction es with
  | nil => simp [visible]
  | cons e' es ih => cases e' <;> simp [visible, ih]

theorem mem_points {i : ℕ} {op : Op} {r : Res} {es : List (Happening Op Res)} :
    (i, op, r) ∈ points es ↔ .point i op r ∈ es := by
  induction es with
  | nil => simp [points]
  | cons e' es ih => cases e' <;> simp [points, ih]

/-- **An order of the operations** in which the object could have carried them out. -/
structure Linearization (O : Object σ Op Res) (s : σ) (h : List (Seen Op Res))
    (seq : List (ℕ × Op × Res)) : Prop where
  /-- The object can go through it. -/
  legal : ∃ s', O.Runs s seq s'
  /-- Every operation has one place in it. -/
  nodup : (seq.map Prod.fst).Nodup
  /-- It is of operations that have been invoked. -/
  invoked : ∀ i op r, (i, op, r) ∈ seq → .invoke i op ∈ h
  /-- Those that have been responded to are all there, with their responses. -/
  responded : ∀ i r, .respond i r ∈ h → ∃ op, (i, op, r) ∈ seq
  /-- An operation that was responded to before another was invoked comes first. -/
  inOrder : ∀ i j r op, [.respond i r, .invoke j op].Sublist h → ∀ r', (j, op, r') ∈ seq →
    ∃ op', [(i, op', r), (j, op, r')].Sublist seq

/-- The history could have come from the object. -/
def Linearizable (O : Object σ Op Res) (s : σ) (h : List (Seen Op Res)) : Prop :=
  ∃ seq, Linearization O s h seq

/-! ## Points -/

/-- The operation that an event belongs to. -/
def Happening.id : Happening Op Res → ℕ
  | .seen (.invoke i _) => i
  | .seen (.respond i _) => i
  | .point i .. => i

@[simp] theorem Happening.id_invoke (i : ℕ) (op : Op) :
    (.seen (.invoke i op) : Happening Op Res).id = i := rfl

@[simp] theorem Happening.id_respond (i : ℕ) (r : Res) :
    (.seen (.respond i r) : Happening Op Res).id = i := rfl

@[simp] theorem Happening.id_point (i : ℕ) (op : Op) (r : Res) :
    (.point i op r : Happening Op Res).id = i := rfl

/-- The events of one operation: it is invoked, it comes to its point, it is responded to. -/
inductive Course (O : Object σ Op Res) (i : ℕ) : List (Happening Op Res) → Prop where
  | absent : Course O i []
  | invoked (op : Op) : Course O i [.seen (.invoke i op)]
  | pending (op : Op) (r : Res) : Course O i [.seen (.invoke i op), .point i op r]
  | responded (op : Op) {r r' : Res} (h : O.Covers r r') :
      Course O i [.seen (.invoke i op), .point i op r, .seen (.respond i r')]

/-- The events of an operation in a run. -/
def eventsOf (i : ℕ) (es : List (Happening Op Res)) : List (Happening Op Res) :=
  es.filter (·.id = i)

/-- **A run with points**: they are legal one after another, and each is where it should be. -/
structure Annotated (O : Object σ Op Res) (s : σ) (es : List (Happening Op Res)) (s' : σ) : Prop where
  legal : O.Runs s (points es) s'
  course : ∀ i, Course O i (eventsOf i es)

variable {O : Object σ Op Res} {s s' : σ} {es es' : List (Happening Op Res)} {i : ℕ} {r : Res}

@[simp] theorem eventsOf_append (i : ℕ) (es es' : List (Happening Op Res)) :
    eventsOf i (es ++ es') = eventsOf i es ++ eventsOf i es' := List.filter_append ..

theorem eventsOf_cons (i : ℕ) (e : Happening Op Res) (es : List (Happening Op Res)) :
    eventsOf i (e :: es) = if e.id = i then e :: eventsOf i es else eventsOf i es := by
  rw [eventsOf, List.filter_cons]
  simp only [decide_eq_true_eq, eventsOf]

theorem mem_eventsOf {e : Happening Op Res} (he : e ∈ es) : e ∈ eventsOf e.id es :=
  List.mem_filter.mpr ⟨he, by simp⟩

theorem annotated_nil (O : Object σ Op Res) (s : σ) : Annotated O s [] s :=
  ⟨.nil s, fun _ ↦ .absent⟩

/-! ## One more event -/

theorem eventsOf_concat (j : ℕ) (es : List (Happening Op Res)) (e : Happening Op Res) :
    eventsOf j (es ++ [e]) = if e.id = j then eventsOf j es ++ [e] else eventsOf j es := by
  rw [eventsOf_append, eventsOf_cons]
  split
  · rfl
  · exact List.append_nil _

theorem Annotated.concat {s'' : σ} (h : Annotated O s es s') {e : Happening Op Res}
    (hlegal : O.Runs s (points (es ++ [e])) s'') (hcourse : Course O e.id (eventsOf e.id es ++ [e])) :
    Annotated O s (es ++ [e]) s'' := by
  refine ⟨hlegal, fun j ↦ ?_⟩
  rw [eventsOf_concat]
  split
  · next he => exact he ▸ hcourse
  · exact h.course j

/-- An operation is invoked. -/
theorem Annotated.invoke (h : Annotated O s es s') (hnone : eventsOf i es = []) (op : Op) :
    Annotated O s (es ++ [.seen (.invoke i op)]) s' := by
  refine h.concat ?_ ?_
  · rw [points_append]
    exact (List.append_nil _).symm ▸ h.legal
  · rw [Happening.id_invoke, hnone]
    exact .invoked op

/-- An operation comes to its point. -/
theorem Annotated.point {s'' : σ} (h : Annotated O s es s') {op : Op}
    (hinvoked : eventsOf i es = [.seen (.invoke i op)]) (hdoes : O.does s' op r s'') :
    Annotated O s (es ++ [.point i op r]) s'' := by
  refine h.concat ?_ ?_
  · rw [points_append]
    exact h.legal.op i hdoes
  · rw [Happening.id_point, hinvoked]
    exact .pending op r

/-- An operation is responded to. -/
theorem Annotated.respond (h : Annotated O s es s') {op : Op} {r' : Res}
    (hpending : eventsOf i es = [.seen (.invoke i op), .point i op r]) (hcovers : O.Covers r r') :
    Annotated O s (es ++ [.seen (.respond i r')]) s' := by
  refine h.concat ?_ ?_
  · rw [points_append]
    exact (List.append_nil _).symm ▸ h.legal
  · rw [Happening.id_respond, hpending]
    exact .responded op hcovers

theorem Annotated.drift {s'' : σ} (h : Annotated O s es s') (hdrift : O.drifts s' s'') :
    Annotated O s es s'' :=
  ⟨h.legal.drift hdrift, h.course⟩

/-! ## From points to an order -/

/-- A point belongs to an operation that was invoked like this. -/
theorem Course.invoke_of_point (h : Course O i es) {op : Op} {r : Res} (hp : .point i op r ∈ es) :
    .seen (.invoke i op) ∈ es := by
  cases h with
  | absent => exact absurd hp (by simp)
  | invoked op' => exact absurd hp (by simp)
  | pending op' r' =>
    obtain ⟨rfl, -⟩ : op = op' ∧ r = r' := by simpa using hp
    exact List.mem_cons_self
  | @responded op' r' _ _ =>
    obtain ⟨rfl, -⟩ : op = op' ∧ r = r' := by simpa using hp
    exact List.mem_cons_self

/-- Before a response there is the point. -/
theorem Course.point_of_respond {r : Res} (h : Course O i (es ++ .seen (.respond i r) :: es')) :
    ∃ op r₀, O.Covers r₀ r ∧ .point i op r₀ ∈ es ∧ es' = [] := by
  generalize hes : es ++ .seen (.respond i r) :: es' = es₀ at h
  cases h with
  | absent => exact absurd hes (by simp)
  | invoked op => exact absurd (hes ▸ List.mem_append_right es List.mem_cons_self :
      Happening.seen (.respond i r) ∈ [.seen (.invoke i op)]) (by simp)
  | pending op r' => exact absurd (hes ▸ List.mem_append_right es List.mem_cons_self :
      Happening.seen (.respond i r) ∈ [.seen (.invoke i op), .point i op r']) (by simp)
  | @responded op r₀ r' hcovers =>
    rcases es with _ | ⟨e₁, _ | ⟨e₂, _ | ⟨e₃, es⟩⟩⟩
    · simp at hes
    · simp at hes
    · obtain ⟨-, rfl, rfl, rfl⟩ : e₁ = .seen (.invoke i op) ∧ e₂ = .point i op r₀ ∧ r = r' ∧
        es' = [] := by simpa using hes
      exact ⟨op, r₀, hcovers, by simp, rfl⟩
    · simp at hes

/-- Before its invocation there is nothing of an operation. -/
theorem Course.nil_of_invoke {op : Op} (h : Course O i (es ++ .seen (.invoke i op) :: es')) :
    es = [] := by
  generalize hes : es ++ .seen (.invoke i op) :: es' = es₀ at h
  rcases es with _ | ⟨e, es⟩
  · rfl
  · have hmem : Happening.seen (.invoke i op) ∈ es₀.tail := by
      rw [← hes]
      simp
    cases h <;> exact absurd hmem (by simp)

/-- Nothing is responded to twice. -/
theorem Course.respond_unique (h : Course O i es) {r r' : Res} (hr : .seen (.respond i r) ∈ es)
    (hr' : .seen (.respond i r') ∈ es) : r = r' := by
  cases h with
  | absent => exact absurd hr (by simp)
  | invoked op => exact absurd hr (by simp)
  | pending op r₀ => exact absurd hr (by simp)
  | @responded op r₀ r₁ _ =>
    have h₁ : r = r₁ := by simpa using hr
    have h₂ : r' = r₁ := by simpa using hr'
    exact h₁.trans h₂.symm

theorem Course.invoke_unique (h : Course O i es) {op op' : Op} (ho : .seen (.invoke i op) ∈ es)
    (ho' : .seen (.invoke i op') ∈ es) : op = op' := by
  rcases h with _ | op₀ | ⟨op₀, r₀⟩ | @⟨op₀, r₀, r₁, -⟩
  · cases ho
  all_goals
    obtain rfl : op = op₀ := by simpa using ho
    obtain rfl : op' = op := by simpa using ho'
    rfl

/-- The response is one that the result noted at the point can turn into. -/
theorem Course.covers (h : Course O i es) {op : Op} {r r' : Res} (hp : .point i op r ∈ es)
    (hr : .seen (.respond i r') ∈ es) : O.Covers r r' := by
  cases h with
  | absent => exact absurd hr (by simp)
  | invoked op' => exact absurd hr (by simp)
  | pending op' r₀ => exact absurd hr (by simp)
  | @responded op' r₀ r₁ hcovers =>
    obtain ⟨-, rfl⟩ : op = op' ∧ r = r₀ := by simpa using hp
    obtain rfl : r' = r₁ := by simpa using hr
    exact hcovers

/-- The response to an operation, if it has one. -/
def responseOf (i : ℕ) (es : List (Happening Op Res)) : Option Res :=
  es.findSome? fun
    | .seen (.respond j r) => if j = i then some r else none
    | _ => none

theorem responseOf_eq_some {r : Res} (h : responseOf i es = some r) :
    .seen (.respond i r) ∈ es := by
  obtain ⟨e, he, hr⟩ := List.exists_of_findSome?_eq_some h
  rcases e with ⟨_ | ⟨j, r'⟩⟩ | _
  · exact absurd hr (by simp)
  · by_cases hj : j = i
    · obtain ⟨rfl⟩ : r' = r := by simpa [hj] using hr
      rwa [← hj]
    · exact absurd hr (by simp [hj])
  · exact absurd hr (by simp)

theorem responseOf_ne_none {r : Res} (h : .seen (.respond i r) ∈ es) : responseOf i es ≠ none := by
  intro hnone
  have hr := List.findSome?_eq_none_iff.mp hnone _ h
  simp at hr

/-- The operation at its point, with the response that it got in the end. -/
def settled (es : List (Happening Op Res)) (e : ℕ × Op × Res) : ℕ × Op × Res :=
  (e.1, e.2.1, (responseOf e.1 es).getD e.2.2)

theorem Annotated.responseOf_eq (h : Annotated O s es s') {r : Res} (hr : .seen (.respond i r) ∈ es) :
    responseOf i es = some r := by
  cases hfound : responseOf i es with
  | none => exact absurd hfound (responseOf_ne_none hr)
  | some r' =>
    have hr' := responseOf_eq_some hfound
    exact congrArg some ((h.course i).respond_unique (mem_eventsOf hr') (mem_eventsOf hr))

/-- What is seen of a run in two parts comes from two parts of the run. -/
theorem visible_eq_append {e : Seen Op Res} {a b : List (Seen Op Res)}
    (h : visible es = a ++ e :: b) :
    ∃ es₁ es₂, es = es₁ ++ .seen e :: es₂ ∧ visible es₂ = b := by
  induction es generalizing a with
  | nil => exact absurd h (by simp [visible])
  | cons e' es ih =>
    cases e' with
    | point i op r =>
      obtain ⟨es₁, es₂, rfl, hb⟩ := ih h
      exact ⟨.point i op r :: es₁, es₂, rfl, hb⟩
    | seen e' =>
      cases a with
      | nil =>
        obtain ⟨rfl, rfl⟩ : e' = e ∧ visible es = b := by simpa [visible] using h
        exact ⟨[], es, rfl, rfl⟩
      | cons e'' a =>
        obtain ⟨es₁, es₂, rfl, hb⟩ := ih (List.cons.inj h).2
        exact ⟨.seen e' :: es₁, es₂, rfl, hb⟩

/-- One before the other. -/
theorem exists_of_pair_sublist {α : Type v} {x y : α} {l : List α} (h : [x, y].Sublist l) :
    ∃ a b, l = a ++ x :: b ∧ y ∈ b := by
  obtain ⟨a, b, rfl, hx, hy⟩ := List.cons_sublist_iff.mp h
  obtain ⟨a₁, a₂, rfl⟩ := List.append_of_mem hx
  refine ⟨a₁, a₂ ++ b, by simp, List.mem_append_right _ ?_⟩
  exact List.singleton_sublist.mp hy

/-- The point of an operation that has been responded to comes before the response. -/
theorem Annotated.point_before (h : Annotated O s (es ++ .seen (.respond i r) :: es') s') :
    ∃ op r₀, .point i op r₀ ∈ es := by
  have hcourse := h.course i
  rw [eventsOf_append, eventsOf_cons, Happening.id_respond, if_pos rfl] at hcourse
  obtain ⟨op, r₀, -, hp, -⟩ := hcourse.point_of_respond
  exact ⟨op, r₀, (List.mem_filter.mp hp).1⟩

/-- The point of an operation comes after its invocation. -/
theorem Annotated.point_after {j : ℕ} {op : Op} (h : Annotated O s (es ++ es') s')
    (hinvoke : .seen (.invoke j op) ∈ es') {op' : Op} {r : Res}
    (hp : .point j op' r ∈ es ++ es') : .point j op' r ∈ es' := by
  refine (List.mem_append.mp hp).resolve_left fun hleft ↦ ?_
  obtain ⟨es₁, es₂, rfl⟩ := List.append_of_mem hinvoke
  have hcourse := h.course j
  rw [← List.append_assoc, eventsOf_append, eventsOf_cons,
    Happening.id_invoke, if_pos rfl] at hcourse
  have hnil := hcourse.nil_of_invoke
  have hmem : .point j op' r ∈ eventsOf j (es ++ es₁) :=
    mem_eventsOf (List.mem_append_left _ hleft)
  rw [hnil] at hmem
  exact absurd hmem (by simp)

theorem Annotated.nodup (h : Annotated O s es s') : ((points es).map Prod.fst).Nodup := by
  rw [List.nodup_iff_count_le_one]
  intro i
  have hcount : ((points es).map Prod.fst).count i = ((points (eventsOf i es)).map Prod.fst).count i := by
    clear h
    induction es with
    | nil => rfl
    | cons e es ih =>
      rw [eventsOf_cons]
      split
      · cases e with
        | seen e => exact ih
        | point j op r =>
          rw [points, points, List.map_cons, List.map_cons, List.count_cons, List.count_cons, ih]
      · next hne =>
        cases e with
        | seen e => exact ih
        | point j op r =>
          exact (List.count_cons_of_ne hne).trans ih
  rw [hcount]
  have hcourse := h.course i
  generalize eventsOf i es = es' at hcourse
  cases hcourse with
  | absent => simp [points]
  | invoked op => simp [points]
  | pending op r => simp [points]
  | responded op hcovers => simp [points]

/-- The object could have given the responses that were given. -/
theorem Annotated.runs_settled (h : Annotated O s es s') :
    O.Runs s ((points es).map (settled es)) s' := by
  refine h.legal.map fun e he ↦ ⟨rfl, ?_⟩
  obtain ⟨i, op, r⟩ := e
  show O.Covers r ((responseOf i es).getD r)
  cases hr : responseOf i es with
  | none => exact .refl r
  | some r' =>
    -- the response belongs to the point that was noted
    have hpoint := mem_eventsOf (mem_points.mp he)
    have hrespond := mem_eventsOf (responseOf_eq_some hr)
    exact (h.course i).covers hpoint hrespond

/-- **Points make a linearization**: the operations in the order of their points. -/
theorem Annotated.linearization (h : Annotated O s es s') :
    Linearization O s (visible es) ((points es).map (settled es)) where
  legal := ⟨s', h.runs_settled⟩
  nodup := by
    rw [List.map_map]
    exact h.nodup
  invoked i op r hmem := by
    obtain ⟨⟨i', op', r'⟩, hpoint, he⟩ := List.mem_map.mp hmem
    obtain ⟨rfl, rfl, -⟩ : i' = i ∧ op' = op ∧ _ := by simpa [settled] using he
    have hinvoke := (h.course i').invoke_of_point (mem_eventsOf (mem_points.mp hpoint))
    exact mem_visible.mpr (List.mem_filter.mp hinvoke).1
  responded i r hr := by
    obtain ⟨es₁, es₂, rfl⟩ := List.append_of_mem (mem_visible.mp hr)
    obtain ⟨op, r₀, hp⟩ := h.point_before
    refine ⟨op, List.mem_map.mpr ⟨(i, op, r₀), mem_points.mpr (List.mem_append_left _ hp), ?_⟩⟩
    rw [settled, h.responseOf_eq (mem_visible.mp hr)]
    rfl
  inOrder i j r op hpair r' hmem := by
    obtain ⟨a, b, hsplit, hb⟩ := exists_of_pair_sublist hpair
    obtain ⟨es₁, es₂, rfl, rfl⟩ := visible_eq_append hsplit
    obtain ⟨opᵢ, r₀, hpᵢ⟩ := h.point_before
    obtain ⟨⟨j', op', r₁⟩, hpoint, he⟩ := List.mem_map.mp hmem
    obtain ⟨rfl, rfl, -⟩ : j' = j ∧ op' = op ∧ _ := by simpa [settled] using he
    have hpⱼ := h.point_after (List.mem_cons_of_mem _ (mem_visible.mp hb)) (mem_points.mp hpoint)
    refine ⟨opᵢ, ?_⟩
    have hsettled : settled (es₁ ++ .seen (.respond i r) :: es₂) (i, opᵢ, r₀) = (i, opᵢ, r) := by
      rw [settled, h.responseOf_eq (List.mem_append_right _ List.mem_cons_self)]
      rfl
    rw [← hsettled, ← he, points_append, List.map_append]
    exact (List.singleton_sublist.mpr (List.mem_map_of_mem (mem_points.mpr hpᵢ))).append
      (List.singleton_sublist.mpr (List.mem_map_of_mem (mem_points.mpr hpⱼ)))

theorem Annotated.linearizable (h : Annotated O s es s') : Linearizable O s (visible es) :=
  ⟨_, h.linearization⟩

end

end Concurrent
