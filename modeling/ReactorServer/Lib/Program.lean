import Mathlib.Order.Lattice.Nat

/-!
# Programs that call, and may throw

A `Program` is a piece of sequential code as its surroundings see it: a tree of calls, with a
continuation for every answer a call can get.  The answer `none` says that the call has thrown.
`handle` is `try … catch`, `protect` runs something on every way out, as a destructor does.

What a program may do is said relative to a *world*, which is whatever one wants to keep track of.  A
`Spec` says of each call in which worlds it may be made, and in which worlds, and with which answers,
the program may then find itself.  `wp S p Q w` says that `p`, started in the world `w`, makes only
calls that `S` allows and ends so that `Q` holds.  The rules follow the constructors: `wp_bind`,
`wp_handle`, `wp_protect`, and `wp_perform` for a single call.

Much of a program has nothing to do with what one is after.  `Calls P p` says which calls a program
makes at all, and `wp_of_calls` is the frame rule: what all these calls keep, the program keeps;
`wp_restrict` adds a condition that they all meet.  `AtMost n p` bounds how many there are, `calls` is the
least such bound, and `performed` lists them for one way of answering them.

What is one call to a program can be several to what is below it.  `expand body p` puts a program in
the place of every call, and `wp_expand` says that this is a refinement when each of them does what
the specification says of the call.

The world can be one that other programs change in between, when the answer to a call admits every
later world (`Spec.Stable`).  What a program was promised then survives what the others do
(`wp_mono`).
-/

set_option autoImplicit false

universe u v w

/-- A program that makes calls `o : Op`, is answered with a `Res o` or an exception, and ends with a
value or an exception. -/
inductive Program (Op : Type u) (Res : Op → Type v) (α : Type w) where
  | ret (a : α)
  | throw
  | call (o : Op) (next : Option (Res o) → Program Op Res α)

namespace Program

variable {Op : Type u} {Res : Op → Type v} {α β γ : Type w}

/-- One program after the other. -/
def bind : Program Op Res α → (α → Program Op Res β) → Program Op Res β
  | .ret a, f => f a
  | .throw, _ => .throw
  | .call o next, f => .call o fun r ↦ (next r).bind f

instance : Monad (Program Op Res) where
  pure := .ret
  bind := bind

/-- `try p catch h`. -/
def handle : Program Op Res α → Program Op Res α → Program Op Res α
  | .ret a, _ => .ret a
  | .throw, h => h
  | .call o next, h => .call o fun r ↦ (next r).handle h

/-- `p`, and on the way out, by a return or by an exception, `cleanup`. -/
def protect (cleanup : Program Op Res PUnit) : Program Op Res α → Program Op Res α
  | .ret a => cleanup.bind fun _ ↦ .ret a
  | .throw => cleanup.bind fun _ ↦ .throw
  | .call o next => .call o fun r ↦ protect cleanup (next r)

/-- A single call; an exception is passed on. -/
def perform {Op : Type u} {Res : Op → Type w} (o : Op) : Program Op Res (Res o) :=
  .call o fun r ↦ r.elim .throw .ret

@[simp] theorem pure_eq_ret (a : α) : (pure a : Program Op Res α) = .ret a := rfl

@[simp] theorem bind_ret (a : α) (f : α → Program Op Res β) :
    ((ret a : Program Op Res α) >>= f) = f a := rfl

@[simp] theorem bind_call (o : Op) (next : Option (Res o) → Program Op Res α)
    (f : α → Program Op Res β) : (call o next >>= f) = call o fun r ↦ next r >>= f := rfl

@[simp] theorem handle_ret (a : α) (q : Program Op Res α) : (ret a).handle q = ret a := rfl

@[simp] theorem handle_call (o : Op) (next : Option (Res o) → Program Op Res α)
    (q : Program Op Res α) : (call o next).handle q = call o fun r ↦ (next r).handle q := rfl

@[simp] theorem protect_ret (q : Program Op Res PUnit) (a : α) :
    protect q (ret a : Program Op Res α) = q.bind fun _ ↦ ret a := rfl

@[simp] theorem protect_call (q : Program Op Res PUnit) (o : Op)
    (next : Option (Res o) → Program Op Res α) :
    protect q (call o next) = call o fun r ↦ protect q (next r) := rfl

/-! ## Specifications -/

/-- The worlds in which a call may be made, and the worlds and answers it can lead to. -/
structure Spec (Op : Type u) (Res : Op → Type v) (W : Type w) where
  pre : W → Op → Prop
  post : W → (o : Op) → Option (Res o) → W → Prop

variable {W : Type w} (S : Spec Op Res W)

/-- The program makes only calls that the specification allows, and ends in a world and with a
result, or `none` for an exception, of which `Q` holds. -/
def wp : Program Op Res α → (W → Option α → Prop) → W → Prop
  | .ret a, Q, w => Q w (some a)
  | .throw, Q, w => Q w none
  | .call o next, Q, w => S.pre w o ∧ ∀ w' r, S.post w o r w' → wp (next r) Q w'

variable {S}

theorem wp_imp {p : Program Op Res α} {Q Q' : W → Option α → Prop} {w : W} (h : wp S p Q w)
    (hQ : ∀ w r, Q w r → Q' w r) : wp S p Q' w := by
  induction p generalizing w with
  | ret a => exact hQ _ _ h
  | throw => exact hQ _ _ h
  | call o next ih => exact ⟨h.1, fun w' r hr ↦ ih r (h.2 w' r hr)⟩

/-- A later world is no worse: calls that were allowed still are, and lead to worlds they could have
led to before. -/
structure Spec.Stable [Preorder W] (S : Spec Op Res W) : Prop where
  pre : ∀ {w w' : W} {o : Op}, w ≤ w' → S.pre w o → S.pre w' o
  post : ∀ {w w' w'' : W} {o : Op} {r : Option (Res o)}, w ≤ w' → S.post w' o r w'' →
    S.post w o r w''

/-- What others do does not invalidate a specification. -/
theorem wp_mono [Preorder W] (hS : S.Stable) {p : Program Op Res α} {Q : W → Option α → Prop}
    {w w' : W} (hQ : ∀ w w' r, w ≤ w' → Q w r → Q w' r) (h : wp S p Q w) (hw : w ≤ w') :
    wp S p Q w' := by
  cases p with
  | ret a => exact hQ _ _ _ hw h
  | throw => exact hQ _ _ _ hw h
  | call o next => exact ⟨hS.pre hw h.1, fun w'' r hr ↦ h.2 w'' r (hS.post hw hr)⟩

/-- **The rule for sequencing.** -/
theorem wp_bind {p : Program Op Res α} {f : α → Program Op Res β} {Q : W → Option β → Prop} {w : W}
    (h : wp S p (fun w r ↦ r.elim (Q w none) fun a ↦ wp S (f a) Q w) w) :
    wp S (p >>= f) Q w := by
  induction p generalizing w with
  | ret a => exact h
  | throw => exact h
  | call o next ih => exact ⟨h.1, fun w' r hr ↦ ih r (h.2 w' r hr)⟩

/-- **The rule for `try … catch`.** -/
theorem wp_handle {p q : Program Op Res α} {Q : W → Option α → Prop} {w : W}
    (h : wp S p (fun w r ↦ r.elim (wp S q Q w) fun a ↦ Q w (some a)) w) :
    wp S (p.handle q) Q w := by
  induction p generalizing w with
  | ret a => exact h
  | throw => exact h
  | call o next ih => exact ⟨h.1, fun w' r hr ↦ ih r (h.2 w' r hr)⟩

/-- **The rule for a cleanup**, which may itself throw. -/
theorem wp_protect {cleanup : Program Op Res PUnit} {p : Program Op Res α}
    {Q : W → Option α → Prop} {w : W}
    (h : wp S p (fun w r ↦ wp S cleanup (fun w' r' ↦ Q w' (r'.elim none fun _ ↦ r)) w) w) :
    wp S (protect cleanup p) Q w := by
  induction p generalizing w with
  | ret a =>
    refine wp_bind (f := fun _ ↦ .ret a) (wp_imp h fun w' r' hr ↦ ?_)
    cases r' with
    | none => exact hr
    | some u => exact hr
  | throw =>
    refine wp_bind (f := fun _ ↦ .throw) (wp_imp h fun w' r' hr ↦ ?_)
    cases r' with
    | none => exact hr
    | some u => exact hr
  | call o next ih => exact ⟨h.1, fun w' r hr ↦ ih r (h.2 w' r hr)⟩

/-- **The rule for a single call.** -/
theorem wp_perform {Res : Op → Type w} {S : Spec Op Res W} {o : Op} {Q : W → Option (Res o) → Prop}
    {w : W} (hpre : S.pre w o) (hpost : ∀ w' r, S.post w o r w' → Q w' r) :
    wp S (perform o) Q w := by
  refine ⟨hpre, fun w' r hr ↦ ?_⟩
  cases r with
  | none => exact hpost w' none hr
  | some a => exact hpost w' (some a) hr

/-! ## The frame rule -/

/-- Every call the program can make satisfies a condition. -/
def Calls (P : Op → Prop) : Program Op Res α → Prop
  | .ret _ => True
  | .throw => True
  | .call o next => P o ∧ ∀ r, Calls P (next r)

theorem calls_bind {P : Op → Prop} {p : Program Op Res α} {f : α → Program Op Res β}
    (hp : Calls P p) (hf : ∀ a, Calls P (f a)) : Calls P (p >>= f) := by
  induction p with
  | ret a => exact hf a
  | throw => trivial
  | call o next ih => exact ⟨hp.1, fun r ↦ ih r (hp.2 r)⟩

theorem calls_handle {P : Op → Prop} {p q : Program Op Res α} (hp : Calls P p) (hq : Calls P q) :
    Calls P (p.handle q) := by
  induction p with
  | ret a => trivial
  | throw => exact hq
  | call o next ih => exact ⟨hp.1, fun r ↦ ih r (hp.2 r)⟩

theorem calls_protect {P : Op → Prop} {cleanup : Program Op Res PUnit} {p : Program Op Res α}
    (hp : Calls P p) (hcleanup : Calls P cleanup) : Calls P (protect cleanup p) := by
  induction p with
  | ret a => exact calls_bind hcleanup fun _ ↦ trivial
  | throw => exact calls_bind hcleanup fun _ ↦ trivial
  | call o next ih => exact ⟨hp.1, fun r ↦ ih r (hp.2 r)⟩

theorem calls_imp {P P' : Op → Prop} (h : ∀ o, P o → P' o) {p : Program Op Res α}
    (hp : Calls P p) : Calls P' p := by
  induction p with
  | ret a => trivial
  | throw => trivial
  | call o next ih => exact ⟨h o hp.1, fun r ↦ ih r (hp.2 r)⟩

theorem calls_perform {Res : Op → Type w} {P : Op → Prop} {o : Op} (h : P o) :
    Calls P (perform o : Program Op Res (Res o)) := by
  refine ⟨h, fun r ↦ ?_⟩
  cases r with
  | none => trivial
  | some a => trivial

/-- **The frame rule**: what every call of a program keeps, the program keeps. -/
theorem wp_of_calls {P : Op → Prop} {I : W → Prop}
    (hkeep : ∀ o, P o → ∀ w, I w → S.pre w o ∧ ∀ r w', S.post w o r w' → I w')
    {p : Program Op Res α} (hp : Calls P p) {w : W} (hw : I w) :
    wp S p (fun w' _ ↦ I w') w := by
  induction p generalizing w with
  | ret a => exact hw
  | throw => exact hw
  | call o next ih =>
    obtain ⟨hpre, hpost⟩ := hkeep o hp.1 w hw
    exact ⟨hpre, fun w' r hr ↦ ih r (hp.2 r) (hpost r w' hr)⟩

/-- A specification with a further condition on the calls. -/
def Spec.restrict (S : Spec Op Res W) (P : W → Op → Prop) : Spec Op Res W where
  pre w o := S.pre w o ∧ P w o
  post := S.post

/-- A condition that holds of all calls of a program anyway, in the worlds it can be in. -/
theorem wp_restrict {P : W → Op → Prop} {I : W → Prop}
    (hkeep : ∀ w o r w', I w → S.post w o r w' → I w') {p : Program Op Res α}
    {Q : W → Option α → Prop} {w : W} (hp : Calls (fun o ↦ ∀ w, I w → P w o) p) (hw : I w)
    (h : wp S p Q w) : wp (S.restrict P) p Q w := by
  induction p generalizing w with
  | ret a => exact h
  | throw => exact h
  | call o next ih =>
    exact ⟨⟨h.1, hp.1 w hw⟩, fun w' r hr ↦ ih r (hp.2 r) (hkeep w o r w' hw hr) (h.2 w' r hr)⟩

/-- A specification that forbids nothing. -/
theorem wp_of_pre (hpre : ∀ w o, S.pre w o) (p : Program Op Res α) (w : W) :
    wp S p (fun _ _ ↦ True) w := by
  induction p generalizing w with
  | ret a => trivial
  | throw => trivial
  | call o next ih => exact ⟨hpre w o, fun w' r _ ↦ ih r w'⟩

/-! ## Calls that are programs themselves -/

section Expand

variable {Op' : Type u} {Res₁ : Op → Type w} {Res' : Op' → Type w}

/-- First `p`, then `f` with what `p` has come to, `none` for an exception. -/
def andThen {Res : Op → Type w} : Program Op Res α → (Option α → Program Op Res β) →
    Program Op Res β
  | .ret a, f => f (some a)
  | .throw, f => f none
  | .call o next, f => .call o fun r ↦ (next r).andThen f

/-- Carry out every call by a program for it. -/
def expand (body : (o : Op) → Program Op' Res' (Res₁ o)) : Program Op Res₁ α → Program Op' Res' α
  | .ret a => .ret a
  | .throw => .throw
  | .call o next => (body o).andThen fun r ↦ expand body (next r)

theorem wp_andThen {S : Spec Op Res₁ W} {p : Program Op Res₁ α} {f : Option α → Program Op Res₁ β}
    {Q : W → Option β → Prop} {w : W} (h : wp S p (fun w r ↦ wp S (f r) Q w) w) :
    wp S (p.andThen f) Q w := by
  induction p generalizing w with
  | ret a => exact h
  | throw => exact h
  | call o next ih => exact ⟨h.1, fun w' r hr ↦ ih r (h.2 w' r hr)⟩

/-- **The rule for expansion**: if the program for a call does what is said of the call, then what is
said of a program is so of its expansion. -/
theorem wp_expand {S : Spec Op Res₁ W} {S' : Spec Op' Res' W}
    {body : (o : Op) → Program Op' Res' (Res₁ o)}
    (hbody : ∀ w o, S.pre w o → wp S' (body o) (fun w' r ↦ S.post w o r w') w)
    {p : Program Op Res₁ α} {Q : W → Option α → Prop} {w : W} (h : wp S p Q w) :
    wp S' (expand body p) Q w := by
  induction p generalizing w with
  | ret a => exact h
  | throw => exact h
  | call o next ih =>
    exact wp_andThen (wp_imp (hbody w o h.1) fun w' r hr ↦ ih r (h.2 w' r hr))

end Expand

/-! ## Runs -/

/-- The calls a program makes when they are answered like this, the first one as number `n`. -/
def performed (answer : ℕ → (o : Op) → Option (Res o)) : ℕ → Program Op Res α → List Op
  | _, .ret _ => []
  | _, .throw => []
  | n, .call o next => o :: performed answer (n + 1) (next (answer n o))

/-! ## Length -/

/-- The program is at its end. -/
def isDone : Program Op Res α → Bool
  | .call _ _ => false
  | _ => true

/-- The program makes at most so many calls, whatever they are answered with. -/
def AtMost : ℕ → Program Op Res α → Prop
  | _, .ret _ => True
  | _, .throw => True
  | 0, .call _ _ => False
  | n + 1, .call _ next => ∀ r, AtMost n (next r)

theorem atMost_mono {m n : ℕ} (hmn : m ≤ n) {p : Program Op Res α} (hp : AtMost m p) :
    AtMost n p := by
  induction p generalizing m n with
  | ret a => cases n <;> trivial
  | throw => cases n <;> trivial
  | call o next ih =>
    obtain ⟨m, rfl⟩ : ∃ m', m = m' + 1 := by
      cases m with
      | zero => exact absurd hp id
      | succ m => exact ⟨m, rfl⟩
    obtain ⟨n, rfl⟩ : ∃ n', n = n' + 1 := ⟨n - 1, by omega⟩
    exact fun r ↦ ih r (by omega) (hp r)

theorem atMost_bind {m n : ℕ} {p : Program Op Res α} {f : α → Program Op Res β}
    (hp : AtMost m p) (hf : ∀ a, AtMost n (f a)) : AtMost (m + n) (p >>= f) := by
  induction p generalizing m with
  | ret a => exact atMost_mono (by omega) (hf a)
  | throw =>
    show AtMost (m + n) (throw : Program Op Res β)
    cases m + n <;> trivial
  | call o next ih =>
    cases m with
    | zero => exact absurd hp id
    | succ m =>
      rw [Nat.add_right_comm]
      exact fun r ↦ ih r (hp r)

theorem atMost_handle {m n : ℕ} {p q : Program Op Res α} (hp : AtMost m p) (hq : AtMost n q) :
    AtMost (m + n) (p.handle q) := by
  induction p generalizing m with
  | ret a =>
    show AtMost (m + n) (ret a : Program Op Res α)
    cases m + n <;> trivial
  | throw => exact atMost_mono (by omega) hq
  | call o next ih =>
    cases m with
    | zero => exact absurd hp id
    | succ m =>
      rw [Nat.add_right_comm]
      exact fun r ↦ ih r (hp r)

theorem atMost_protect {m n : ℕ} {cleanup : Program Op Res PUnit} {p : Program Op Res α}
    (hp : AtMost m p) (hcleanup : AtMost n cleanup) : AtMost (m + n) (protect cleanup p) := by
  induction p generalizing m with
  | ret a =>
    refine atMost_mono (m := n + 0) (by omega) (atMost_bind hcleanup fun _ ↦ ?_)
    trivial
  | throw =>
    refine atMost_mono (m := n + 0) (by omega) (atMost_bind hcleanup fun _ ↦ ?_)
    trivial
  | call o next ih =>
    cases m with
    | zero => exact absurd hp id
    | succ m =>
      rw [Nat.add_right_comm]
      exact fun r ↦ ih r (hp r)

theorem atMost_andThen {Res : Op → Type w} {m n : ℕ} {p : Program Op Res α}
    {f : Option α → Program Op Res β} (hp : AtMost m p) (hf : ∀ r, AtMost n (f r)) :
    AtMost (m + n) (p.andThen f) := by
  induction p generalizing m with
  | ret a => exact atMost_mono (by omega) (hf (some a))
  | throw => exact atMost_mono (by omega) (hf none)
  | call o next ih =>
    cases m with
    | zero => exact absurd hp id
    | succ m =>
      rw [Nat.add_right_comm]
      exact fun r ↦ ih r (hp r)

/-- Every call of a program becomes as many as its body makes. -/
theorem atMost_expand {Op' : Type u} {Res₁ : Op → Type w} {Res' : Op' → Type w}
    {body : (o : Op) → Program Op' Res' (Res₁ o)} {k : ℕ} (hbody : ∀ o, AtMost k (body o)) {n : ℕ}
    {p : Program Op Res₁ α} (hp : AtMost n p) : AtMost (n * k) (expand body p) := by
  induction p generalizing n with
  | ret a =>
    show AtMost (n * k) (ret a : Program Op' Res' α)
    cases n * k <;> trivial
  | throw =>
    show AtMost (n * k) (throw : Program Op' Res' α)
    cases n * k <;> trivial
  | call o next ih =>
    cases n with
    | zero => exact absurd hp id
    | succ n =>
      rw [Nat.succ_mul, Nat.add_comm]
      exact atMost_andThen (hbody o) fun r ↦ ih r (hp r)

theorem atMost_perform {Res : Op → Type w} (o : Op) :
    AtMost 1 (perform o : Program Op Res (Res o)) := by
  intro r
  cases r with
  | none => trivial
  | some a => trivial

/-- The greatest number of calls that a program can make, if there is one. -/
noncomputable def calls (p : Program Op Res α) : ℕ := sInf {n | AtMost n p}

theorem calls_le {n : ℕ} {p : Program Op Res α} (h : AtMost n p) : p.calls ≤ n := Nat.sInf_le h

theorem atMost_calls {n : ℕ} {p : Program Op Res α} (h : AtMost n p) : AtMost p.calls p :=
  Nat.sInf_mem (s := {n | AtMost n p}) ⟨n, h⟩

/-- Each call is one less to come. -/
theorem calls_next_lt {o : Op} {next : Option (Res o) → Program Op Res α} {n : ℕ}
    (h : AtMost n (.call o next)) (r : Option (Res o)) :
    (next r).calls < (Program.call o next).calls := by
  have hleast := atMost_calls h
  rcases hcalls : (Program.call o next).calls with _ | m
  · rw [hcalls] at hleast
    exact absurd hleast id
  · rw [hcalls] at hleast
    exact Nat.lt_succ_of_le (calls_le (hleast r))

end Program
