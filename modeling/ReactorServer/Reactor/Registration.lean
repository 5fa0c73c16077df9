import ReactorServer.Connection.Send
import ReactorServer.Lib.Machine
import Mathlib.Logic.Function.Basic

/-!
# What the channel believes, and what the kernel knows

`inEpoll_` decides between `EPOLL_CTL_ADD` and `EPOLL_CTL_MOD`, and `updateChannel` sets it after an
`ADD` whatever came of it.  Elsewhere in this development an `epoll_ctl` is an action that cannot
fail.  Here it can: the kernel keeps its interest list, says `EEXIST` to an `ADD` and `ENOENT` to a
`MOD` where the list wants it so, and may refuse any call for a reason of its own.

The flag is right for as long as the first registration went through, by the `ADD` or by the `MOD`
that takes a descriptor over (`registered_iff`).  If it did not, every later call is a `MOD`, and
where nothing was registered before, nothing ever will be (`unserved_run`).
-/

set_option autoImplicit false

namespace ReactorServer

open Machine

/-! ## The kernel -/

/-- An entry of the interest list: whether its `data.ptr` is the channel in question, and its mask. -/
structure Interest where
  mine : Bool
  events : Events
  deriving DecidableEq, Repr

/-- The values of `errno` after `epoll_ctl` that matter. -/
inductive CtlErrno where
  | EEXIST
  | ENOENT
  | other
  deriving DecidableEq, Repr

/-- `epoll_ctl` with `EPOLL_CTL_ADD` or `EPOLL_CTL_MOD`: the interest list afterwards, and the error if
there is one.  With `fault` the call fails for a reason that has nothing to do with the list. -/
def epollCtl (add fault : Bool) (fd : ℕ) (ev : Interest) (interest : ℕ → Option Interest) :
    (ℕ → Option Interest) × Option CtlErrno :=
  if fault then (interest, some .other)
  else if add then
    match interest fd with
    | some _ => (interest, some .EEXIST)
    | none => (Function.update interest fd (some ev), none)
  else
    match interest fd with
    | some _ => (Function.update interest fd (some ev), none)
    | none => (interest, some .ENOENT)

/-! ## The channel -/

/-- A channel, the descriptor it is for, and the interest list of its loop. -/
structure Poller where
  fd : ℕ
  channel : Channel
  interest : ℕ → Option Interest

/-- Which of the calls of `epoll_ctl` in an `updateChannel` are going to fail: the first one, and the
`MOD` that takes a descriptor over. -/
structure Faults where
  first : Bool
  takeOver : Bool
  deriving DecidableEq, Repr

/-- `Epoll::updateChannel`. -/
def Poller.updateChannel (p : Poller) (faults : Faults) : Poller :=
  let ev : Interest := ⟨true, p.channel.events⟩
  if !p.channel.inEpoll then
    let (interest, err) := epollCtl true faults.first p.fd ev p.interest
    let interest' :=
      if err = some .EEXIST then (epollCtl false faults.takeOver p.fd ev interest).1 else interest
    { p with interest := interest', channel := { p.channel with inEpoll := true } }
  else { p with interest := (epollCtl false faults.first p.fd ev p.interest).1 }

/-- The member functions of `Channel` that end in `updateChannel`. -/
inductive ChannelCall where
  | enableReading
  | enableReadingET
  | enableWriting
  | disableWriting
  deriving DecidableEq, Repr

/-- What they do to `events_`. -/
def ChannelCall.mask (events : Events) : ChannelCall → Events
  | .enableReading => { events with epollin := true, epollpri := true, epollrdhup := true }
  | .enableReadingET =>
    { events with epollin := true, epollpri := true, epollrdhup := true, epollet := true }
  | .enableWriting => { events with epollout := true }
  | .disableWriting => { events with epollout := false }

namespace Poller

/-- The first line of a call: `events_` is changed. -/
def masked (p : Poller) (call : ChannelCall) : Poller :=
  { p with channel := { p.channel with events := call.mask p.channel.events } }

/-- A call, and what becomes of its `epoll_ctl`. -/
def step (p : Poller) (call : ChannelCall × Faults) : Poller :=
  (p.masked call.1).updateChannel call.2

/-- A new channel.  Its descriptor may be one that another channel is still registered for. -/
def new (fd : ℕ) (others : ℕ → Option Events) : Poller where
  fd := fd
  channel := { events := {}, inEpoll := false }
  interest n := (others n).map (⟨false, ·⟩)

/-- The kernel watches the descriptor for this channel. -/
def Watched (p : Poller) : Prop := ∃ e, p.interest p.fd = some e ∧ e.mine = true

/-- **The bookkeeping is right**: `inEpoll_` is true only if the descriptor is registered for this
channel. -/
def Honest (p : Poller) : Prop := p.channel.inEpoll = true → p.Watched

/-- The condition on a call: if it is to register the channel, then it does. -/
def Registers (p : Poller) (call : ChannelCall × Faults) : Prop :=
  p.channel.inEpoll = false →
    call.2.first = false ∧ ((p.interest p.fd).isSome = true → call.2.takeOver = false)

/-- The channel does with the flag what `Connection/Send.lean` says. -/
theorem updateChannel_channel (p : Poller) (faults : Faults) :
    (p.updateChannel faults).channel = (ReactorServer.updateChannel p.channel).1 := by
  rw [updateChannel, ReactorServer.updateChannel]
  by_cases h : p.channel.inEpoll = true
  · rw [if_neg (by simp [h]), ← h]
  · rw [if_pos (by simpa using h)]

theorem inEpoll_step (p : Poller) (call : ChannelCall × Faults) :
    (p.step call).channel.inEpoll = true := by
  rw [step, updateChannel_channel]
  rfl

@[simp] theorem fd_step (p : Poller) (call : ChannelCall × Faults) : (p.step call).fd = p.fd := by
  unfold step updateChannel
  dsimp only
  split
  · rfl
  · rfl

/-! ## What a call registers -/

/-- What a `MOD` leaves in the list for its descriptor. -/
theorem epollCtl_mod (fault : Bool) (fd : ℕ) (ev : Interest) (interest : ℕ → Option Interest) :
    (epollCtl false fault fd ev interest).1 fd =
      if fault then interest fd else (interest fd).map fun _ ↦ ev := by
  unfold epollCtl
  by_cases hfault : fault = true
  · rw [if_pos hfault, if_pos hfault]
  · rw [if_neg hfault, if_neg hfault, if_neg (by simp)]
    cases h : interest fd with
    | none => exact h
    | some e => exact Function.update_self ..

/-- And an `ADD`, with the `MOD` that may follow it. -/
theorem interest_add (p : Poller) (hin : p.channel.inEpoll = false) (faults : Faults) :
    (p.updateChannel faults).interest p.fd =
      if faults.first then p.interest p.fd
      else if (p.interest p.fd).isSome ∧ faults.takeOver then p.interest p.fd
      else some ⟨true, p.channel.events⟩ := by
  rw [updateChannel, if_pos (by simp [hin])]
  dsimp only
  by_cases hfirst : faults.first = true
  · rw [epollCtl, if_pos hfirst, if_neg (by simp), if_pos hfirst]
  · rw [epollCtl, if_neg hfirst, if_pos rfl, if_neg hfirst]
    cases h : p.interest p.fd with
    | none => simp
    | some e =>
      dsimp only
      rw [if_pos rfl, epollCtl_mod, h]
      by_cases htake : faults.takeOver = true
      · simp [htake]
      · simp [htake]

theorem interest_mod (p : Poller) (hin : p.channel.inEpoll = true) (faults : Faults) :
    (p.updateChannel faults).interest p.fd =
      if faults.first then p.interest p.fd
      else (p.interest p.fd).map fun _ ↦ ⟨true, p.channel.events⟩ := by
  rw [updateChannel, if_neg (by simp [hin])]
  exact epollCtl_mod ..

/-- A registered channel stays registered. -/
theorem Watched.step {p : Poller} (h : p.Watched) (hin : p.channel.inEpoll = true)
    (call : ChannelCall × Faults) : (p.step call).Watched := by
  obtain ⟨e, he, hmine⟩ := h
  have hmod := interest_mod (p.masked call.1) hin call.2
  rw [show (p.masked call.1).interest (p.masked call.1).fd = some e from he] at hmod
  rw [Watched, fd_step]
  refine ⟨_, hmod.trans (apply_ite some ..).symm, ?_⟩
  split
  · exact hmine
  · rfl

/-- A new channel is not in the interest list before it is registered. -/
def Fresh (p : Poller) : Prop := p.channel.inEpoll = false → ¬ p.Watched

/-- **A registration takes if and only if its calls do.** -/
theorem watched_step_iff {p : Poller} (hfresh : p.Fresh) (hin : p.channel.inEpoll = false)
    (call : ChannelCall × Faults) :
    (p.step call).Watched ↔
      call.2.first = false ∧ ((p.interest p.fd).isSome = true → call.2.takeOver = false) := by
  have hnot : ¬ ∃ e, p.interest p.fd = some e ∧ e.mine = true := hfresh hin
  have hadd : (p.step call).interest p.fd = if call.2.first then p.interest p.fd
      else if (p.interest p.fd).isSome ∧ call.2.takeOver then p.interest p.fd
      else some ⟨true, (p.masked call.1).channel.events⟩ := interest_add (p.masked call.1) hin call.2
  rw [Watched, fd_step, hadd]
  by_cases hfirst : call.2.first = true
  · simp only [hfirst, if_true, Bool.true_eq_false, false_and, iff_false]
    exact hnot
  by_cases htake : (p.interest p.fd).isSome = true ∧ call.2.takeOver = true
  · rw [if_neg hfirst, if_pos htake]
    simp only [htake.1, htake.2, Bool.true_eq_false, imp_false, not_true_eq_false, and_false, iff_false]
    exact hnot
  · rw [if_neg hfirst, if_neg htake]
    refine iff_of_true ⟨_, rfl, rfl⟩ ⟨by simpa using hfirst, fun hsome ↦ ?_⟩
    by_contra hne
    exact htake ⟨hsome, by simpa using hne⟩

theorem Fresh.step (p : Poller) (call : ChannelCall × Faults) : (p.step call).Fresh := by
  intro hin
  rw [inEpoll_step] at hin
  exact absurd hin (by simp)

theorem honest_step_iff {p : Poller} (hfresh : p.Fresh) (hp : p.Honest)
    (call : ChannelCall × Faults) : (p.step call).Honest ↔ p.Registers call := by
  rw [Honest, inEpoll_step, Registers]
  by_cases hin : p.channel.inEpoll = true
  · refine iff_of_true (fun _ ↦ (hp hin).step hin call) fun hout ↦ ?_
    rw [hin] at hout
    exact absurd hout (by simp)
  · rw [Bool.not_eq_true] at hin
    rw [watched_step_iff hfresh hin]
    exact ⟨fun h _ ↦ h rfl, fun h _ ↦ h hin⟩

/-! ## Runs -/

theorem fresh_new (fd : ℕ) (others : ℕ → Option Events) : (new fd others).Fresh := by
  rintro - ⟨e, he, hmine⟩
  obtain ⟨ev, -, rfl⟩ := Option.map_eq_some_iff.mp he
  exact absurd hmine (by simp)

/-- **The bookkeeping is right after every call** if and only if the call that registers the channel
goes through: the `ADD` does not fail, unless it is with `EEXIST`, and then the `MOD` does not fail
either. -/
theorem registered_iff (fd : ℕ) (others : ℕ → Option Events)
    (calls : List (ChannelCall × Faults)) :
    Meets step (fun p call ↦ (p.step call).Honest) (new fd others) calls ↔
      Meets step Registers (new fd others) calls := by
  have hhonest : (new fd others).Honest := by
    intro hin
    exact absurd hin (by simp [new])
  exact meets_holds_iff (I := Fresh) (fun p call _ ↦ Fresh.step p call)
    (fun p call hfresh hp ↦ honest_step_iff hfresh hp call) (fresh_new fd others) hhonest calls

/-- A channel that takes itself for registered and is not in the list stays out of it. -/
theorem unserved_run {p : Poller} (hin : p.channel.inEpoll = true) (hnone : p.interest p.fd = none)
    (calls : List (ChannelCall × Faults)) :
    (calls.foldl step p).interest p.fd = none := by
  induction calls generalizing p with
  | nil => exact hnone
  | cons call calls ih =>
    have hstep : (p.step call).interest (p.step call).fd = none := by
      have hmod := interest_mod (p.masked call.1) hin call.2
      rw [show (p.masked call.1).interest (p.masked call.1).fd = none from hnone, Option.map_none,
        ite_self] at hmod
      rw [fd_step]
      exact hmod
    have hrest := ih (inEpoll_step p call) hstep
    rwa [fd_step] at hrest

/-- The `ADD` of a new connection fails, for want of memory perhaps.  Its channel takes itself for
registered, the descriptor is not in the list, and no later call gets it there. -/
theorem registration_lost :
    ¬ ((new 7 fun _ ↦ none).step (.enableReadingET, ⟨true, false⟩)).Honest ∧
      ∀ calls : List (ChannelCall × Faults), (calls.foldl step
        ((new 7 fun _ ↦ none).step (.enableReadingET, ⟨true, false⟩))).interest 7 = none := by
  constructor
  · rw [honest_step_iff (fresh_new 7 _) (fun hin ↦ absurd hin (by simp [new]))]
    intro h
    exact absurd (h rfl).1 (by simp)
  · intro calls
    exact unserved_run (p := (new 7 fun _ ↦ none).step (.enableReadingET, ⟨true, false⟩))
      (inEpoll_step _ _) rfl calls

end Poller

end ReactorServer
