import WinsockTut.Select.Poller
import WinsockTut.Foundation.FirstMatch
import WinsockTut.Foundation.Runs

/-!
# The select poller as a machine

`Config` adds to the poller its timers, the position of control in `Poll`, and a log.  Calls of the
interface happen outside `Poll`, in socket callbacks, and in timer callbacks; the outcome of
`select` is part of the event.  `Effect` says what each step does.
-/

namespace WinsockTut

namespace SelectPoller

open Runs FirstMatch

/-- Where control stands. -/
inductive Control
  /-- With the caller. -/
  | idle
  /-- In `select`, which was handed these sets. -/
  | selecting (sets : Ready)
  /-- In the callback at `d`, with the local variables `rdset`, `wrset`, `exptset` and `count`. -/
  | callback (d : Dispatch) (ready : Ready) (count : ℕ)
  /-- Behind the loop, in front of `UpdateTimer`. -/
  | update (count : ℕ)
  /-- In `UpdateTimer`. -/
  | updating (count : ℕ)
  /-- A virtual function was called through a null pointer. -/
  | crashed
  deriving DecidableEq, Repr

/-- What happened in a run. -/
inductive Obs
  /-- `Poll` made the callback of a site through an entry, with these contents at the moment. -/
  | called (entry : FdEntry) (site : Site)
  /-- `Poll` returned. -/
  | returned (count : ℕ)
  deriving DecidableEq, Repr

/-- The poller, its timers, the position of control, and the log. -/
structure Config where
  poller : SelectPoller
  timers : TimerSched.Config
  ctl : Control
  log : List Obs

/-- One step of a run. -/
inductive Event
  /-- A call of the interface. -/
  | call (c : Call)
  /-- A step of the timers. -/
  | timer (e : TimerSched.Event)
  /-- `Poll` is called. -/
  | poll
  /-- `select` returns `SOCKET_ERROR`. -/
  | selectFails
  /-- `select` returns these sets. -/
  | selectReturns (ready : Ready)
  /-- A socket callback returns. -/
  | callbackReturn
  /-- `UpdateTimer` has returned, and `Poll` returns. -/
  | finish
  deriving DecidableEq, Repr

/-- Who has control. -/
def Control.stage : Control → Stage
  | .idle => .user
  | .callback _ _ _ => .user
  | .update _ => .entering
  | .updating _ => .updating
  | .selecting _ => .inside
  | .crashed => .inside

/-- Control after a step of the timers. -/
def Control.afterTimer (ctl : Control) (e : TimerSched.Event) : Control :=
  match ctl with
  | .update count => if entersUpdate e then .updating count else ctl
  | _ => ctl

/-- The timers move control only into `UpdateTimer`. -/
theorem Control.afterTimer_eq (ctl : Control) (e : TimerSched.Event) :
    ctl.afterTimer e = ctl ∨ ∃ count, ctl.afterTimer e = .updating count := by
  cases ctl with
  | update count =>
    cases he : entersUpdate e with
    | true => exact Or.inr ⟨count, by simp [afterTimer, he]⟩
    | false => exact Or.inl (by simp [afterTimer, he])
  | _ => exact Or.inl rfl

/-- `Poll` makes the next callback, or leaves the loop. -/
def dispatch (c : Config) (ready : Ready) (count : ℕ) : Option Dispatch → Option Config
  | none => some { c with ctl := .update count }
  | some d => do
    let e ← c.poller.fds[d.i]?
    return { c with ctl := if e.sink.isSome then .callback d ready count else .crashed
                    log := c.log ++ [.called e d.site] }

instance (ready sets : Ready) : Decidable (ready.Within sets) :=
  decidable_of_iff (ready.exptset ⊆ sets.exptset ∧ ready.wrset ⊆ sets.wrset ∧
    ready.rdset ⊆ sets.rdset)
    ⟨fun ⟨he, hw, hr⟩ s => match s with
      | .except => he
      | .write => hw
      | .read => hr, fun h => ⟨h .except, h .write, h .read⟩⟩

/-- One step of the machine; `none` if the event cannot happen in this state.  With three empty
sets, `select` fails. -/
def step (c : Config) : Event → Option Config
  | .call k =>
    if c.ctl.stage.canCall c.timers.ctl then some { c with poller := c.poller.call k } else none
  | .timer e => do
    let timers ← timerStep c.ctl.stage c.timers e
    return { c with timers := timers, ctl := c.ctl.afterTimer e }
  | .poll =>
    match c.ctl with
    | .idle =>
      if c.poller.fds ≠ [] then
        some { c with ctl := .selecting c.poller.ready }
      else
        some { c with ctl := .update 0 }
    | _ => none
  | .selectFails =>
    match c.ctl with
    | .selecting _ => some { c with ctl := .idle, log := c.log ++ [.returned 0] }
    | _ => none
  | .selectReturns ready =>
    match c.ctl with
    | .selecting sets =>
      if ready.Within sets ∧ 0 < sets.total then
        dispatch c ready 0 (c.poller.start ready)
      else
        none
    | _ => none
  | .callbackReturn =>
    match c.ctl with
    | .callback d ready count => dispatch c ready (count + 1) (c.poller.resume ready d)
    | _ => none
  | .finish =>
    match c.ctl, c.timers.ctl with
    | .updating count, .idle =>
      some { c with poller := c.poller.removeRetired, ctl := .idle
                    log := c.log ++ [.returned count] }
    | _, _ => none

/-- The state after the constructor. -/
def Config.init : Config := ⟨SelectPoller.init, TimerSched.Config.init, .idle, []⟩

/-- The configuration reached by a run from the constructor on. -/
abbrev runs (es : List Event) : Option Config := run step Config.init es

/-- What a step does: the ways in which the poller, control and the log can change. -/
inductive Effect (c : Config) : Event → Config → Prop
  | called {k : Call} (hcall : c.ctl.stage.canCall c.timers.ctl = true) :
      Effect c (.call k) { c with poller := c.poller.call k }
  | ticked {e : TimerSched.Event} {timers : TimerSched.Config} :
      Effect c (.timer e) { c with timers := timers, ctl := c.ctl.afterTimer e }
  | selecting (hctl : c.ctl = .idle) (hfds : c.poller.fds ≠ []) :
      Effect c .poll { c with ctl := .selecting c.poller.ready }
  | slept (hctl : c.ctl = .idle) (hfds : c.poller.fds = []) :
      Effect c .poll { c with ctl := .update 0 }
  | failed {sets : Ready} (hctl : c.ctl = .selecting sets) :
      Effect c .selectFails { c with ctl := .idle, log := c.log ++ [.returned 0] }
  | selected {sets ready : Ready} {c' : Config} (hctl : c.ctl = .selecting sets)
      (hw : ready.Within sets) (hd : dispatch c ready 0 (c.poller.start ready) = some c') :
      Effect c (.selectReturns ready) c'
  | resumed {d : Dispatch} {ready : Ready} {count : ℕ} {c' : Config}
      (hctl : c.ctl = .callback d ready count)
      (hd : dispatch c ready (count + 1) (c.poller.resume ready d) = some c') :
      Effect c .callbackReturn c'
  | finished {count : ℕ} (hctl : c.ctl = .updating count) :
      Effect c .finish { c with poller := c.poller.removeRetired, ctl := .idle
                                log := c.log ++ [.returned count] }

/-- **The step lemma.** -/
theorem effect_of_step {c c' : Config} {e : Event} (h : step c e = some c') : Effect c e c' := by
  cases e with
  | call k =>
    simp only [step, Option.ite_none_right_eq_some, Option.some.injEq] at h
    obtain ⟨hcall, rfl⟩ := h
    exact .called hcall
  | timer e =>
    simp only [step, Option.bind_eq_bind, Option.bind_eq_some_iff, Option.pure_def,
      Option.some.injEq] at h
    obtain ⟨timers, -, rfl⟩ := h
    exact .ticked
  | poll =>
    cases hctl : c.ctl with
    | idle =>
      by_cases hfds : c.poller.fds = []
      · obtain rfl : { c with ctl := .update 0 } = c' := by simpa [step, hctl, hfds] using h
        exact .slept hctl hfds
      · obtain rfl : { c with ctl := .selecting c.poller.ready } = c' := by
          simpa [step, hctl, hfds] using h
        exact .selecting hctl hfds
    | _ => simp [step, hctl] at h
  | selectFails =>
    cases hctl : c.ctl with
    | selecting sets =>
      obtain rfl : { c with ctl := .idle, log := c.log ++ [.returned 0] } = c' := by
        simpa [step, hctl] using h
      exact .failed hctl
    | _ => simp [step, hctl] at h
  | selectReturns ready =>
    cases hctl : c.ctl with
    | selecting sets =>
      simp only [step, hctl, Option.ite_none_right_eq_some] at h
      exact .selected hctl h.1.1 h.2
    | _ => simp [step, hctl] at h
  | callbackReturn =>
    cases hctl : c.ctl with
    | callback d ready count => exact .resumed hctl (by simpa [step, hctl] using h)
    | _ => simp [step, hctl] at h
  | finish =>
    cases hctl : c.ctl with
    | updating count =>
      cases htimers : c.timers.ctl with
      | idle =>
        obtain rfl : { c with poller := c.poller.removeRetired, ctl := .idle
                              log := c.log ++ [.returned count] } = c' := by
          simpa [step, hctl, htimers] using h
        exact .finished hctl
      | _ => simp [step, hctl, htimers] at h
    | _ => simp [step, hctl] at h

/-- **What the loop does next**: it ends, or makes the callback of an entry, unless it calls
through a null pointer. -/
theorem dispatch_cases {c c' : Config} {ready : Ready} {count : ℕ} {next : Option Dispatch}
    (h : dispatch c ready count next = some c') :
    (next = none ∧ c' = { c with ctl := .update count }) ∨
    ∃ d x, next = some d ∧ c.poller.fds[d.i]? = some x ∧
      ((x.sink ≠ none ∧ c' = { c with ctl := .callback d ready count
                                      log := c.log ++ [.called x d.site] }) ∨
      (x.sink = none ∧ c' = { c with ctl := .crashed, log := c.log ++ [.called x d.site] })) := by
  cases next with
  | none => exact Or.inl ⟨rfl, (Option.some.inj h).symm⟩
  | some d =>
    simp only [dispatch, Option.bind_eq_bind, Option.bind_eq_some_iff, Option.pure_def,
      Option.some.injEq] at h
    obtain ⟨x, hx, rfl⟩ := h
    refine Or.inr ⟨d, x, rfl, hx, ?_⟩
    cases hsink : x.sink with
    | none => exact Or.inr ⟨rfl, by simp⟩
    | some k => exact Or.inl ⟨by simp, by simp⟩

/-- `MarkRetired` changes the first entry of the socket. -/
theorem retireFirst_eq (fd : Socket) (xs : List FdEntry) : retireFirst fd xs =
    modifyFirst (fun x => x.fd = fd) (fun _ => { fd := invalidSocket, sink := none }) xs := by
  induction xs with
  | nil => rfl
  | cons x xs ih =>
    rw [retireFirst, modifyFirst_cons, ih]
    by_cases hx : x.fd = fd <;> simp [hx]

end SelectPoller

end WinsockTut
