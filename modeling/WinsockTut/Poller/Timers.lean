import WinsockTut.AsyncEvent.Machine
import WinsockTut.AsyncSelect.Machine
import WinsockTut.CompletionPort.Machine
import WinsockTut.Overlapped.Machine
import WinsockTut.Select.Machine
import WinsockTut.Timer.Guarantees

/-!
# The timers inside the pollers and the services

Each of the pollers and of the services contains a `TimerSched`, which its callers and callbacks
use through it, and which it runs once in `Poll` or `Run`.  `Timed` says that a machine leaves its
timers alone but for the steps that are about them.  The timers of such a machine are then a run of
`TimerSched` by itself, and all that is known about those runs holds of them, whatever the sockets
and the operations do in between.
-/

namespace WinsockTut

open Runs

/-- A step that the timers can take at some stage is a step of theirs. -/
theorem step_of_timerStep {stage : Stage} {timers timers' : TimerSched.Config}
    {e : TimerSched.Event} (h : timerStep stage timers e = some timers') :
    TimerSched.step timers e = some timers' := by
  cases e <;> exact (Option.ite_none_right_eq_some.mp h).2

/-- A machine whose timers are changed by their own steps only: `event?` is the step of the timers
that an event is. -/
structure Timed {σ ε : Type*} (step : σ → ε → Option σ) (init : σ)
    (timers : σ → TimerSched.Config) (event? : ε → Option TimerSched.Event) : Prop where
  starts : timers init = TimerSched.Config.init
  ticks : ∀ c e d t, event? e = some t → step c e = some d →
    TimerSched.step (timers c) t = some (timers d)
  others : ∀ c e d, event? e = none → step c e = some d → timers d = timers c

/-- The heap is well formed, and every timer that was created is in exactly one of the classes
pending, fired and cancelled. -/
structure TimersKept (timers : TimerSched.Config) : Prop where
  heap : timers.sched.HeapInvariant
  account : ∀ id sink expire, .added id sink expire ∈ timers.log →
    TimerSched.addsOf id timers.log = [(sink, expire)] ∧
      TimerSched.InOneClass timers id sink expire

section

variable {σ ε : Type*} {step : σ → ε → Option σ} {init c : σ} {es : List ε}
  {timers : σ → TimerSched.Config} {event? : ε → Option TimerSched.Event}

/-- **The timers of a machine perform a run of their own.** -/
theorem Timed.run_timers (m : Timed step init timers event?) (hrun : run step init es = some c) :
    TimerSched.runs (es.filterMap event?) = some (timers c) := by
  rw [TimerSched.runs, ← m.starts]
  refine run_filterMap (fun c e d hstep => ?_) hrun
  cases he : event? e with
  | none => simp [m.others c e d he hstep]
  | some t => simp [m.ticks c e d t he hstep]

/-- The timers of a machine are kept, as long as no id is cancelled twice. -/
theorem Timed.kept (m : Timed step init timers event?) (hrun : run step init es = some c)
    (honce : TimerSched.CancelledOnce (es.filterMap event?))
    (hfew : TimerSched.FewTimers (es.filterMap event?)) : TimersKept (timers c) := by
  have hledger := TimerSched.ledger_of_runs honce hfew (m.run_timers hrun)
  exact ⟨hledger.inv.heap, fun id sink expire hadd => (hledger.inv.standing id).classes hadd⟩

end

/-! ### The select poller -/

namespace SelectPoller

/-- The step of the timers that an event is. -/
def Event.timer? : Event → Option TimerSched.Event
  | .timer e => some e
  | _ => none

theorem timers_of_dispatch {c d : Config} {ready : Ready} {count : ℕ} {next : Option Dispatch}
    (h : dispatch c ready count next = some d) : d.timers = c.timers := by
  rcases dispatch_cases h with ⟨-, rfl⟩ | ⟨_, _, -, -, ⟨-, rfl⟩ | ⟨-, rfl⟩⟩ <;> rfl

theorem timed : Timed step Config.init Config.timers Event.timer? where
  starts := rfl
  ticks c e d t he hstep := by
    cases e with
    | timer e =>
      obtain rfl := Option.some.inj he
      simp only [step, Option.bind_eq_bind, Option.bind_eq_some_iff, Option.pure_def,
        Option.some.injEq] at hstep
      obtain ⟨timers, htimers, rfl⟩ := hstep
      exact step_of_timerStep htimers
    | _ => cases he
  others c e d he hstep := by
    cases effect_of_step hstep with
    | ticked => cases he
    | selected _ _ hd => exact timers_of_dispatch hd
    | resumed _ hd => exact timers_of_dispatch hd
    | _ => rfl

end SelectPoller

/-! ### The poller based on window messages -/

namespace AsyncSelectPoller

/-- The step of the timers that an event is. -/
def Event.timer? : Event → Option TimerSched.Event
  | .timer e => some e
  | _ => none

theorem timed : Timed step Config.init Config.timers Event.timer? where
  starts := rfl
  ticks c e d t he hstep := by
    cases e with
    | timer e =>
      obtain rfl := Option.some.inj he
      simp only [step, Option.bind_eq_bind, Option.bind_eq_some_iff, Option.pure_def,
        Option.some.injEq] at hstep
      obtain ⟨timers, htimers, rfl⟩ := hstep
      exact step_of_timerStep htimers
    | _ => cases he
  others c e d he hstep := by
    cases effect_of_step hstep with
    | ticked => cases he
    | _ => rfl

end AsyncSelectPoller

/-! ### The poller based on event objects -/

namespace AsyncEventPoller

/-- The step of the timers that an event is. -/
def Event.timer? : Event → Option TimerSched.Event
  | .timer e => some e
  | _ => none

theorem timers_of_handle {c d : Config} {h : Handling} {rest : List NetworkEvent}
    (hnext : handle c h rest = some d) : d.timers = c.timers := by
  obtain ⟨_, rfl | ⟨_, _, _, rfl⟩⟩ := handle_effect hnext <;> rfl

theorem timed : Timed step Config.init Config.timers Event.timer? where
  starts := rfl
  ticks c e d t he hstep := by
    cases e with
    | timer e =>
      obtain rfl := Option.some.inj he
      simp only [step, Option.bind_eq_bind, Option.bind_eq_some_iff, Option.pure_def,
        Option.some.injEq] at hstep
      obtain ⟨timers, htimers, rfl⟩ := hstep
      exact step_of_timerStep htimers
    | _ => cases he
  others c e d he hstep := by
    cases effect_of_step hstep with
    | ticked => cases he
    | updated _ hnext =>
      rcases afterUpdate_cases hnext with ⟨-, rfl⟩ | ⟨-, ⟨-, rfl⟩ |
          ⟨_, -, -, ⟨-, rfl⟩ | ⟨_, -, rfl⟩⟩⟩
      all_goals rfl
    | enumerated _ _ hnext => exact timers_of_handle hnext
    | resumed _ hnext => exact timers_of_handle hnext
    | _ => rfl

end AsyncEventPoller

/-! ### The service based on event objects -/

namespace OverlappedIOService

/-- The step of the timers that an event is. -/
def Event.timer? : Event → Option TimerSched.Event
  | .timer e => some e
  | _ => none

theorem timed : Timed step Config.init Config.timers Event.timer? where
  starts := rfl
  ticks c e d t he hstep := by
    cases e with
    | timer e =>
      obtain rfl := Option.some.inj he
      cases effect_of_step hstep with
      | ticked htimers => exact step_of_timerStep htimers
    | _ => cases he
  others c e d he hstep := by
    cases effect_of_step hstep with
    | ticked => cases he
    | issued _ _ =>
      unfold Config.issue
      split <;> rfl
    | updated _ _ hnext =>
      rcases afterUpdate_cases hnext with ⟨_, rfl⟩ | ⟨_, _, -, -, rfl⟩ <;> rfl
    | gotResult _ _ _ =>
      unfold Config.dispatch
      split <;> rfl
    | _ => rfl

end OverlappedIOService

/-! ### The service based on a completion port -/

namespace CompletionPortService

/-- The step of the timers that an event is. -/
def Event.timer? : Event → Option TimerSched.Event
  | .timer e => some e
  | _ => none

theorem timers_of_finish (c : Config) (d : Delivery) : (c.finish d).timers = c.timers := by
  rcases c.finish_cases d with ⟨-, heq⟩ | ⟨_, -, ⟨-, heq⟩ | ⟨-, heq⟩⟩ <;> rw [heq] <;> rfl

theorem timers_of_handle (c : Config) (p : Packet) : (c.handle p).timers = c.timers := by
  rcases c.handle_cases p with ⟨-, heq⟩ | ⟨-, -, heq⟩ | ⟨_, -, -, ⟨-, heq⟩ | ⟨-, heq⟩⟩ <;>
    simp [heq, Config.leave, timers_of_finish]

theorem timers_of_post (c : Config) (op : Operation × Bool) (ok : Bool) :
    (c.post op ok).timers = c.timers := by
  unfold Config.post
  split <;> rfl

theorem timed : Timed step Config.init Config.timers Event.timer? where
  starts := rfl
  ticks c e d t he hstep := by
    cases e with
    | timer e =>
      obtain rfl := Option.some.inj he
      cases effect_of_step hstep with
      | ticked htimers => exact step_of_timerStep htimers
    | _ => cases he
  others c e d he hstep := by
    cases effect_of_step hstep with
    | ticked => cases he
    | issued _ _ =>
      unfold Config.issue
      split
      · exact timers_of_post _ _ _
      · rfl
      · rfl
    | completed _ _ => exact timers_of_post _ _ _
    | dequeued _ _ => exact timers_of_handle _ _
    | resumed _ => exact timers_of_finish _ _
    | _ => rfl

end CompletionPortService

/-! ### All of them -/

/-- **The timers work in the pollers and in the services as they do by themselves.**  In every run
of a poller or of a service, whatever its sockets, its operations and their callbacks do, the timers
perform exactly the steps that are about them; and if no timer id is cancelled twice, the heap is
well formed and no timer is lost, duplicated, early or resurrected. -/
theorem timers_of_runs :
    (∀ es c, SelectPoller.runs es = some c →
      TimerSched.runs (es.filterMap SelectPoller.Event.timer?) = some c.timers ∧
      (TimerSched.CancelledOnce (es.filterMap SelectPoller.Event.timer?) →
        TimerSched.FewTimers (es.filterMap SelectPoller.Event.timer?) → TimersKept c.timers)) ∧
    (∀ es c, AsyncSelectPoller.runs es = some c →
      TimerSched.runs (es.filterMap AsyncSelectPoller.Event.timer?) = some c.timers ∧
      (TimerSched.CancelledOnce (es.filterMap AsyncSelectPoller.Event.timer?) →
        TimerSched.FewTimers (es.filterMap AsyncSelectPoller.Event.timer?) → TimersKept c.timers)) ∧
    (∀ es c, AsyncEventPoller.runs es = some c →
      TimerSched.runs (es.filterMap AsyncEventPoller.Event.timer?) = some c.timers ∧
      (TimerSched.CancelledOnce (es.filterMap AsyncEventPoller.Event.timer?) →
        TimerSched.FewTimers (es.filterMap AsyncEventPoller.Event.timer?) → TimersKept c.timers)) ∧
    (∀ es c, OverlappedIOService.runs es = some c →
      TimerSched.runs (es.filterMap OverlappedIOService.Event.timer?) = some c.timers ∧
      (TimerSched.CancelledOnce (es.filterMap OverlappedIOService.Event.timer?) →
        TimerSched.FewTimers (es.filterMap OverlappedIOService.Event.timer?) →
        TimersKept c.timers)) ∧
    (∀ es c, CompletionPortService.runs es = some c →
      TimerSched.runs (es.filterMap CompletionPortService.Event.timer?) = some c.timers ∧
      (TimerSched.CancelledOnce (es.filterMap CompletionPortService.Event.timer?) →
        TimerSched.FewTimers (es.filterMap CompletionPortService.Event.timer?) →
        TimersKept c.timers)) := by
  refine ⟨fun es c h => ?_, fun es c h => ?_, fun es c h => ?_, fun es c h => ?_, fun es c h => ?_⟩
  · exact ⟨SelectPoller.timed.run_timers h, SelectPoller.timed.kept h⟩
  · exact ⟨AsyncSelectPoller.timed.run_timers h, AsyncSelectPoller.timed.kept h⟩
  · exact ⟨AsyncEventPoller.timed.run_timers h, AsyncEventPoller.timed.kept h⟩
  · exact ⟨OverlappedIOService.timed.run_timers h, OverlappedIOService.timed.kept h⟩
  · exact ⟨CompletionPortService.timed.run_timers h, CompletionPortService.timed.kept h⟩

/-- Two timers are set, and one of them is cancelled by the callback of a socket. -/
def cancelledInCallback : List SelectPoller.Event :=
  [.timer (.addTimer 0 5 20 (some 7)), .call (.addFd 5 1), .timer (.addTimer 1 5 10 (some 8)),
    .call (.setPollIn 5), .poll, .selectReturns ⟨[5], [], []⟩, .timer (.cancelTimer 100),
    .call (.removeFd 5), .callbackReturn, .timer (.updateTimer 30), .timer .round,
    .timer .timeoutReturn, .timer .round, .finish]

theorem timers_cancelledInCallback : ∃ c, SelectPoller.runs cancelledInCallback = some c ∧
    TimersKept c.timers ∧ TimerSched.InOneClass c.timers 101 (some 8) 15 := by
  have hmem : (SelectPoller.runs cancelledInCallback).map
      (fun c => decide (.added 101 (some 8) 15 ∈ c.timers.log)) = some true := by decide +kernel
  obtain ⟨c, hc, hadd⟩ := Option.map_eq_some_iff.mp hmem
  have hkept := (timers_of_runs.1 _ c hc).2 (by decide +kernel) (by decide +kernel)
  exact ⟨c, hc, hkept, (hkept.account 101 (some 8) 15 (of_decide_eq_true hadd)).2⟩

end WinsockTut
