import WinsockTut.Timer.Machine
import WinsockTut.Winsock.Socket

/-!
# What the pollers share

A poller is a `TimerSched` with a table of sockets.  Its callers and its callbacks use the same
operations, `Call`, and the timer functions; `Poll` runs `UpdateTimer`, whose callbacks may use
them too.  `Stage` says who has control, and `timerStep` lets the timers take the steps they can
take at that stage.
-/

namespace WinsockTut

/-- The calls of the interface of `PollerBase`, except for `Poll`. -/
inductive Call
  /-- `AddFd(fd, event)`; the sink is not null. -/
  | addFd (fd : Socket) (event : Sink)
  /-- `RemoveFd(fd)`. -/
  | removeFd (fd : Socket)
  /-- `SetPollIn(fd)`. -/
  | setPollIn (fd : Socket)
  /-- `ResetPollIn(fd)`. -/
  | resetPollIn (fd : Socket)
  /-- `SetPollOut(fd)`. -/
  | setPollOut (fd : Socket)
  /-- `ResetPollOut(fd)`. -/
  | resetPollOut (fd : Socket)
  deriving DecidableEq, Repr

/-- Who has control, as far as the timers are concerned. -/
inductive Stage
  /-- The caller of the poller, or a socket callback. -/
  | user
  /-- `Poll`, about to call `UpdateTimer`. -/
  | entering
  /-- `UpdateTimer`, called by `Poll`. -/
  | updating
  /-- Other code of the poller. -/
  | inside
  deriving DecidableEq, Repr

/-- User code has control: outside `Poll`, in a socket callback or in a timer callback. -/
def Stage.canCall : Stage → TimerSched.Control → Bool
  | .user, _ => true
  | .updating, .callback _ _ _ => true
  | _, _ => false

/-- A step of the timers, if it is possible at this stage. -/
def timerStep (stage : Stage) (timers : TimerSched.Config) (e : TimerSched.Event) :
    Option TimerSched.Config :=
  match e with
  | .addTimer _ _ _ _ | .cancelTimer _ =>
    if stage.canCall timers.ctl then TimerSched.step timers e else none
  | .updateTimer _ => if stage = .entering then TimerSched.step timers e else none
  | .round | .timeoutReturn => if stage = .updating then TimerSched.step timers e else none

/-- `UpdateTimer` is called by this event. -/
def entersUpdate : TimerSched.Event → Bool
  | .updateTimer _ => true
  | _ => false

/-- `UpdateTimer` is called in front of it only, and outside it the timers do not move control. -/
theorem timerStep_ctl {stage : Stage} {timers timers' : TimerSched.Config} {e : TimerSched.Event}
    (h : timerStep stage timers e = some timers') :
    (entersUpdate e = true ∧ stage = .entering) ∨
      (entersUpdate e = false ∧ (stage = .updating ∨ timers'.ctl = timers.ctl)) := by
  cases e with
  | addTimer a tick millsec event =>
    simp only [timerStep, Option.ite_none_right_eq_some] at h
    cases TimerSched.taken_of_step h.2 with
    | added => exact Or.inr ⟨rfl, Or.inr rfl⟩
  | cancelTimer id =>
    simp only [timerStep, Option.ite_none_right_eq_some] at h
    cases TimerSched.taken_of_step h.2 with
    | cancelled => exact Or.inr ⟨rfl, Or.inr rfl⟩
  | updateTimer tick =>
    simp only [timerStep, Option.ite_none_right_eq_some] at h
    exact Or.inl ⟨rfl, h.1⟩
  | round =>
    simp only [timerStep, Option.ite_none_right_eq_some] at h
    exact Or.inr ⟨rfl, Or.inl h.1⟩
  | timeoutReturn =>
    simp only [timerStep, Option.ite_none_right_eq_some] at h
    exact Or.inr ⟨rfl, Or.inl h.1⟩

end WinsockTut
