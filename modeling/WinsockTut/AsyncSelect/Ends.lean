import WinsockTut.Poller.Exit
import WinsockTut.AsyncSelect.Machine

/-!
# The return of the poller based on `WSAAsyncSelect`

`AsyncSelectPoller::Poll` has a single return, behind `UpdateTimer` and `RemoveRetired`.
-/

namespace WinsockTut

namespace AsyncSelectPoller

open Runs FirstMatch

/-- The phase of `Poll`. -/
def Control.phase : Control → Phase
  | .idle => .outside
  | .polling _ | .callback _ | .update _ => .before
  | .updating _ => .updating

/-- The only return of `Poll`. -/
def exit (c : Config) (e : Event) : Option Exit :=
  match e, c.ctl with
  | .finish, .updating _ => some .compacted
  | _, _ => none

/-- `AsyncSelectPoller` as a machine that polls. -/
def polls : Polls Config Event AsyncEntry where
  step := step
  init := Config.init
  fds c := c.poller.fds
  fd := AsyncEntry.fd
  hasRetired c := c.poller.hasRetired
  timers := Config.timers
  phase c := c.ctl.phase
  polls e := match e with
    | .poll => true
    | _ => false
  updates e := match e with
    | .timer e => entersUpdate e
    | _ => false
  adds e := match e with
    | .call (.addFd _ _) => true
    | _ => false
  limit := fdSetSize
  exit := exit

variable {c d : Config} {e : Event} {es : List Event}

/-- A call does not exceed the capacity. -/
theorem length_call_le {p : AsyncSelectPoller} (h : p.fds.length ≤ fdSetSize) (k : Call) :
    (p.call k).1.fds.length ≤ fdSetSize := by
  have hupdate : ∀ fd f, (p.updateEntry fd f).fds.length ≤ fdSetSize := fun fd f => by
    rwa [updateEntry_fds, length_modifyFirst]
  cases k with
  | addFd fd event =>
    simp only [call, addFd]
    split
    · exact h
    · simp
      omega
  | removeFd fd => exact hupdate fd retire
  | setPollIn fd => exact hupdate fd _
  | resetPollIn fd => exact hupdate fd _
  | setPollOut fd => exact hupdate fd _
  | resetPollOut fd => exact hupdate fd _

theorem removeRetired_eq (p : AsyncSelectPoller) : p.removeRetired.fds =
    (if p.hasRetired then p.fds.filter fun x => x.fd ≠ invalidSocket else p.fds) ∧
      p.removeRetired.hasRetired = false := by
  unfold removeRetired
  cases h : p.hasRetired with
  | true => exact ⟨rfl, rfl⟩
  | false => exact ⟨rfl, h⟩

/-- There are never more than `FD_SETSIZE` entries. -/
theorem length_fds_le (hrun : runs es = some c) : c.poller.fds.length ≤ fdSetSize := by
  refine run_induction (P := fun _ c => c.poller.fds.length ≤ fdSetSize) (Nat.zero_le _) ?_ hrun
  intro fs e t u _ _ ih hstep
  cases effect_of_step hstep with
  | called => exact length_call_le ih _
  | finished =>
    rw [(removeRetired_eq t.poller).1]
    split
    · exact (List.length_filter_le _ _).trans ih
    · exact ih
  | _ => exact ih

/-- `Poll` goes on behind `UpdateTimer` when it has returned. -/
theorem timers_of_finish (h : step c .finish = some d) : c.timers.ctl = .idle := by
  cases hctl : c.ctl with
  | updating count =>
    cases htimers : c.timers.ctl with
    | idle => rfl
    | _ => simp [step, hctl, htimers] at h
  | _ => simp [step, hctl] at h

/-- A step of the timers moves control only into `UpdateTimer`. -/
theorem timer_of_step {x : TimerSched.Event} (h : step c (.timer x) = some d) :
    timerStep c.ctl.stage c.timers x = some d.timers ∧ d.ctl = c.ctl.afterTimer x ∧
      d.poller = c.poller := by
  simp only [step, Option.bind_eq_bind, Option.bind_eq_some_iff, Option.pure_def,
    Option.some.injEq] at h
  obtain ⟨timers, htimers, rfl⟩ := h
  exact ⟨htimers, rfl, rfl⟩

theorem move_of_step (h : step c e = some d) : polls.Move c e d := by
  cases effect_of_step h with
  | called => exact .of_same ⟨rfl, rfl⟩ rfl rfl
  | @ticked x timers =>
    refine .of_timerStep (timer_of_step h).1 rfl rfl (fun hstage hx => ?_) (fun hstage => ?_)
      fun hx => ?_
    · cases hctl : c.ctl with
      | update count =>
        refine ⟨congrArg Control.phase hctl, ?_⟩
        simp [polls, Control.afterTimer, hx, Control.phase]
      | _ => simp [hctl, Control.stage] at hstage
    · cases hctl : c.ctl with
      | updating count => exact congrArg Control.phase hctl
      | _ => simp [hctl, Control.stage] at hstage
    · cases hctl : c.ctl with
      | update count => simp [polls, Control.afterTimer, hctl, hx]
      | _ => simp [polls, Control.afterTimer, hctl]
  | posted => exact .of_same ⟨rfl, rfl⟩ rfl rfl
  | polled hctl => exact .entered rfl (congrArg Control.phase hctl) rfl rfl
  | drained hctl => exact .of_same ⟨rfl, rfl⟩ (congrArg Control.phase hctl).symm rfl
  | skipped => exact .of_same ⟨rfl, rfl⟩ rfl rfl
  | ignored hctl => exact .of_same ⟨rfl, rfl⟩ (congrArg Control.phase hctl).symm rfl
  | handled hctl => exact .of_same ⟨rfl, rfl⟩ (congrArg Control.phase hctl).symm rfl
  | resumed hctl => exact .of_same ⟨rfl, rfl⟩ (congrArg Control.phase hctl).symm rfl
  | finished hctl =>
    exact .updated ⟨rfl, rfl⟩ (congrArg Control.phase hctl) (Or.inr rfl) (timers_of_finish h)

theorem ends : polls.Ends where
  phase_init := rfl
  timers_init := rfl
  move _ _ _ := move_of_step
  stays es c e d _ h hexit hc := by
    cases effect_of_step h with
    | @ticked x timers =>
      cases hctl : c.ctl with
      | idle => exact absurd (congrArg Control.phase hctl) hc
      | update count =>
        cases hx : entersUpdate x <;> simp [polls, Control.afterTimer, hx, Control.phase]
      | _ => simp [polls, Control.afterTimer, Control.phase]
    | polled => exact Phase.noConfusion
    | drained => exact Phase.noConfusion
    | ignored => exact Phase.noConfusion
    | handled => exact Phase.noConfusion
    | resumed => exact Phase.noConfusion
    | finished hctl => simp [polls, exit, hctl] at hexit
    | _ => exact hc
  returns es c e d x _ h hexit := by
    cases effect_of_step h with
    | finished hctl =>
      obtain rfl : Exit.compacted = x := by simpa [polls, exit, hctl] using hexit
      obtain ⟨hfds, hret⟩ := removeRetired_eq c.poller
      exact ⟨⟨Or.inl (congrArg Control.phase hctl), hfds, hret⟩, rfl, rfl, rfl⟩
    | _ => simp [polls, exit] at hexit
  size _ _ := length_fds_le

end AsyncSelectPoller

end WinsockTut
