import WinsockTut.Poller.Exit
import WinsockTut.Select.EmptySets

/-!
# The returns of the select poller

`SelectPoller::Poll` returns behind `UpdateTimer` and `RemoveRetired`, or in front of both, when
`select` fails.
-/

namespace WinsockTut

namespace SelectPoller

open Runs

/-- The phase of `Poll`. -/
def Control.phase : Control → Phase
  | .idle => .outside
  | .selecting _ | .callback _ _ _ | .update _ | .crashed => .before
  | .updating _ => .updating

/-- The returns of `Poll`. -/
def exit (c : Config) (e : Event) : Option Exit :=
  match e, c.ctl with
  | .selectFails, .selecting _ => some .beforeTimers
  | .finish, .updating _ => some .compacted
  | _, _ => none

/-- `SelectPoller` as a machine that polls. -/
def polls : Polls Config Event FdEntry where
  step := step
  init := Config.init
  fds c := c.poller.fds
  fd := FdEntry.fd
  hasRetired c := c.poller.hasRetired
  timers := Config.timers
  phase c := c.ctl.phase
  polls e := match e with
    | .poll => true
    | _ => false
  updates e := match e with
    | .timer e => entersUpdate e
    | _ => false
  adds e := match e with
    | .call (.addFd _ _) => true
    | _ => false
  limit := fdSetSize
  exit := exit

variable {c d : Config} {e : Event} {es : List Event}

theorem length_retireFirst (fd : Socket) (xs : List FdEntry) :
    (retireFirst fd xs).length = xs.length := by
  rw [retireFirst_eq, FirstMatch.length_modifyFirst]

theorem length_removeRetired_le (p : SelectPoller) : p.removeRetired.fds.length ≤ p.fds.length := by
  unfold removeRetired
  split
  · exact List.length_filter_le _ _
  · exact le_rfl

/-- A call does not exceed the capacity. -/
theorem length_call_le {p : SelectPoller} (h : p.fds.length ≤ fdSetSize) (k : Call) :
    (p.call k).fds.length ≤ fdSetSize := by
  cases k with
  | addFd fd event =>
    simp only [call, addFd]
    split
    · exact h
    · simp
      omega
  | removeFd fd => exact (length_retireFirst fd p.fds).trans_le h
  | setPollIn fd => exact h
  | resetPollIn fd => exact h
  | setPollOut fd => exact h
  | resetPollOut fd => exact h

/-- There are never more than `FD_SETSIZE` entries. -/
theorem length_fds_le (hrun : runs es = some c) : c.poller.fds.length ≤ fdSetSize := by
  refine run_induction (P := fun _ c => c.poller.fds.length ≤ fdSetSize) (Nat.zero_le _) ?_ hrun
  intro fs e t u _ _ ih hstep
  cases effect_of_step hstep with
  | called => exact length_call_le ih _
  | selected _ _ hd => exact (dispatch_poller hd).symm ▸ ih
  | resumed _ hd => exact (dispatch_poller hd).symm ▸ ih
  | finished => exact (length_removeRetired_le t.poller).trans ih
  | _ => exact ih

/-- Behind a callback, or the loop, control is still in front of the timers. -/
theorem dispatch_phase {ready : Ready} {count : ℕ} {next : Option Dispatch}
    (h : dispatch c ready count next = some d) :
    d.ctl.phase = .before ∧ d.timers = c.timers := by
  rcases dispatch_cases h with ⟨-, rfl⟩ | ⟨x, y, -, -, ⟨-, rfl⟩ | ⟨-, rfl⟩⟩
  · exact ⟨rfl, rfl⟩
  · exact ⟨rfl, rfl⟩
  · exact ⟨rfl, rfl⟩

/-- `Poll` goes on behind `UpdateTimer` when it has returned. -/
theorem timers_of_finish (h : step c .finish = some d) : c.timers.ctl = .idle := by
  cases hctl : c.ctl with
  | updating count =>
    cases htimers : c.timers.ctl with
    | idle => rfl
    | _ => simp [step, hctl, htimers] at h
  | _ => simp [step, hctl] at h

/-- A step of the timers moves control only into `UpdateTimer`. -/
theorem timer_of_step {x : TimerSched.Event} (h : step c (.timer x) = some d) :
    timerStep c.ctl.stage c.timers x = some d.timers ∧ d.ctl = c.ctl.afterTimer x ∧
      d.poller = c.poller := by
  simp only [step, Option.bind_eq_bind, Option.bind_eq_some_iff, Option.pure_def,
    Option.some.injEq] at h
  obtain ⟨timers, htimers, rfl⟩ := h
  exact ⟨htimers, rfl, rfl⟩

theorem move_of_step (h : step c e = some d) : polls.Move c e d := by
  cases effect_of_step h with
  | called => exact .of_same ⟨rfl, rfl⟩ rfl rfl
  | @ticked x timers =>
    refine .of_timerStep (timer_of_step h).1 rfl rfl (fun hstage hx => ?_) (fun hstage => ?_)
      fun hx => ?_
    · cases hctl : c.ctl with
      | update count =>
        refine ⟨congrArg Control.phase hctl, ?_⟩
        simp [polls, Control.afterTimer, hx, Control.phase]
      | _ => simp [hctl, Control.stage] at hstage
    · cases hctl : c.ctl with
      | updating count => exact congrArg Control.phase hctl
      | _ => simp [hctl, Control.stage] at hstage
    · cases hctl : c.ctl with
      | update count => simp [polls, Control.afterTimer, hctl, hx]
      | _ => simp [polls, Control.afterTimer, hctl]
  | selecting hctl => exact .entered rfl (congrArg Control.phase hctl) rfl rfl
  | slept hctl => exact .entered rfl (congrArg Control.phase hctl) rfl rfl
  | failed hctl =>
    have hc : polls.phase c = .before := congrArg Control.phase hctl
    exact .other ⟨rfl, rfl⟩ (by simp [hc]) (Or.inr rfl) rfl
  | selected hctl hw hd =>
    obtain ⟨hphase, htimers⟩ := dispatch_phase hd
    exact .of_same ⟨rfl, rfl⟩ (hphase.trans (congrArg Control.phase hctl).symm)
      (congrArg TimerSched.Config.ctl htimers)
  | resumed hctl hd =>
    obtain ⟨hphase, htimers⟩ := dispatch_phase hd
    exact .of_same ⟨rfl, rfl⟩ (hphase.trans (congrArg Control.phase hctl).symm)
      (congrArg TimerSched.Config.ctl htimers)
  | finished hctl =>
    exact .updated ⟨rfl, rfl⟩ (congrArg Control.phase hctl) (Or.inr rfl) (timers_of_finish h)

theorem removeRetired_fds (p : SelectPoller) : p.removeRetired.fds =
    if p.hasRetired then p.fds.filter fun x => x.fd ≠ invalidSocket else p.fds := by
  unfold removeRetired
  cases p.hasRetired <;> rfl

theorem removeRetired_hasRetired (p : SelectPoller) : p.removeRetired.hasRetired = false := by
  unfold removeRetired
  cases h : p.hasRetired with
  | true => rfl
  | false => simpa using h

theorem ends : polls.Ends where
  phase_init := rfl
  timers_init := rfl
  move _ _ _ := move_of_step
  stays es c e d _ h hexit hc := by
    cases effect_of_step h with
    | called => exact hc
    | @ticked x timers =>
      rcases c.ctl.afterTimer_eq x with hsame | ⟨n, hn⟩
      · exact (congrArg Control.phase hsame).trans_ne hc
      · exact (congrArg Control.phase hn).trans_ne (by simp [Control.phase])
    | selecting => exact Phase.noConfusion
    | slept => exact Phase.noConfusion
    | failed hctl => simp [polls, exit, hctl] at hexit
    | selected _ _ hd => exact (dispatch_phase hd).1.trans_ne (by simp)
    | resumed _ hd => exact (dispatch_phase hd).1.trans_ne (by simp)
    | finished hctl => simp [polls, exit, hctl] at hexit
  returns es c e d x _ h hexit := by
    cases effect_of_step h with
    | failed hctl =>
      obtain rfl : Exit.beforeTimers = x := by simpa [polls, exit, hctl] using hexit
      exact ⟨congrArg Control.phase hctl, rfl, rfl, rfl⟩
    | finished hctl =>
      obtain rfl : Exit.compacted = x := by simpa [polls, exit, hctl] using hexit
      exact ⟨⟨Or.inl (congrArg Control.phase hctl), removeRetired_fds c.poller,
        removeRetired_hasRetired c.poller⟩, rfl, rfl, rfl⟩
    | _ => simp [polls, exit] at hexit
  size _ _ := length_fds_le

end SelectPoller

end WinsockTut
