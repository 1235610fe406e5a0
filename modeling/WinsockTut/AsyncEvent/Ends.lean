import WinsockTut.Poller.Exit
import WinsockTut.AsyncEvent.Machine

/-!
# The returns of the poller based on `WSAEventSelect`

`AsyncEventPoller::Poll` comes to `RemoveRetired` only if no event was signalled.  It returns behind
`UpdateTimer`, but in front of `RemoveRetired`, as soon as it has handled a record, or fails to.
-/

namespace WinsockTut

namespace AsyncEventPoller

open Runs FirstMatch

/-- The phase of `Poll`. -/
def Control.phase : Control → Phase
  | .idle => .outside
  | .waiting | .update _ => .before
  | .updating _ => .updating
  | .enumerating _ | .callback _ _ => .behind

/-- The returns of `Poll`.  A record is handled to its end by the last callback for it. -/
def exit (c : Config) (e : Event) : Option Exit :=
  match e, c.ctl with
  | .updated, .updating nready =>
    if nready ≥ 0 ∧ c.poller.events ≠ [] then
      if nready ≥ wsaMaximumWaitEvents then
        some .afterTimers
      else
        match c.poller.events[nready.toNat]?.bind c.poller.findEntryByEvent with
        | none => some .afterTimers
        | some _ => none
    else
      some .compacted
  | .enumFailed, .enumerating _ => some .afterTimers
  | .enumerated record, .enumerating _ =>
    if (nextEvent record sites).isNone then some .afterTimers else none
  | .callbackReturn, .callback h rest =>
    if (nextEvent h.record rest).isNone then some .afterTimers else none
  | _, _ => none

/-- `AsyncEventPoller` as a machine that polls. -/
def polls : Polls Config Event FdEntry where
  step := step
  init := Config.init
  fds c := c.poller.fds
  fd x := x.fd
  hasRetired c := c.poller.hasRetired
  timers := Config.timers
  phase c := c.ctl.phase
  polls e := match e with
    | .poll => true
    | _ => false
  updates e := match e with
    | .timer e => entersUpdate e
    | _ => false
  adds e := match e with
    | .call (.addFd _ _) _ => true
    | _ => false
  limit := wsaMaximumWaitEvents
  exit := exit

variable {c d : Config} {e : Event} {es : List Event}

/-- A call does not exceed the capacity. -/
theorem length_call_le {p : AsyncEventPoller} (h : p.fds.length ≤ wsaMaximumWaitEvents)
    (hEvent : Option Handle) (k : Call) :
    (p.call hEvent k).1.fds.length ≤ wsaMaximumWaitEvents := by
  have hupdate : ∀ fd f, (p.updateEntry fd f).fds.length ≤ wsaMaximumWaitEvents := fun fd f => by
    rwa [updateEntry_fds, length_modifyFirst]
  cases k with
  | addFd fd event =>
    simp only [call, addFd]
    split
    · exact h
    · cases hEvent with
      | none => exact h
      | some x =>
        simp
        omega
  | removeFd fd => exact hupdate fd retire
  | setPollIn fd => exact hupdate fd _
  | resetPollIn fd => exact hupdate fd _
  | setPollOut fd => exact hupdate fd _
  | resetPollOut fd => exact hupdate fd _

theorem removeRetired_eq (p : AsyncEventPoller) : p.removeRetired.fds =
    (if p.hasRetired then p.fds.filter fun x => x.fd ≠ invalidSocket else p.fds) ∧
      p.removeRetired.hasRetired = false := by
  unfold removeRetired
  cases h : p.hasRetired with
  | true => exact ⟨rfl, rfl⟩
  | false => exact ⟨rfl, h⟩

/-- There are never more than `WSA_MAXIMUM_WAIT_EVENTS` entries. -/
theorem length_fds_le (hrun : runs es = some c) :
    c.poller.fds.length ≤ wsaMaximumWaitEvents := by
  refine run_induction (P := fun _ c => c.poller.fds.length ≤ wsaMaximumWaitEvents)
    (Nat.zero_le _) ?_ hrun
  intro fs e t u _ _ ih hstep
  cases effect_of_step hstep with
  | called => exact length_call_le ih _ _
  | updated _ hnext =>
    rcases afterUpdate_table hnext with ⟨hfds, -⟩ | ⟨hp, -⟩
    · exact hfds.symm ▸ ih
    · rw [hp, (removeRetired_eq t.poller).1]
      split
      · exact (List.length_filter_le _ _).trans ih
      · exact ih
  | enumerated _ _ hnext => exact (handle_table hnext).1.symm ▸ ih
  | resumed _ hnext => exact (handle_table hnext).1.symm ▸ ih
  | _ => exact ih

/-- `Poll` goes on behind `UpdateTimer` when it has returned. -/
theorem timers_of_updated (h : step c .updated = some d) : c.timers.ctl = .idle := by
  cases hctl : c.ctl with
  | updating count =>
    cases htimers : c.timers.ctl with
    | idle => rfl
    | _ => simp [step, hctl, htimers] at h
  | _ => simp [step, hctl] at h

/-- A step of the timers moves control only into `UpdateTimer`. -/
theorem timer_of_step {x : TimerSched.Event} (h : step c (.timer x) = some d) :
    timerStep c.ctl.stage c.timers x = some d.timers ∧ d.ctl = c.ctl.afterTimer x ∧
      d.poller = c.poller := by
  simp only [step, Option.bind_eq_bind, Option.bind_eq_some_iff, Option.pure_def,
    Option.some.injEq] at h
  obtain ⟨timers, htimers, rfl⟩ := h
  exact ⟨htimers, rfl, rfl⟩

/-- `HandleEvents` makes the next callback, or `Poll` returns. -/
theorem handle_phase {h : Handling} {ns : List NetworkEvent} (hnext : handle c h ns = some d) :
    (d.ctl.phase = .behind ∨ d.ctl.phase = .outside) ∧ d.timers = c.timers := by
  obtain ⟨err, rfl | ⟨n, rest, x, rfl⟩⟩ := handle_effect hnext
  · exact ⟨Or.inr rfl, rfl⟩
  · exact ⟨Or.inl rfl, rfl⟩

theorem phase_afterCall (ctl : Control) (k : Call) : (ctl.afterCall k).phase = ctl.phase := by
  cases ctl <;> rfl

theorem move_of_step (h : step c e = some d) : polls.Move c e d := by
  cases effect_of_step h with
  | called => exact .of_same ⟨rfl, rfl⟩ (phase_afterCall c.ctl _) rfl
  | @ticked x timers =>
    refine .of_timerStep (timer_of_step h).1 rfl rfl (fun hstage hx => ?_) (fun hstage => ?_)
      fun hx => ?_
    · cases hctl : c.ctl with
      | update count =>
        refine ⟨congrArg Control.phase hctl, ?_⟩
        simp [polls, Control.afterTimer, hx, Control.phase]
      | _ => simp [hctl, Control.stage] at hstage
    · cases hctl : c.ctl with
      | updating count => exact congrArg Control.phase hctl
      | _ => simp [hctl, Control.stage] at hstage
    · cases hctl : c.ctl with
      | update count => simp [polls, Control.afterTimer, hctl, hx]
      | _ => simp [polls, Control.afterTimer, hctl]
  | polled hctl =>
    refine .entered rfl (congrArg Control.phase hctl) ?_ rfl
    by_cases hne : c.poller.collectEvents.events ≠ []
    · simp [polls, hne, Control.phase]
    · simp [polls, hne, Control.phase]
  | waited hctl hcall =>
    have he : polls.polls e = false ∧ polls.updates e = false := by
      cases e with
      | poll => simp [step, hctl] at h
      | timer x =>
        rcases timerStep_ctl (timer_of_step h).1 with ⟨-, hstage⟩ | ⟨hx, -⟩
        · simp [hctl, Control.stage] at hstage
        · exact ⟨rfl, hx⟩
      | _ => exact ⟨rfl, rfl⟩
    exact .of_same he (congrArg Control.phase hctl).symm rfl
  | updated hctl hnext =>
    have ht := timers_of_updated h
    have hc : polls.phase c = .updating := congrArg Control.phase hctl
    rcases afterUpdate_cases hnext with ⟨-, rfl⟩ | ⟨-, ⟨-, rfl⟩ | ⟨hEvent, -, -, ⟨-, rfl⟩ |
        ⟨k, -, rfl⟩⟩⟩
    · exact .updated ⟨rfl, rfl⟩ hc (Or.inr rfl) ht
    · exact .updated ⟨rfl, rfl⟩ hc (Or.inr rfl) ht
    · exact .updated ⟨rfl, rfl⟩ hc (Or.inr rfl) ht
    · exact .updated ⟨rfl, rfl⟩ hc (Or.inl rfl) ht
  | failed hctl =>
    have hc : polls.phase c = .behind := congrArg Control.phase hctl
    exact .other ⟨rfl, rfl⟩ (by simp [hc]) (Or.inr rfl) rfl
  | enumerated hctl hx hnext =>
    have hc : polls.phase c = .behind := congrArg Control.phase hctl
    obtain ⟨hphase, ht⟩ := handle_phase hnext
    refine .other ⟨rfl, rfl⟩ (by simp [hc]) ?_ (congrArg TimerSched.Config.ctl ht)
    exact hphase.imp_left fun hd => hd.trans hc.symm
  | resumed hctl hnext =>
    have hc : polls.phase c = .behind := congrArg Control.phase hctl
    obtain ⟨hphase, ht⟩ := handle_phase hnext
    refine .other ⟨rfl, rfl⟩ (by simp [hc]) ?_ (congrArg TimerSched.Config.ctl ht)
    exact hphase.imp_left fun hd => hd.trans hc.symm

/-- The step of `Poll` behind `UpdateTimer`: it returns, on the way that `exit` names, or goes on
to `WSAEnumNetworkEvents`. -/
theorem exit_updated {nready : ℤ} (hctl : c.ctl = .updating nready)
    (h : afterUpdate c nready = some d) :
    (exit c .updated = some .compacted ∧ d.ctl = .idle ∧ d.poller = c.poller.removeRetired) ∨
      (exit c .updated = some .afterTimers ∧ d.ctl = .idle ∧ d.poller = c.poller) ∨
      (exit c .updated = none ∧ d.ctl.phase = .behind) := by
  rcases afterUpdate_cases h with ⟨hready, rfl⟩ | ⟨hready, ⟨hbig, rfl⟩ |
      ⟨hEvent, hsmall, hget, ⟨hfind, rfl⟩ | ⟨k, hfind, rfl⟩⟩⟩
  · exact Or.inl ⟨by simp only [exit, hctl, if_neg hready], rfl, rfl⟩
  · exact Or.inr (Or.inl ⟨by simp only [exit, hctl, if_pos hready, if_pos hbig], rfl, rfl⟩)
  · refine Or.inr (Or.inl ⟨?_, rfl, rfl⟩)
    simp only [exit, hctl, if_pos hready, if_neg hsmall, hget, Option.bind_some, hfind]
  · refine Or.inr (Or.inr ⟨?_, rfl⟩)
    simp only [exit, hctl, if_pos hready, if_neg hsmall, hget, Option.bind_some, hfind]

/-- The step that goes on with a record: `Poll` returns behind the last event of it. -/
theorem exit_continues {h : Handling} {ns : List NetworkEvent} (hC : Continues c e h ns)
    (hthere : EntryThere c) (hnext : handle c h ns = some d) :
    (exit c e = some .afterTimers ∧ d.ctl = .idle ∧ d.poller.fds = c.poller.fds ∧
        d.poller.hasRetired = c.poller.hasRetired) ∨
      (exit c e = none ∧ d.ctl.phase = .behind) := by
  have hexit : exit c e = if (nextEvent h.record ns).isNone then some .afterTimers else none := by
    rcases hC with ⟨rfl, hctl, -, -, rfl⟩ | ⟨rfl, hctl⟩
    · simp only [exit, hctl]
    · simp only [exit, hctl]
  obtain ⟨x, hx⟩ := hC.exists_entry hthere
  obtain ⟨err, ⟨hnone, rfl⟩ | ⟨n, rest, hn, rfl⟩⟩ := handle_cases hx hnext
  · exact Or.inl ⟨by simp [hexit, hnone], rfl, rfl, rfl⟩
  · exact Or.inr ⟨by simp [hexit, hn], rfl⟩

theorem ends : polls.Ends where
  phase_init := rfl
  timers_init := rfl
  move _ _ _ := move_of_step
  stays es c e d hrun h hexit hc := by
    have hthere := entryThere_of_runs hrun
    cases effect_of_step h with
    | called => exact (phase_afterCall c.ctl _).trans_ne hc
    | @ticked x timers =>
      rcases c.ctl.afterTimer_eq x with hsame | ⟨n, hn⟩
      · exact (congrArg Control.phase hsame).trans_ne hc
      · exact (congrArg Control.phase hn).trans_ne (by simp [Control.phase])
    | polled hctl => exact absurd (congrArg Control.phase hctl) hc
    | waited => exact Phase.noConfusion
    | updated hctl hnext =>
      rcases exit_updated hctl hnext with ⟨hx, -⟩ | ⟨hx, -⟩ | ⟨-, hd⟩
      · exact nomatch hx.symm.trans hexit
      · exact nomatch hx.symm.trans hexit
      · exact hd.trans_ne (by simp)
    | failed hctl => simp [polls, exit, hctl] at hexit
    | @enumerated k record x _ hctl hx hnext =>
      rcases exit_continues (Or.inl ⟨rfl, hctl, rfl, ⟨x, hx, rfl⟩, rfl⟩) hthere hnext with
        ⟨hx, -⟩ | ⟨-, hd⟩
      · exact nomatch hx.symm.trans hexit
      · exact hd.trans_ne (by simp)
    | resumed hctl hnext =>
      rcases exit_continues (Or.inr ⟨rfl, hctl⟩) hthere hnext with ⟨hx, -⟩ | ⟨-, hd⟩
      · exact nomatch hx.symm.trans hexit
      · exact hd.trans_ne (by simp)
  returns es c e d x hrun h hexit := by
    have hthere := entryThere_of_runs hrun
    have hrecord : ∀ {h ns}, Continues c e h ns → handle c h ns = some d → c.ctl.phase = .behind →
        polls.Done c d x ∧ polls.phase d = .outside := by
      intro h ns hC hnext hc
      rcases exit_continues hC hthere hnext with ⟨hx, hd, hfds, hret⟩ | ⟨hx, -⟩
      · obtain rfl := Option.some.inj (hx.symm.trans hexit)
        exact ⟨⟨Or.inr hc, hfds, hret⟩, congrArg Control.phase hd⟩
      · exact nomatch hx.symm.trans hexit
    cases effect_of_step h with
    | updated hctl hnext =>
      have hc : polls.phase c = .updating := congrArg Control.phase hctl
      rcases exit_updated hctl hnext with ⟨hx, hd, hp⟩ | ⟨hx, hd, hp⟩ | ⟨hx, -⟩
      · obtain rfl := Option.some.inj (hx.symm.trans hexit)
        obtain ⟨hfds, hret⟩ := removeRetired_eq c.poller
        refine ⟨⟨Or.inl hc, ?_, ?_⟩, rfl, rfl, congrArg Control.phase hd⟩
        · exact (congrArg AsyncEventPoller.fds hp).trans hfds
        · exact (congrArg AsyncEventPoller.hasRetired hp).trans hret
      · obtain rfl := Option.some.inj (hx.symm.trans hexit)
        exact ⟨⟨Or.inl hc, congrArg AsyncEventPoller.fds hp,
          congrArg AsyncEventPoller.hasRetired hp⟩, rfl, rfl, congrArg Control.phase hd⟩
      · exact nomatch hx.symm.trans hexit
    | failed hctl =>
      obtain rfl : Exit.afterTimers = x := by simpa [polls, exit, hctl] using hexit
      exact ⟨⟨Or.inr (congrArg Control.phase hctl), rfl, rfl⟩, rfl, rfl, rfl⟩
    | @enumerated k record y _ hctl hy hnext =>
      obtain ⟨hdone, hd⟩ := hrecord (Or.inl ⟨rfl, hctl, rfl, ⟨y, hy, rfl⟩, rfl⟩) hnext
        (congrArg Control.phase hctl)
      exact ⟨hdone, rfl, rfl, hd⟩
    | resumed hctl hnext =>
      obtain ⟨hdone, hd⟩ := hrecord (Or.inr ⟨rfl, hctl⟩) hnext (congrArg Control.phase hctl)
      exact ⟨hdone, rfl, rfl, hd⟩
    | waited hctl _ => cases e <;> simp [polls, exit, hctl] at hexit
    | _ => simp [polls, exit] at hexit
  size _ _ := length_fds_le

end AsyncEventPoller

end WinsockTut
