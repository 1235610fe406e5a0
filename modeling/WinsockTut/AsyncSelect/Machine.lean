import WinsockTut.AsyncSelect.Poller
import WinsockTut.Async.History

/-!
# The poller based on `WSAAsyncSelect` as a machine

`Poll` drains the message queue.  The system posts messages at any time, and those that are already
queued stay there when an interest is reset or a socket removed.  `Effect` says what each step
does, and `tracks` that the entries follow the history of the calls.
-/

namespace WinsockTut

namespace AsyncSelectPoller

open FirstMatch Runs

/-- Where control stands. -/
inductive Control
  /-- With the caller. -/
  | idle
  /-- At the head of the message loop of `Poll`. -/
  | polling (count : ℕ)
  /-- In a socket callback made by the message loop. -/
  | callback (count : ℕ)
  /-- Behind the message loop, in front of `UpdateTimer`. -/
  | update (count : ℕ)
  /-- In `UpdateTimer`. -/
  | updating (count : ℕ)
  deriving DecidableEq, Repr

/-- What happened in a run. -/
inductive Obs
  /-- A callback was made through an entry, with these contents at the moment. -/
  | called (entry : AsyncEntry) (d : Direction)
  /-- `Poll` returned. -/
  | returned (count : ℕ)
  deriving DecidableEq, Repr

/-- The poller, its timers, the message queue, the position of control, the history of operations
on the table, and the log. -/
structure Config where
  poller : AsyncSelectPoller
  timers : TimerSched.Config
  queue : List Message
  ctl : Control
  ops : List Op
  log : List Obs

/-- One step of a run. -/
inductive Event
  /-- A call of the interface. -/
  | call (k : Call)
  /-- A step of the timers. -/
  | timer (e : TimerSched.Event)
  /-- The system posts a message. -/
  | post (m : Message)
  /-- `Poll` is called. -/
  | poll
  /-- `PeekMessage`, and what the loop does up to the next call of it or to a callback. -/
  | peek
  /-- A socket callback returns. -/
  | callbackReturn
  /-- `UpdateTimer` has returned, and `Poll` returns. -/
  | finish
  deriving DecidableEq, Repr

/-- The call an event makes. -/
def Event.call? : Event → Option Call
  | .call k => some k
  | _ => none

/-- Who has control. -/
def Control.stage : Control → Stage
  | .idle => .user
  | .callback _ => .user
  | .update _ => .entering
  | .updating _ => .updating
  | .polling _ => .inside

/-- Control after a step of the timers. -/
def Control.afterTimer (ctl : Control) (e : TimerSched.Event) : Control :=
  match ctl with
  | .update count => if entersUpdate e then .updating count else ctl
  | _ => ctl

/-- The operation a call adds to the history. -/
def performed (p : AsyncSelectPoller) (k : Call) : List Op :=
  if (p.call k).2 = 0 then [k.op] else []

/-- The compaction that `RemoveRetired` adds to the history. -/
def compaction (p : AsyncSelectPoller) : List Op := if p.hasRetired then [.compacted] else []

/-- One step of the machine; `none` if the event cannot happen in this state. -/
def step (c : Config) : Event → Option Config
  | .call k =>
    if c.ctl.stage.canCall c.timers.ctl then
      some { c with poller := (c.poller.call k).1, ops := c.ops ++ c.poller.performed k }
    else
      none
  | .timer e => do
    let timers ← timerStep c.ctl.stage c.timers e
    return { c with timers := timers, ctl := c.ctl.afterTimer e }
  | .post m => some { c with queue := c.queue ++ [m] }
  | .poll =>
    match c.ctl with
    | .idle => some { c with ctl := .polling 0 }
    | _ => none
  | .peek =>
    match c.ctl, c.queue with
    | .polling count, [] => some { c with ctl := .update count }
    | .polling _, .other :: queue => some { c with queue := queue }
    | .polling count, .socket fd ev ec :: queue =>
      match c.poller.handleEvent fd ev ec with
      | (p, none) => some { c with poller := p, queue := queue, ctl := .polling (count + 1) }
      | (p, some (entry, d)) =>
        some { c with poller := p, queue := queue, ctl := .callback count
                      log := c.log ++ [.called entry d] }
    | _, _ => none
  | .callbackReturn =>
    match c.ctl with
    | .callback count => some { c with ctl := .polling (count + 1) }
    | _ => none
  | .finish =>
    match c.ctl, c.timers.ctl with
    | .updating count, .idle =>
      some { c with poller := c.poller.removeRetired, ctl := .idle
                    ops := c.ops ++ c.poller.compaction, log := c.log ++ [.returned count] }
    | _, _ => none

/-- The state after the constructor. -/
def Config.init : Config :=
  ⟨AsyncSelectPoller.init, TimerSched.Config.init, [], .idle, [], []⟩

/-- The configuration reached by a run from the constructor on. -/
abbrev runs (es : List Event) : Option Config := run step Config.init es

/-- What a step does: the ways in which the poller, the history and the log can change. -/
inductive Effect (c : Config) : Event → Config → Prop
  | called {k : Call} (hcall : c.ctl.stage.canCall c.timers.ctl = true) :
      Effect c (.call k) { c with poller := (c.poller.call k).1
                                  ops := c.ops ++ c.poller.performed k }
  | ticked {e : TimerSched.Event} {timers : TimerSched.Config} :
      Effect c (.timer e) { c with timers := timers, ctl := c.ctl.afterTimer e }
  | posted {m : Message} : Effect c (.post m) { c with queue := c.queue ++ [m] }
  | polled (hctl : c.ctl = .idle) : Effect c .poll { c with ctl := .polling 0 }
  | drained {count : ℕ} (hctl : c.ctl = .polling count) (hqueue : c.queue = []) :
      Effect c .peek { c with ctl := .update count }
  | skipped {count : ℕ} {queue : List Message} (hctl : c.ctl = .polling count)
      (hqueue : c.queue = .other :: queue) : Effect c .peek { c with queue := queue }
  | ignored {count : ℕ} {fd : Socket} {ev : BitVec 32} {ec : ℤ} {queue : List Message}
      (hctl : c.ctl = .polling count) (hqueue : c.queue = .socket fd ev ec :: queue)
      (hnone : (c.poller.handleEvent fd ev ec).2 = none) :
      Effect c .peek { c with poller := { c.poller with lastErr := ec }, queue := queue
                              ctl := .polling (count + 1) }
  | handled {count : ℕ} {fd : Socket} {ev : BitVec 32} {ec : ℤ} {queue : List Message}
      {entry : AsyncEntry} {d : Direction}
      (hctl : c.ctl = .polling count) (hqueue : c.queue = .socket fd ev ec :: queue)
      (hsome : (c.poller.handleEvent fd ev ec).2 = some (entry, d)) :
      Effect c .peek { c with poller := { c.poller with lastErr := ec }, queue := queue
                              ctl := .callback count, log := c.log ++ [.called entry d] }
  | resumed {count : ℕ} (hctl : c.ctl = .callback count) :
      Effect c .callbackReturn { c with ctl := .polling (count + 1) }
  | finished {count : ℕ} (hctl : c.ctl = .updating count) :
      Effect c .finish { c with poller := c.poller.removeRetired, ctl := .idle
                                ops := c.ops ++ c.poller.compaction
                                log := c.log ++ [.returned count] }

variable {p : AsyncSelectPoller} {c c' : Config} {e : Event}

/-- **The step lemma.** -/
theorem effect_of_step (h : step c e = some c') : Effect c e c' := by
  cases e with
  | call k =>
    simp only [step, Option.ite_none_right_eq_some, Option.some.injEq] at h
    obtain ⟨hcall, rfl⟩ := h
    exact .called hcall
  | timer e =>
    simp only [step, Option.bind_eq_bind, Option.bind_eq_some_iff, Option.pure_def,
      Option.some.injEq] at h
    obtain ⟨timers, -, rfl⟩ := h
    exact .ticked
  | post m =>
    obtain rfl := Option.some.inj h
    exact .posted
  | poll =>
    cases hctl : c.ctl with
    | idle =>
      simp only [step, hctl, Option.some.injEq] at h
      exact h ▸ .polled hctl
    | _ => simp [step, hctl] at h
  | peek =>
    cases hctl : c.ctl with
    | polling count =>
      cases hqueue : c.queue with
      | nil =>
        simp only [step, hctl, hqueue, Option.some.injEq] at h
        exact h ▸ hqueue ▸ .drained hctl hqueue
      | cons m queue =>
        cases m with
        | other =>
          simp only [step, hctl, hqueue, Option.some.injEq] at h
          exact h ▸ hctl ▸ .skipped hctl hqueue
        | socket fd ev ec =>
          cases hhandle : (c.poller.handleEvent fd ev ec).2 with
          | none =>
            have hpair : c.poller.handleEvent fd ev ec = ({ c.poller with lastErr := ec }, none) :=
              Prod.ext rfl hhandle
            simp only [step, hctl, hqueue, hpair, Option.some.injEq] at h
            exact h ▸ .ignored hctl hqueue hhandle
          | some x =>
            obtain ⟨entry, d⟩ := x
            have hpair : c.poller.handleEvent fd ev ec =
                ({ c.poller with lastErr := ec }, some (entry, d)) := Prod.ext rfl hhandle
            simp only [step, hctl, hqueue, hpair, Option.some.injEq] at h
            exact h ▸ .handled hctl hqueue hhandle
    | _ => simp [step, hctl] at h
  | callbackReturn =>
    cases hctl : c.ctl with
    | callback count =>
      simp only [step, hctl, Option.some.injEq] at h
      exact h ▸ .resumed hctl
    | _ => simp [step, hctl] at h
  | finish =>
    cases hctl : c.ctl with
    | updating count =>
      cases htimers : c.timers.ctl with
      | idle =>
        simp only [step, hctl, htimers, Option.some.injEq] at h
        exact h ▸ .finished hctl
      | _ => simp [step, hctl, htimers] at h
    | _ => simp [step, hctl] at h

/-! ### The table and its history -/

theorem updateEntry_fds (p : AsyncSelectPoller) (fd : Socket) (f : AsyncEntry → AsyncEntry) :
    (p.updateEntry fd f).fds = modifyFirst (fun e => e.fd = fd) f p.fds := by
  unfold updateEntry findEntry modifyFirst
  cases p.fds.findIdx? fun e => e.fd = fd <;> rfl

/-- A call performs its operation on the entries, or `AddFd` refuses it. -/
theorem call_fds (p : AsyncSelectPoller) (k : Call) : Performs (some k) (p.performed k) ∧
    (p.call k).1.fds = (p.performed k).foldl (AsyncEntry.apply retire) p.fds := by
  cases k with
  | addFd fd event =>
    by_cases hfull : p.fds.length ≥ fdSetSize
    · simp [Performs, performed, call, addFd, hfull]
    · simp [Performs, performed, call, addFd, hfull, Call.op, AsyncEntry.apply]
  | removeFd fd => exact ⟨Or.inl rfl, updateEntry_fds p fd retire⟩
  | setPollIn fd => exact ⟨Or.inl rfl, updateEntry_fds p fd AsyncEntry.setPollIn⟩
  | resetPollIn fd => exact ⟨Or.inl rfl, updateEntry_fds p fd AsyncEntry.resetPollIn⟩
  | setPollOut fd => exact ⟨Or.inl rfl, updateEntry_fds p fd AsyncEntry.setPollOut⟩
  | resetPollOut fd => exact ⟨Or.inl rfl, updateEntry_fds p fd AsyncEntry.resetPollOut⟩

theorem removeRetired_fds (p : AsyncSelectPoller) : Performs none p.compaction ∧
    p.removeRetired.fds = p.compaction.foldl (AsyncEntry.apply retire) p.fds := by
  unfold removeRetired compaction
  cases p.hasRetired with
  | true => exact ⟨Or.inr rfl, rfl⟩
  | false => exact ⟨Or.inl rfl, rfl⟩

/-- **The entries follow the history of the calls.** -/
theorem tracks : Tracks step Config.init Event.call? (fun c => c.poller.fds) Config.ops retire where
  entries_init := rfl
  ops_init := rfl
  step c e d h := by
    cases effect_of_step h with
    | @called k hcall => exact ⟨_, (call_fds c.poller k).1, rfl, (call_fds c.poller k).2⟩
    | finished hctl =>
      exact ⟨_, (removeRetired_fds c.poller).1, rfl, (removeRetired_fds c.poller).2⟩
    | _ => exact ⟨[], Or.inl rfl, (List.append_nil _).symm, rfl⟩

theorem view_retire (e : AsyncEntry) : (retire e).view = e.view.retire true := by
  rw [AsyncEntry.view, show (retire e).wants .read = false from hasBits_zero _,
    show (retire e).wants .write = false from hasBits_zero _]
  simp [Registration.retire, retire]

theorem not_live_retire (e : AsyncEntry) : ¬ (retire e).Live := fun h => h rfl

end AsyncSelectPoller

end WinsockTut
