import WinsockTut.AsyncEvent.Poller
import WinsockTut.Async.History

/-!
# The poller based on `WSAEventSelect` as a machine

`Poll` waits for one of the event objects, runs the timers, and handles the record of the signalled
socket.  The outcome of the wait, the record and the handles of new event objects are part of the
events.  `Effect` says what each step does, and `tracks` that the entries follow the history of the
calls.
-/

namespace WinsockTut

namespace AsyncEventPoller

open FirstMatch Runs

/-- The dispatch of one record: the entry, by its index, its socket when the record was received,
and whether a callback made for this record has removed that socket. -/
structure Handling where
  k : ℕ
  fd : Socket
  record : NetworkEvents
  removed : Bool

/-- Where control stands. -/
inductive Control
  /-- With the caller. -/
  | idle
  /-- In `WSAWaitForMultipleEvents`. -/
  | waiting
  /-- In front of `UpdateTimer`, with the local variable `nready`. -/
  | update (nready : ℤ)
  /-- In `UpdateTimer`. -/
  | updating (nready : ℤ)
  /-- In `WSAEnumNetworkEvents`, for the entry at `k`. -/
  | enumerating (k : ℕ)
  /-- In a callback of `HandleEvents`, with the tests that are left. -/
  | callback (h : Handling) (rest : List NetworkEvent)

/-- What happened in a run. -/
inductive Obs
  /-- `HandleEvents` made the callback for an event through an entry, with these contents at the
  moment, before or after a callback for the same record has removed the socket. -/
  | called (entry : FdEntry) (n : NetworkEvent) (removed : Bool)
  /-- `WSACreateEvent` returned a handle. -/
  | created (hEvent : Handle)
  /-- A handle was passed to `WSACloseEvent`. -/
  | closed (hEvent : Handle)
  /-- `Poll` returned. -/
  | returned (value : ℤ)
  deriving DecidableEq, Repr

/-- The poller, its timers, the position of control, the history of operations on the table, and
the log. -/
structure Config where
  poller : AsyncEventPoller
  timers : TimerSched.Config
  ctl : Control
  ops : List Op
  log : List Obs

/-- One step of a run. -/
inductive Event
  /-- A call of the interface; if it is `AddFd`, `WSACreateEvent` returns `hEvent`. -/
  | call (k : Call) (hEvent : Option Handle)
  /-- A step of the timers. -/
  | timer (e : TimerSched.Event)
  /-- `Poll` is called. -/
  | poll
  /-- The wait fails. -/
  | waitFailed
  /-- The wait times out. -/
  | waitTimeout
  /-- The wait returns the index of a signalled event. -/
  | signaled (index : ℕ)
  /-- `UpdateTimer` has returned. -/
  | updated
  /-- `WSAEnumNetworkEvents` fails. -/
  | enumFailed
  /-- `WSAEnumNetworkEvents` returns a record. -/
  | enumerated (record : NetworkEvents)
  /-- A socket callback returns. -/
  | callbackReturn

/-- The call an event makes. -/
def Event.call? : Event → Option Call
  | .call k _ => some k
  | _ => none

/-- Who has control. -/
def Control.stage : Control → Stage
  | .idle => .user
  | .callback _ _ => .user
  | .update _ => .entering
  | .updating _ => .updating
  | .waiting => .inside
  | .enumerating _ => .inside

/-- Control after a step of the timers. -/
def Control.afterTimer (ctl : Control) (e : TimerSched.Event) : Control :=
  match ctl with
  | .update nready => if entersUpdate e then .updating nready else ctl
  | _ => ctl

/-- Control after a call: `RemoveFd` in a callback may remove the socket of the record. -/
def Control.afterCall (ctl : Control) (k : Call) : Control :=
  match ctl with
  | .callback h rest =>
    .callback { h with removed := h.removed || decide (k = .removeFd h.fd) } rest
  | _ => ctl

/-- The handles that are open: created and not yet closed. -/
def openHandles (log : List Obs) : List Handle :=
  log.foldl (fun hs o => match o with
    | .created h => h :: hs
    | .closed h => hs.erase h
    | _ => hs) []

/-- `WSACreateEvent` returns a valid handle that is not open. -/
def FreshHandle (c : Config) (hEvent : Option Handle) : Prop :=
  ∀ h ∈ hEvent, h ≠ wsaInvalidEvent ∧ h ∉ openHandles c.log

instance (c : Config) (hEvent : Option Handle) : Decidable (FreshHandle c hEvent) :=
  match hEvent with
  | none => isTrue (by simp [FreshHandle])
  | some h => decidable_of_iff (h ≠ wsaInvalidEvent ∧ h ∉ openHandles c.log)
      (by simp [FreshHandle])

/-- Only `AddFd` calls `WSACreateEvent`. -/
def createsEvent : Call → Bool
  | .addFd _ _ => true
  | _ => false

/-- The handles a call creates and closes. -/
def handleObs (p : AsyncEventPoller) (hEvent : Option Handle) : Call → List Obs
  | .addFd _ _ => if p.fds.length ≥ wsaMaximumWaitEvents then [] else hEvent.toList.map .created
  | .removeFd fd => (p.fds.find? fun e => e.fd = fd).toList.map fun e => .closed e.hEvent
  | _ => []

/-- The operation a call adds to the history. -/
def performed (p : AsyncEventPoller) (hEvent : Option Handle) (k : Call) : List Op :=
  if (p.call hEvent k).2 = 0 then [k.op] else []

/-- The compaction that `RemoveRetired` adds to the history. -/
def compaction (p : AsyncEventPoller) : List Op := if p.hasRetired then [.compacted] else []

/-- `Poll` returns early. -/
def Config.leave (c : Config) (value : ℤ) : Config :=
  { c with ctl := .idle, log := c.log ++ [.returned value] }

/-- `HandleEvents` goes on with the tests `ns`, and `Poll` returns behind them. -/
def handle (c : Config) (h : Handling) (ns : List NetworkEvent) : Option Config :=
  match handleEvents h.record h.k ns c.poller with
  | (p, none) => some (Config.leave { c with poller := p } 1)
  | (p, some (n, rest)) => do
    let e ← p.fds[h.k]?
    return { c with poller := p, ctl := .callback h rest, log := c.log ++ [.called e n h.removed] }

/-- `Poll` behind `UpdateTimer`. -/
def afterUpdate (c : Config) (nready : ℤ) : Option Config :=
  if nready ≥ 0 ∧ c.poller.events ≠ [] then
    if nready ≥ wsaMaximumWaitEvents then
      some (c.leave 0)
    else do
      let hEvent ← c.poller.events[nready.toNat]?
      match c.poller.findEntryByEvent hEvent with
      | none => return c.leave 0
      | some k => return { c with ctl := .enumerating k }
  else
    some (Config.leave { c with poller := c.poller.removeRetired
                                ops := c.ops ++ c.poller.compaction } 0)

/-- One step of the machine; `none` if the event cannot happen in this state. -/
def step (c : Config) : Event → Option Config
  | .call k hEvent =>
    if c.ctl.stage.canCall c.timers.ctl ∧ (createsEvent k → FreshHandle c hEvent) then
      some { c with poller := (c.poller.call hEvent k).1
                    ctl := c.ctl.afterCall k
                    ops := c.ops ++ c.poller.performed hEvent k
                    log := c.log ++ c.poller.handleObs hEvent k }
    else
      none
  | .timer e => do
    let timers ← timerStep c.ctl.stage c.timers e
    return { c with timers := timers, ctl := c.ctl.afterTimer e }
  | .poll =>
    match c.ctl with
    | .idle =>
      let p := c.poller.collectEvents
      some { c with poller := p, ctl := if p.events ≠ [] then .waiting else .update 0 }
    | _ => none
  | .waitFailed =>
    match c.ctl with
    | .waiting => some { c with ctl := .update (-1) }
    | _ => none
  | .waitTimeout =>
    match c.ctl with
    | .waiting => some { c with ctl := .update (-1) }
    | _ => none
  | .signaled index =>
    match c.ctl with
    | .waiting =>
      if index < c.poller.events.length then some { c with ctl := .update index } else none
    | _ => none
  | .updated =>
    match c.ctl, c.timers.ctl with
    | .updating nready, .idle => afterUpdate c nready
    | _, _ => none
  | .enumFailed =>
    match c.ctl with
    | .enumerating _ => some (c.leave 0)
    | _ => none
  | .enumerated record =>
    match c.ctl with
    | .enumerating k => do
      let e ← c.poller.fds[k]?
      handle c { k := k, fd := e.fd, record := record, removed := false } sites
    | _ => none
  | .callbackReturn =>
    match c.ctl with
    | .callback h rest => handle c h rest
    | _ => none

/-- The state after the constructor. -/
def Config.init : Config := ⟨AsyncEventPoller.init, TimerSched.Config.init, .idle, [], []⟩

/-- The configuration reached by a run from the constructor on. -/
abbrev runs (es : List Event) : Option Config := run step Config.init es

/-- What a step does. -/
inductive Effect (c : Config) : Event → Config → Prop
  | called {k : Call} {hEvent : Option Handle} (hcall : c.ctl.stage.canCall c.timers.ctl = true)
      (hfresh : createsEvent k = true → FreshHandle c hEvent) :
      Effect c (.call k hEvent) { c with poller := (c.poller.call hEvent k).1
                                         ctl := c.ctl.afterCall k
                                         ops := c.ops ++ c.poller.performed hEvent k
                                         log := c.log ++ c.poller.handleObs hEvent k }
  | ticked {e : TimerSched.Event} {timers : TimerSched.Config} :
      Effect c (.timer e) { c with timers := timers, ctl := c.ctl.afterTimer e }
  | polled (hctl : c.ctl = .idle) :
      Effect c .poll { c with poller := c.poller.collectEvents
                              ctl := if c.poller.collectEvents.events ≠ [] then .waiting
                                else .update 0 }
  | waited {e : Event} {nready : ℤ} (hctl : c.ctl = .waiting) (hcall : e.call? = none) :
      Effect c e { c with ctl := .update nready }
  | updated {nready : ℤ} {c' : Config} (hctl : c.ctl = .updating nready)
      (hnext : afterUpdate c nready = some c') : Effect c .updated c'
  | failed {k : ℕ} (hctl : c.ctl = .enumerating k) : Effect c .enumFailed (c.leave 0)
  | enumerated {k : ℕ} {record : NetworkEvents} {x : FdEntry} {c' : Config}
      (hctl : c.ctl = .enumerating k) (hx : c.poller.fds[k]? = some x)
      (hnext : handle c ⟨k, x.fd, record, false⟩ sites = some c') :
      Effect c (.enumerated record) c'
  | resumed {h : Handling} {rest : List NetworkEvent} {c' : Config}
      (hctl : c.ctl = .callback h rest) (hnext : handle c h rest = some c') :
      Effect c .callbackReturn c'

variable {p : AsyncEventPoller} {c c' : Config} {e : Event}

/-- **The step lemma.** -/
theorem effect_of_step (h : step c e = some c') : Effect c e c' := by
  cases e with
  | call k hEvent =>
    simp only [step, Option.ite_none_right_eq_some, Option.some.injEq] at h
    obtain ⟨⟨hcall, hfresh⟩, rfl⟩ := h
    exact .called hcall hfresh
  | timer e =>
    simp only [step, Option.bind_eq_bind, Option.bind_eq_some_iff, Option.pure_def,
      Option.some.injEq] at h
    obtain ⟨timers, -, rfl⟩ := h
    exact .ticked
  | poll =>
    cases hctl : c.ctl with
    | idle =>
      simp only [step, hctl, Option.some.injEq] at h
      exact h ▸ .polled hctl
    | _ => simp [step, hctl] at h
  | waitFailed =>
    cases hctl : c.ctl with
    | waiting =>
      simp only [step, hctl, Option.some.injEq] at h
      exact h ▸ .waited hctl rfl
    | _ => simp [step, hctl] at h
  | waitTimeout =>
    cases hctl : c.ctl with
    | waiting =>
      simp only [step, hctl, Option.some.injEq] at h
      exact h ▸ .waited hctl rfl
    | _ => simp [step, hctl] at h
  | signaled index =>
    cases hctl : c.ctl with
    | waiting =>
      simp only [step, hctl, Option.ite_none_right_eq_some, Option.some.injEq] at h
      exact h.2 ▸ .waited hctl rfl
    | _ => simp [step, hctl] at h
  | updated =>
    cases hctl : c.ctl with
    | updating nready =>
      cases htimers : c.timers.ctl with
      | idle => exact .updated hctl (by simpa [step, hctl, htimers] using h)
      | _ => simp [step, hctl, htimers] at h
    | _ => simp [step, hctl] at h
  | enumFailed =>
    cases hctl : c.ctl with
    | enumerating k =>
      simp only [step, hctl, Option.some.injEq] at h
      exact h ▸ .failed hctl
    | _ => simp [step, hctl] at h
  | enumerated record =>
    cases hctl : c.ctl with
    | enumerating k =>
      simp only [step, hctl, Option.bind_eq_bind, Option.bind_eq_some_iff] at h
      obtain ⟨x, hx, hnext⟩ := h
      exact .enumerated hctl hx hnext
    | _ => simp [step, hctl] at h
  | callbackReturn =>
    cases hctl : c.ctl with
    | callback h' rest => exact .resumed hctl (by simpa [step, hctl] using h)
    | _ => simp [step, hctl] at h

/-- The timers move control only into `UpdateTimer`. -/
theorem Control.afterTimer_eq (ctl : Control) (e : TimerSched.Event) :
    ctl.afterTimer e = ctl ∨ ∃ nready, ctl.afterTimer e = .updating nready := by
  cases ctl with
  | update nready =>
    cases he : entersUpdate e with
    | true => exact Or.inr ⟨nready, by simp [afterTimer, he]⟩
    | false => exact Or.inl (by simp [afterTimer, he])
  | _ => exact Or.inl rfl

/-! ### The handling of a record -/

/-- The first of the tests `ns` whose event is in the record, with the tests behind it. -/
def nextEvent (record : NetworkEvents) :
    List NetworkEvent → Option (NetworkEvent × List NetworkEvent)
  | [] => none
  | n :: ns => if hasBits record.lNetworkEvents n.bit then some (n, ns) else nextEvent record ns

theorem nextEvent_eq_none {record : NetworkEvents} {ns : List NetworkEvent} :
    nextEvent record ns = none ↔ ∀ n ∈ ns, hasBits record.lNetworkEvents n.bit = false := by
  induction ns with
  | nil => simp [nextEvent]
  | cons n ns ih =>
    cases hn : hasBits record.lNetworkEvents n.bit with
    | true => simp [nextEvent, hn]
    | false => simpa [nextEvent, hn] using ih

/-- The condition `entry->mask | MASK_READABLE` is always true. -/
theorem gate_eq_true (x : FdEntry) : gate x = true := by
  refine decide_eq_true fun h => ?_
  have hbit := congrArg (hasBits · maskReadable) h
  rw [show hasBits (x.mask ||| maskReadable) maskReadable = _ from
    hasBits_or isBit_maskReadable _ _, show hasBits (0 : BitVec 32) maskReadable = false from rfl,
    show hasBits maskReadable maskReadable = true from rfl] at hbit
  simp at hbit

/-- So `HandleEvents` reports every event of the record. -/
theorem handleEvents_snd {record : NetworkEvents} {k : ℕ} {x : FdEntry} (ns : List NetworkEvent)
    (h : p.fds[k]? = some x) : (handleEvents record k ns p).2 = nextEvent record ns := by
  induction ns generalizing p with
  | nil => rfl
  | cons n ns ih =>
    cases hn : hasBits record.lNetworkEvents n.bit with
    | true => simp [handleEvents, nextEvent, hn, h, gate_eq_true]
    | false => simpa [handleEvents, nextEvent, hn] using ih h

/-- The only member it changes is `last_err_`. -/
theorem handleEvents_fst (record : NetworkEvents) (k : ℕ) (ns : List NetworkEvent)
    (p : AsyncEventPoller) : ∃ err, (handleEvents record k ns p).1 = { p with lastErr := err } := by
  induction ns generalizing p with
  | nil => exact ⟨p.lastErr, rfl⟩
  | cons n ns ih =>
    cases hn : hasBits record.lNetworkEvents n.bit with
    | false => simpa [handleEvents, hn] using ih p
    | true =>
      cases hgate : p.fds[k]?.any gate with
      | true => exact ⟨record.iErrorCode n, by simp [handleEvents, hn, hgate]⟩
      | false => simpa [handleEvents, hn, hgate] using ih { p with lastErr := record.iErrorCode n }

/-- **What `HandleEvents` does next**: it returns, or makes the callback for the next event of the
record through the entry. -/
theorem handle_cases {h : Handling} {ns : List NetworkEvent} {x : FdEntry}
    (hx : c.poller.fds[h.k]? = some x) (hnext : handle c h ns = some c') :
    ∃ err, (nextEvent h.record ns = none ∧
        c' = Config.leave { c with poller := { c.poller with lastErr := err } } 1) ∨
      ∃ n rest, nextEvent h.record ns = some (n, rest) ∧
        c' = { c with poller := { c.poller with lastErr := err }, ctl := .callback h rest
                      log := c.log ++ [.called x n h.removed] } := by
  obtain ⟨err, hfst⟩ := handleEvents_fst h.record h.k ns c.poller
  refine ⟨err, ?_⟩
  cases hn : nextEvent h.record ns with
  | none =>
    have hpair : handleEvents h.record h.k ns c.poller =
        ({ c.poller with lastErr := err }, none) :=
      Prod.ext hfst ((handleEvents_snd ns hx).trans hn)
    simp only [handle, hpair, Option.some.injEq] at hnext
    exact Or.inl ⟨rfl, hnext.symm⟩
  | some next =>
    obtain ⟨n, rest⟩ := next
    have hpair : handleEvents h.record h.k ns c.poller =
        ({ c.poller with lastErr := err }, some (n, rest)) :=
      Prod.ext hfst ((handleEvents_snd ns hx).trans hn)
    simp only [handle, hpair, hx, Option.bind_eq_bind, Option.bind_some, Option.pure_def,
      Option.some.injEq] at hnext
    exact Or.inr ⟨n, rest, rfl, hnext.symm⟩

/-- The effect of `HandleEvents`, whatever is in the record. -/
theorem handle_effect {h : Handling} {ns : List NetworkEvent} (hnext : handle c h ns = some c') :
    ∃ err, c' = Config.leave { c with poller := { c.poller with lastErr := err } } 1 ∨
      ∃ n rest x, c' = { c with poller := { c.poller with lastErr := err }, ctl := .callback h rest
                                log := c.log ++ [.called x n h.removed] } := by
  obtain ⟨err, hfst⟩ := handleEvents_fst h.record h.k ns c.poller
  refine ⟨err, ?_⟩
  unfold handle at hnext
  generalize hpair : handleEvents h.record h.k ns c.poller = pair at hnext hfst
  obtain ⟨p', next⟩ := pair
  obtain rfl : p' = { c.poller with lastErr := err } := hfst
  cases next with
  | none => exact Or.inl (Option.some.inj hnext).symm
  | some next =>
    obtain ⟨n, rest⟩ := next
    simp only [Option.bind_eq_bind, Option.bind_eq_some_iff, Option.pure_def,
      Option.some.injEq] at hnext
    obtain ⟨x, -, rfl⟩ := hnext
    exact Or.inr ⟨n, rest, x, rfl⟩

/-- The entry of a record stays where it is while the record is handled. -/
theorem handle_table {h : Handling} {ns : List NetworkEvent} (hnext : handle c h ns = some c') :
    c'.poller.fds = c.poller.fds ∧ c'.ops = c.ops := by
  obtain ⟨err, rfl | ⟨n, rest, x, rfl⟩⟩ := handle_effect hnext
  · exact ⟨rfl, rfl⟩
  · exact ⟨rfl, rfl⟩

theorem updateEntry_fds (p : AsyncEventPoller) (fd : Socket) (f : FdEntry → FdEntry) :
    (p.updateEntry fd f).fds = modifyFirst (fun e => e.fd = fd) f p.fds := by
  unfold updateEntry findEntry modifyFirst
  cases p.fds.findIdx? fun e => e.fd = fd <;> rfl

/-- A call takes no entry out. -/
theorem length_le_call (p : AsyncEventPoller) (hEvent : Option Handle) (k : Call) :
    p.fds.length ≤ (p.call hEvent k).1.fds.length := by
  have hupdate : ∀ fd f, (p.updateEntry fd f).fds.length = p.fds.length := fun fd f => by
    rw [updateEntry_fds, length_modifyFirst]
  cases k with
  | addFd fd event =>
    simp only [call, addFd]
    split
    · exact le_rfl
    · cases hEvent with
      | none => exact le_rfl
      | some x => simp
  | removeFd fd => exact (hupdate fd retire).ge
  | setPollIn fd => exact (hupdate fd _).ge
  | resetPollIn fd => exact (hupdate fd _).ge
  | setPollOut fd => exact (hupdate fd _).ge
  | resetPollOut fd => exact (hupdate fd _).ge

/-- **What `Poll` does behind `UpdateTimer`.** -/
theorem afterUpdate_cases {nready : ℤ} (h : afterUpdate c nready = some c') :
    (¬ (nready ≥ 0 ∧ c.poller.events ≠ []) ∧
      c' = Config.leave { c with poller := c.poller.removeRetired
                                 ops := c.ops ++ c.poller.compaction } 0) ∨
    (nready ≥ 0 ∧ c.poller.events ≠ []) ∧
      ((nready ≥ wsaMaximumWaitEvents ∧ c' = c.leave 0) ∨
        ∃ hEvent, ¬ nready ≥ wsaMaximumWaitEvents ∧
          c.poller.events[nready.toNat]? = some hEvent ∧
          ((c.poller.findEntryByEvent hEvent = none ∧ c' = c.leave 0) ∨
            ∃ k, c.poller.findEntryByEvent hEvent = some k ∧
              c' = { c with ctl := .enumerating k })) := by
  unfold afterUpdate at h
  split at h
  · rename_i hready
    refine Or.inr ⟨hready, ?_⟩
    split at h
    · rename_i hbig
      exact Or.inl ⟨hbig, (Option.some.inj h).symm⟩
    · rename_i hsmall
      simp only [Option.bind_eq_bind, Option.bind_eq_some_iff] at h
      obtain ⟨hEvent, hget, h⟩ := h
      refine Or.inr ⟨hEvent, hsmall, hget, ?_⟩
      cases hfind : c.poller.findEntryByEvent hEvent with
      | none =>
        simp only [hfind, Option.pure_def, Option.some.injEq] at h
        exact Or.inl ⟨rfl, h.symm⟩
      | some k =>
        simp only [hfind, Option.pure_def, Option.some.injEq] at h
        exact Or.inr ⟨k, rfl, h.symm⟩
  · rename_i hready
    exact Or.inl ⟨hready, (Option.some.inj h).symm⟩

/-- `Poll` makes no callback in between `UpdateTimer` and `WSAEnumNetworkEvents`. -/
theorem afterUpdate_ctl {nready : ℤ} (h : afterUpdate c nready = some c') :
    (∀ x n r, .called x n r ∈ c'.log → .called x n r ∈ c.log) ∧
      ∀ h' ns, c'.ctl ≠ .callback h' ns := by
  rcases afterUpdate_cases h with ⟨-, rfl⟩ | ⟨-, ⟨-, rfl⟩ |
      ⟨hEvent, -, -, ⟨-, rfl⟩ | ⟨k, -, rfl⟩⟩⟩
  · exact ⟨fun _ _ _ hx => by simpa [Config.leave] using hx, fun _ _ hctl => nomatch hctl⟩
  · exact ⟨fun _ _ _ hx => by simpa [Config.leave] using hx, fun _ _ hctl => nomatch hctl⟩
  · exact ⟨fun _ _ _ hx => by simpa [Config.leave] using hx, fun _ _ hctl => nomatch hctl⟩
  · exact ⟨fun _ _ _ hx => hx, fun _ _ hctl => nomatch hctl⟩

/-- The step goes on with the record of `h` at the tests `ns`: it has received the record, or a
callback for an event of the record returns. -/
def Continues (c : Config) (e : Event) (h : Handling) (ns : List NetworkEvent) : Prop :=
  (e = .enumerated h.record ∧ c.ctl = .enumerating h.k ∧ h.removed = false ∧
    (∃ x, c.poller.fds[h.k]? = some x ∧ h.fd = x.fd) ∧ ns = sites) ∨
  (e = .callbackReturn ∧ c.ctl = .callback h ns)

/-- While a callback for a record runs, the entry of the record is in the table. -/
def EntryThere (c : Config) : Prop :=
  ∀ h ns, c.ctl = .callback h ns → h.k < c.poller.fds.length

theorem entryThere_init : EntryThere Config.init := fun _ _ h => nomatch h

theorem Continues.exists_entry {h : Handling} {ns : List NetworkEvent} (hC : Continues c e h ns)
    (hthere : EntryThere c) : ∃ x, c.poller.fds[h.k]? = some x := by
  rcases hC with ⟨-, -, -, ⟨x, hx, -⟩, -⟩ | ⟨-, hctl⟩
  · exact ⟨x, hx⟩
  · exact ⟨_, List.getElem?_eq_getElem (hthere h ns hctl)⟩

/-- The step that goes on with a record is `handle`. -/
theorem Continues.step_eq {h : Handling} {ns : List NetworkEvent} (hC : Continues c e h ns) :
    step c e = handle c h ns := by
  obtain ⟨k, fd, record, removed⟩ := h
  rcases hC with ⟨rfl, hctl, rfl, ⟨x, hx, rfl⟩, rfl⟩ | ⟨rfl, hctl⟩
  · simp only [step, hctl, hx, Option.bind_eq_bind, Option.bind_some]
  · simp only [step, hctl]

/-- The step goes on with a record that has the event `n` among the tests that are left, for the
entry `x`. -/
def Calls (c : Config) (e : Event) (x : FdEntry) (n : NetworkEvent) (removed : Bool) : Prop :=
  ∃ h ns rest, Continues c e h ns ∧ c.poller.fds[h.k]? = some x ∧
    nextEvent h.record ns = some (n, rest) ∧ h.removed = removed

/-- Then the callback is made. -/
theorem Calls.called {x : FdEntry} {n : NetworkEvent} {removed : Bool}
    (hcalls : Calls c e x n removed) (hstep : step c e = some c') :
    .called x n removed ∈ c'.log := by
  obtain ⟨h, ns, rest, hC, hx, hn, rfl⟩ := hcalls
  rw [hC.step_eq] at hstep
  obtain ⟨err, ⟨hnone, -⟩ | ⟨n', rest', hn', rfl⟩⟩ := handle_cases hx hstep
  · simp [hn] at hnone
  · obtain ⟨rfl, rfl⟩ := Prod.mk.inj (Option.some.inj (hn.symm.trans hn'))
    simp

/-- A step leaves the callbacks of the log alone, or goes on with a record. -/
theorem continues_of_step (h : step c e = some c') :
    ((∀ x n r, .called x n r ∈ c'.log → .called x n r ∈ c.log) ∧
      (∀ h' ns, c'.ctl = .callback h' ns → c.poller.fds.length ≤ c'.poller.fds.length ∧
        ∃ h, c.ctl = .callback h ns ∧ h'.k = h.k)) ∨
      ∃ h ns, Continues c e h ns ∧ handle c h ns = some c' := by
  cases effect_of_step h with
  | @called k hEvent hcall hfresh =>
    refine Or.inl ⟨fun x n r hx => ?_, fun h' ns hctl => ?_⟩
    · rcases List.mem_append.mp hx with hx | hx
      · exact hx
      · cases k with
        | addFd fd event =>
          simp only [handleObs] at hx
          split at hx <;> simp at hx
        | removeFd fd => simp [handleObs] at hx
        | _ => simp [handleObs] at hx
    · cases hc : c.ctl with
      | callback h0 rest =>
        have hafter : c.ctl.afterCall k =
            .callback { h0 with removed := h0.removed || decide (k = .removeFd h0.fd) } rest := by
          rw [hc]
          rfl
        obtain ⟨rfl, rfl⟩ := Control.callback.inj (hafter.symm.trans hctl)
        exact ⟨length_le_call c.poller hEvent k, h0, rfl, rfl⟩
      | _ => simp [Control.afterCall, hc] at hctl
  | @ticked e timers =>
    refine Or.inl ⟨fun _ _ _ hx => hx, fun h' ns hctl => ?_⟩
    rcases c.ctl.afterTimer_eq e with hsame | ⟨n, hn⟩
    · exact ⟨le_rfl, h', hsame.symm.trans hctl, rfl⟩
    · cases hn.symm.trans hctl
  | polled hctl =>
    refine Or.inl ⟨fun _ _ _ hx => hx, fun h' ns hctl' => ?_⟩
    by_cases hne : c.poller.collectEvents.events ≠ []
    · simp [hne] at hctl'
    · simp [hne] at hctl'
  | waited hctl hcall => exact Or.inl ⟨fun _ _ _ hx => hx, fun _ _ hctl' => nomatch hctl'⟩
  | updated hctl hnext =>
    obtain ⟨hlog, hctl'⟩ := afterUpdate_ctl hnext
    exact Or.inl ⟨hlog, fun h' ns hc => absurd hc (hctl' h' ns)⟩
  | failed hctl =>
    exact Or.inl ⟨fun _ _ _ hx => by simpa [Config.leave] using hx, fun _ _ hctl' => nomatch hctl'⟩
  | @enumerated k record x _ hctl hx hnext =>
    exact Or.inr ⟨_, sites, Or.inl ⟨rfl, hctl, rfl, ⟨x, hx, rfl⟩, rfl⟩, hnext⟩
  | @resumed h' rest _ hctl hnext => exact Or.inr ⟨h', rest, Or.inr ⟨rfl, hctl⟩, hnext⟩

theorem EntryThere.step (hthere : EntryThere c) (h : AsyncEventPoller.step c e = some c') :
    EntryThere c' := by
  rcases continues_of_step h with ⟨-, hctl⟩ | ⟨h0, ns0, hC, hnext⟩
  · intro h' ns hc'
    obtain ⟨hlen, h0, hc, hk⟩ := hctl h' ns hc'
    exact hk ▸ (hthere h0 ns hc).trans_le hlen
  · obtain ⟨x, hx⟩ := hC.exists_entry hthere
    obtain ⟨err, ⟨-, rfl⟩ | ⟨n, rest, -, rfl⟩⟩ := handle_cases hx hnext
    · exact fun _ _ hctl => nomatch hctl
    · intro h' ns hctl
      obtain ⟨rfl, -⟩ := Control.callback.inj hctl
      exact (List.getElem?_eq_some_iff.mp hx).1

/-- The entry of a record stays in the table while the record is handled. -/
theorem entryThere_of_runs (hrun : runs es = some c) : EntryThere c :=
  run_induction (P := fun _ c => EntryThere c) entryThere_init
    (fun _ _ _ _ _ _ ih hstep => ih.step hstep) hrun

/-- **What a step adds to the callbacks of the log.** -/
theorem called_of_step (hthere : EntryThere c) (h : step c e = some c') {x : FdEntry}
    {n : NetworkEvent} {removed : Bool} (hx : .called x n removed ∈ c'.log) :
    .called x n removed ∈ c.log ∨ Calls c e x n removed := by
  rcases continues_of_step h with ⟨hlog, -⟩ | ⟨h0, ns, hC, hnext⟩
  · exact Or.inl (hlog x n removed hx)
  · obtain ⟨y, hy⟩ := hC.exists_entry hthere
    obtain ⟨err, ⟨-, rfl⟩ | ⟨n', rest, hn, rfl⟩⟩ := handle_cases hy hnext
    · exact Or.inl (by simpa [Config.leave] using hx)
    · rcases List.mem_append.mp hx with hx | hx
      · exact Or.inl hx
      · obtain ⟨rfl, rfl, rfl⟩ := Obs.called.inj (List.mem_singleton.mp hx)
        exact Or.inr ⟨h0, ns, rest, hC, hy, hn, rfl⟩

/-- All callbacks along a run have a property exactly if each step makes only such ones. -/
theorem throughout_called_iff (Q : FdEntry → NetworkEvent → Bool → Prop)
    (hrun : runs es = some c) :
    Throughout step Config.init es
        (fun _ c => ∀ x n removed, .called x n removed ∈ c.log → Q x n removed) ↔
      EachStep step Config.init es
        (fun _ c e => ∀ x n removed, Calls c e x n removed → Q x n removed) := by
  have hseen := throughout_seen_iff
    (fun c (w : FdEntry × NetworkEvent × Bool) => .called w.1 w.2.1 w.2.2 ∈ c.log)
    (fun c e w => Calls c e w.1 w.2.1 w.2.2) (fun w => Q w.1 w.2.1 w.2.2)
    (fun _ => List.not_mem_nil)
    (fun fs e t u ht hstep w hw => called_of_step (entryThere_of_runs ht) hstep hw)
    (fun fs e t u _ hstep w hw => hw.called hstep) hrun
  simpa only [Prod.forall] using hseen

/-! ### The table and its history -/

/-- The fields of the entries that both asynchronous pollers have. -/
def Config.entries (c : Config) : List AsyncEntry := c.poller.fds.map FdEntry.toAsyncEntry

/-- What `RemoveFd` does to these fields. -/
def retireEntry (e : AsyncEntry) : AsyncEntry := { e with fd := invalidSocket }

/-- A change of an entry, seen on the common fields. -/
theorem map_updateEntry (p : AsyncEventPoller) (fd : Socket) {f : FdEntry → FdEntry}
    {g : AsyncEntry → AsyncEntry} (h : ∀ x, (f x).toAsyncEntry = g x.toAsyncEntry) :
    (p.updateEntry fd f).fds.map FdEntry.toAsyncEntry =
      modifyFirst (fun e => e.fd = fd) g (p.fds.map FdEntry.toAsyncEntry) := by
  rw [updateEntry_fds]
  exact map_modifyFirst (fun _ => rfl) h

/-- A call performs its operation on the entries, or `AddFd` refuses it. -/
theorem call_entries (p : AsyncEventPoller) (hEvent : Option Handle) (k : Call) :
    Performs (some k) (p.performed hEvent k) ∧
      (p.call hEvent k).1.fds.map FdEntry.toAsyncEntry =
        (p.performed hEvent k).foldl (AsyncEntry.apply retireEntry)
          (p.fds.map FdEntry.toAsyncEntry) := by
  cases k with
  | addFd fd event =>
    by_cases hfull : p.fds.length ≥ wsaMaximumWaitEvents
    · simp [Performs, performed, call, addFd, hfull]
    · cases hEvent with
      | none => simp [Performs, performed, call, addFd, hfull]
      | some x => simp [Performs, performed, call, addFd, hfull, Call.op, AsyncEntry.apply]
  | removeFd fd => exact ⟨Or.inl rfl, map_updateEntry p fd fun _ => rfl⟩
  | setPollIn fd => exact ⟨Or.inl rfl, map_updateEntry p fd fun _ => rfl⟩
  | resetPollIn fd => exact ⟨Or.inl rfl, map_updateEntry p fd fun _ => rfl⟩
  | setPollOut fd => exact ⟨Or.inl rfl, map_updateEntry p fd fun _ => rfl⟩
  | resetPollOut fd => exact ⟨Or.inl rfl, map_updateEntry p fd fun _ => rfl⟩

theorem removeRetired_entries (p : AsyncEventPoller) : Performs none p.compaction ∧
    p.removeRetired.fds.map FdEntry.toAsyncEntry =
      p.compaction.foldl (AsyncEntry.apply retireEntry) (p.fds.map FdEntry.toAsyncEntry) := by
  unfold removeRetired compaction
  cases p.hasRetired with
  | false => exact ⟨Or.inl rfl, rfl⟩
  | true =>
    refine ⟨Or.inr rfl, ?_⟩
    rw [if_pos rfl, if_pos rfl, List.foldl_cons, List.foldl_nil, AsyncEntry.apply, List.filter_map]
    rfl

/-- `Poll` compacts the table behind `UpdateTimer`, or leaves it alone. -/
theorem afterUpdate_table {nready : ℤ} (h : afterUpdate c nready = some c') :
    (c'.poller.fds = c.poller.fds ∧ c'.ops = c.ops) ∨
      (c'.poller = c.poller.removeRetired ∧ c'.ops = c.ops ++ c.poller.compaction) := by
  rcases afterUpdate_cases h with ⟨-, rfl⟩ | ⟨-, ⟨-, rfl⟩ |
      ⟨hEvent, -, -, ⟨-, rfl⟩ | ⟨k, -, rfl⟩⟩⟩
  · exact Or.inr ⟨rfl, rfl⟩
  · exact Or.inl ⟨rfl, rfl⟩
  · exact Or.inl ⟨rfl, rfl⟩
  · exact Or.inl ⟨rfl, rfl⟩

/-- **The entries follow the history of the calls.** -/
theorem tracks : Tracks step Config.init Event.call? Config.entries Config.ops retireEntry where
  entries_init := rfl
  ops_init := rfl
  step c e d h := by
    have hsame : e.call? = none → d.poller.fds = c.poller.fds ∧ d.ops = c.ops →
        ∃ l, Performs e.call? l ∧ d.ops = c.ops ++ l ∧
          d.entries = l.foldl (AsyncEntry.apply retireEntry) c.entries := by
      rintro he ⟨hfds, hops⟩
      refine ⟨[], by rw [he]; exact Or.inl rfl, by rw [hops, List.append_nil], ?_⟩
      rw [Config.entries, hfds]
      rfl
    cases effect_of_step h with
    | @called k hEvent hcall hfresh =>
      exact ⟨_, (call_entries c.poller hEvent k).1, rfl, (call_entries c.poller hEvent k).2⟩
    | ticked => exact hsame rfl ⟨rfl, rfl⟩
    | polled hctl => exact hsame rfl ⟨rfl, rfl⟩
    | waited hctl hcall => exact hsame hcall ⟨rfl, rfl⟩
    | updated hctl hnext =>
      rcases afterUpdate_table hnext with htable | ⟨hp, hops⟩
      · exact hsame rfl htable
      · refine ⟨_, (removeRetired_entries c.poller).1, hops, ?_⟩
        rw [Config.entries, hp]
        exact (removeRetired_entries c.poller).2
    | failed hctl => exact hsame rfl ⟨rfl, rfl⟩
    | enumerated hctl hx hnext => exact hsame rfl (handle_table hnext)
    | resumed hctl hnext => exact hsame rfl (handle_table hnext)

theorem view_retireEntry (e : AsyncEntry) : (retireEntry e).view = e.view.retire false := by
  simp [retireEntry, AsyncEntry.view, Registration.retire, AsyncEntry.wants]

theorem not_live_retireEntry (e : AsyncEntry) : ¬ (retireEntry e).Live := fun h => h rfl

end AsyncEventPoller

end WinsockTut
