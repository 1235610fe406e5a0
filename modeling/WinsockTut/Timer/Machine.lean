import WinsockTut.Foundation.Runs
import WinsockTut.Timer.Operations

/-!
# The timer scheduler as a machine

`TimerSched` is driven by its caller and, while `UpdateTimer` is inside an `OnTimeout` call, by the
callback: both may call `AddTimer` and `CancelTimer` any number of times.  `Config` records where
control stands, and `step` performs one event; a round of the loop of `UpdateTimer` is one step,
the return of a callback another.  Everything the outside can observe or decide (the address `new`
returns, the clock, the arguments of the calls) is part of the event.

The log records what happened so far.  It is written only, so it does not influence the code.
-/

namespace WinsockTut

namespace TimerSched

open Runs Word Function

/-- Where control stands. -/
inductive Control
  /-- With the caller. -/
  | idle
  /-- At the head of the loop of `UpdateTimer`, with its local variables. -/
  | loop (now lastId : ℤ)
  /-- Inside `entry->sink->OnTimeout()`. -/
  | callback (now lastId : ℤ) (entry : Addr)
  deriving DecidableEq, Repr

/-- What happened in a run. -/
inductive Obs
  /-- `AddTimer` returned `id`. -/
  | added (id : ℤ) (sink : Option Sink) (expire : ℤ)
  /-- `CancelTimer(id)` was called, while the timer was pending or not. -/
  | cancel (id : ℤ) (pending : Bool)
  /-- `UpdateTimer` took the timer off the heap in a pass that had read the clock as `now`. -/
  | popped (id now : ℤ)
  /-- `sink->OnTimeout()` was called for the timer. -/
  | timeout (id : ℤ) (sink : Sink)
  deriving DecidableEq, Repr

/-- The scheduler, the position of control, and the log. -/
structure Config where
  sched : TimerSched
  ctl : Control
  log : List Obs

/-- One step of a run. -/
inductive Event
  /-- `AddTimer(millsec, event)`, where `new` returns `a` and the clock shows `tick`. -/
  | addTimer (a : Addr) (tick : ℕ) (millsec : ℤ) (event : Option Sink)
  /-- `CancelTimer(id)`. -/
  | cancelTimer (id : ℤ)
  /-- `UpdateTimer()` is called, and reads the clock as `tick`. -/
  | updateTimer (tick : ℕ)
  /-- A round of the loop of `UpdateTimer`, up to the call of `OnTimeout`. -/
  | round
  /-- `OnTimeout` returns. -/
  | timeoutReturn
  deriving DecidableEq, Repr

/-- The entry at `a` carries the timer id `id`. -/
def carries (s : TimerSched) (id : ℤ) (a : Addr) : Bool := (s.payload a).any fun x => x.1 == id

/-- The entries of the heap that carry `id`. -/
def carrying (s : TimerSched) (id : ℤ) : List Addr := s.heap.filter (s.carries id)

/-- Control is outside the scheduler: public functions may be called. -/
def Control.canCall : Control → Bool
  | .idle => true
  | .loop _ _ => false
  | .callback _ _ _ => true

/-- One step of the machine; `none` if the event cannot happen in this state, or the code has no
defined behaviour. -/
def step (c : Config) : Event → Option Config
  | .addTimer a tick millsec event =>
    if c.ctl.canCall then do
      let (s, id) ← c.sched.addTimer a tick millsec event
      return { c with sched := s, log := c.log ++ [.added id event (wrap64 (tick + millsec))] }
    else
      none
  | .cancelTimer id =>
    if c.ctl.canCall then do
      let s ← c.sched.cancelTimer id
      let pending := !(c.sched.carrying id).isEmpty
      return { c with sched := s, log := c.log ++ [.cancel id pending] }
    else
      none
  | .updateTimer tick =>
    match c.ctl with
    | .idle => some { c with ctl := .loop (wrap64 tick) c.sched.nextId }
    | _ => none
  | .round =>
    match c.ctl with
    | .loop now lastId => do
      let (s, r) ← c.sched.updateRound now lastId
      match r with
      | .done => return { c with sched := s, ctl := .idle }
      | .skip => return { c with sched := s }
      | .popped a e =>
        match e.sink with
        | some k =>
          return { sched := s
                   ctl := .callback now lastId a
                   log := c.log ++ [.popped e.id now, .timeout e.id k] }
        | none =>
          let s ← s.delete a
          return { c with sched := s, log := c.log ++ [.popped e.id now] }
    | _ => none
  | .timeoutReturn =>
    match c.ctl with
    | .callback now lastId a => do
      let s ← c.sched.delete a
      return { c with sched := s, ctl := .loop now lastId }
    | _ => none

/-- The state after the constructor. -/
def Config.init : Config := ⟨TimerSched.init, .idle, []⟩

/-- The configuration reached by a run from the constructor on. -/
abbrev runs (es : List Event) : Option Config := run step Config.init es

/-- What a step does: the operations of the scheduler it performs. -/
inductive Taken (c : Config) : Event → Config → Prop
  | added {a : Addr} {tick : ℕ} {millsec : ℤ} {event : Option Sink} {s : TimerSched} {id : ℤ}
      (hcall : c.ctl.canCall = true)
      (hadd : c.sched.addTimer a tick millsec event = some (s, id)) :
      Taken c (.addTimer a tick millsec event)
        { c with sched := s, log := c.log ++ [.added id event (wrap64 (tick + millsec))] }
  | cancelled {id : ℤ} {s : TimerSched} (hcall : c.ctl.canCall = true)
      (hcancel : c.sched.cancelTimer id = some s) :
      Taken c (.cancelTimer id)
        { c with sched := s, log := c.log ++ [.cancel id !(c.sched.carrying id).isEmpty] }
  | entered {tick : ℕ} (hctl : c.ctl = .idle) :
      Taken c (.updateTimer tick) { c with ctl := .loop (wrap64 tick) c.sched.nextId }
  | left {now lastId : ℤ} {s : TimerSched} (hctl : c.ctl = .loop now lastId)
      (hround : c.sched.updateRound now lastId = some (s, .done)) :
      Taken c .round { c with sched := s, ctl := .idle }
  | skipped {now lastId : ℤ} {s : TimerSched} (hctl : c.ctl = .loop now lastId)
      (hround : c.sched.updateRound now lastId = some (s, .skip)) :
      Taken c .round { c with sched := s }
  | fired {now lastId : ℤ} {s : TimerSched} {a : Addr} {x : TimerEntry} {k : Sink}
      (hctl : c.ctl = .loop now lastId)
      (hround : c.sched.updateRound now lastId = some (s, .popped a x)) (hsink : x.sink = some k) :
      Taken c .round { sched := s, ctl := .callback now lastId a
                       log := c.log ++ [.popped x.id now, .timeout x.id k] }
  | dropped {now lastId : ℤ} {s t : TimerSched} {a : Addr} {x : TimerEntry}
      (hctl : c.ctl = .loop now lastId)
      (hround : c.sched.updateRound now lastId = some (s, .popped a x)) (hsink : x.sink = none)
      (hdelete : s.delete a = some t) :
      Taken c .round { c with sched := t, log := c.log ++ [.popped x.id now] }
  | returned {now lastId : ℤ} {a : Addr} {s : TimerSched} (hctl : c.ctl = .callback now lastId a)
      (hdelete : c.sched.delete a = some s) :
      Taken c .timeoutReturn { c with sched := s, ctl := .loop now lastId }

/-- **Inversion of a step.** -/
theorem taken_of_step {c d : Config} {e : Event} (h : step c e = some d) : Taken c e d := by
  cases e with
  | addTimer a tick millsec event =>
    simp only [step, Option.ite_none_right_eq_some, Option.bind_eq_bind, Option.bind_eq_some_iff,
      Option.pure_def, Option.some.injEq] at h
    obtain ⟨hcall, ⟨s, id⟩, hadd, rfl⟩ := h
    exact .added hcall hadd
  | cancelTimer id =>
    simp only [step, Option.ite_none_right_eq_some, Option.bind_eq_bind, Option.bind_eq_some_iff,
      Option.pure_def, Option.some.injEq] at h
    obtain ⟨hcall, s, hcancel, rfl⟩ := h
    exact .cancelled hcall hcancel
  | updateTimer tick =>
    cases hctl : c.ctl with
    | idle =>
      simp only [step, hctl, Option.some.injEq] at h
      exact h ▸ .entered hctl
    | _ => simp [step, hctl] at h
  | round =>
    cases hctl : c.ctl with
    | loop now lastId =>
      simp only [step, hctl, Option.bind_eq_bind, Option.bind_eq_some_iff, Option.pure_def] at h
      obtain ⟨⟨s, r⟩, hround, h⟩ := h
      cases r with
      | done => exact Option.some.inj h ▸ .left hctl hround
      | skip =>
        simp only [← hctl, Option.some.injEq] at h
        exact h ▸ .skipped hctl hround
      | popped a x =>
        cases hsink : x.sink with
        | some k =>
          simp only [hsink, Option.some.injEq] at h
          exact h ▸ .fired hctl hround hsink
        | none =>
          simp only [hsink, Option.bind_eq_some_iff, Option.some.injEq, ← hctl] at h
          obtain ⟨t, hdelete, rfl⟩ := h
          exact .dropped hctl hround hsink hdelete
    | _ => simp [step, hctl] at h
  | timeoutReturn =>
    cases hctl : c.ctl with
    | callback now lastId a =>
      simp only [step, hctl, Option.bind_eq_bind, Option.bind_eq_some_iff, Option.pure_def,
        Option.some.injEq] at h
      obtain ⟨s, hdelete, rfl⟩ := h
      exact .returned hctl hdelete
    | _ => simp [step, hctl] at h

/-- The events of a run that create a timer. -/
def Event.creates : Event → Bool
  | .addTimer _ _ _ _ => true
  | _ => false

/-- The number of timers created in a run. -/
def created (es : List Event) : ℕ := es.countP Event.creates

/-- The id passed to `CancelTimer` by an event, if it is such a call. -/
def Event.cancelled? : Event → Option ℤ
  | .cancelTimer id => some id
  | _ => none

/-- No id is passed to `CancelTimer` twice. -/
def CancelledOnce (es : List Event) : Prop := (es.filterMap Event.cancelled?).Nodup

/-- Fewer timers are created than the ids last for: the first id is 100. -/
def FewTimers (es : List Event) : Prop := created es < 2147483648 - 100

instance (es : List Event) : Decidable (CancelledOnce es) :=
  inferInstanceAs (Decidable (List.Nodup _))

instance (es : List Event) : Decidable (FewTimers es) := inferInstanceAs (Decidable (_ < _))

/-! ### Reading the log -/

/-- The number of timers the log says were created. -/
def createdIn (log : List Obs) : ℕ := log.countP fun
  | .added _ _ _ => true
  | _ => false

/-- The sinks and expiry times of the timers that were created under this id. -/
def addsOf (id : ℤ) (log : List Obs) : List (Option Sink × ℤ) := log.filterMap fun
  | .added i sink expire => if i = id then some (sink, expire) else none
  | _ => none

/-- The clock readings of the passes that took the timer off the heap. -/
def popsOf (id : ℤ) (log : List Obs) : List ℤ := log.filterMap fun
  | .popped i now => if i = id then some now else none
  | _ => none

/-- The sinks whose `OnTimeout` was called for the timer. -/
def timeoutsOf (id : ℤ) (log : List Obs) : List Sink := log.filterMap fun
  | .timeout i k => if i = id then some k else none
  | _ => none

/-- The number of `CancelTimer` calls that found the timer pending. -/
def cancelsOf (id : ℤ) (log : List Obs) : ℕ := log.count (.cancel id true)

section

variable (id i now expire : ℤ) (sink : Option Sink) (k : Sink) (p : Bool) (log : List Obs)

@[simp] theorem createdIn_nil : createdIn [] = 0 := rfl
@[simp] theorem addsOf_nil : addsOf id [] = [] := rfl
@[simp] theorem popsOf_nil : popsOf id [] = [] := rfl
@[simp] theorem timeoutsOf_nil : timeoutsOf id [] = [] := rfl
@[simp] theorem cancelsOf_nil : cancelsOf id [] = 0 := rfl

@[simp] theorem createdIn_append (l : List Obs) :
    createdIn (log ++ l) = createdIn log + createdIn l := by
  simp [createdIn]

@[simp] theorem addsOf_append (l : List Obs) :
    addsOf id (log ++ l) = addsOf id log ++ addsOf id l := by
  simp [addsOf]

@[simp] theorem popsOf_append (l : List Obs) :
    popsOf id (log ++ l) = popsOf id log ++ popsOf id l := by
  simp [popsOf]

@[simp] theorem timeoutsOf_append (l : List Obs) :
    timeoutsOf id (log ++ l) = timeoutsOf id log ++ timeoutsOf id l := by
  simp [timeoutsOf]

@[simp] theorem cancelsOf_append (l : List Obs) :
    cancelsOf id (log ++ l) = cancelsOf id log + cancelsOf id l := by
  simp [cancelsOf]

@[simp] theorem createdIn_added :
    createdIn (.added i sink expire :: log) = createdIn log + 1 := by
  simp [createdIn]

@[simp] theorem createdIn_cancel : createdIn (.cancel i p :: log) = createdIn log := by
  simp [createdIn]

@[simp] theorem createdIn_popped : createdIn (.popped i now :: log) = createdIn log := by
  simp [createdIn]

@[simp] theorem createdIn_timeout : createdIn (.timeout i k :: log) = createdIn log := by
  simp [createdIn]

@[simp] theorem addsOf_cancel : addsOf id (.cancel i p :: log) = addsOf id log := rfl
@[simp] theorem addsOf_popped : addsOf id (.popped i now :: log) = addsOf id log := rfl
@[simp] theorem addsOf_timeout : addsOf id (.timeout i k :: log) = addsOf id log := rfl

@[simp] theorem addsOf_added :
    addsOf id (.added i sink expire :: log) =
      if i = id then (sink, expire) :: addsOf id log else addsOf id log := by
  unfold addsOf
  split <;> simp_all

@[simp] theorem popsOf_added : popsOf id (.added i sink expire :: log) = popsOf id log := rfl
@[simp] theorem popsOf_cancel : popsOf id (.cancel i p :: log) = popsOf id log := rfl
@[simp] theorem popsOf_timeout : popsOf id (.timeout i k :: log) = popsOf id log := rfl

@[simp] theorem popsOf_popped :
    popsOf id (.popped i now :: log) = if i = id then now :: popsOf id log else popsOf id log := by
  unfold popsOf
  split <;> simp_all

@[simp] theorem timeoutsOf_added :
    timeoutsOf id (.added i sink expire :: log) = timeoutsOf id log := rfl
@[simp] theorem timeoutsOf_cancel : timeoutsOf id (.cancel i p :: log) = timeoutsOf id log := rfl
@[simp] theorem timeoutsOf_popped : timeoutsOf id (.popped i now :: log) = timeoutsOf id log := rfl

@[simp] theorem timeoutsOf_timeout :
    timeoutsOf id (.timeout i k :: log) =
      if i = id then k :: timeoutsOf id log else timeoutsOf id log := by
  unfold timeoutsOf
  split <;> simp_all

@[simp] theorem cancelsOf_added :
    cancelsOf id (.added i sink expire :: log) = cancelsOf id log := by
  simp [cancelsOf]

@[simp] theorem cancelsOf_popped : cancelsOf id (.popped i now :: log) = cancelsOf id log := by
  simp [cancelsOf]

@[simp] theorem cancelsOf_timeout : cancelsOf id (.timeout i k :: log) = cancelsOf id log := by
  simp [cancelsOf]

@[simp] theorem cancelsOf_cancel :
    cancelsOf id (.cancel i p :: log) =
      if i = id ∧ p = true then cancelsOf id log + 1 else cancelsOf id log := by
  unfold cancelsOf
  split <;> rename_i h
  · obtain ⟨rfl, rfl⟩ := h
    simp
  · rw [List.count_cons_of_ne]
    simpa using h

end

end TimerSched

end WinsockTut
