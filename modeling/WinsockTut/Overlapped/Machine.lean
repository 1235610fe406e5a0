import WinsockTut.Overlapped.Service

/-!
# The service based on event objects as a machine

The owner allocates and frees contexts and starts operations on them, and the system completes the
operations in any order, which sets the event objects of their contexts.  An event object stays set
until another operation is started on its context.  `Run` waits for the event objects of all
contexts, runs the timers, and dispatches the context of one object that was set.  A callback may
do what its owner may do.  `Effect` says what each step does.
-/

namespace WinsockTut

namespace OverlappedIOService

open Runs

/-- Where control stands. -/
inductive Control
  /-- With the caller. -/
  | idle
  /-- In `WSAWaitForMultipleEvents`. -/
  | waiting
  /-- In front of `UpdateTimer`, with the local variable `nready`. -/
  | update (nready : ℤ)
  /-- In `UpdateTimer`. -/
  | updating (nready : ℤ)
  /-- In `WSAGetOverlappedResult`, for a context. -/
  | getting (ctx : CtxId)
  /-- In the callback of a context. -/
  | callback (ctx : CtxId)
  /-- Nowhere: a deleted context was used. -/
  | undefined
  deriving DecidableEq, Repr

/-- What happened in a run. -/
inductive Obs
  /-- A call that changes the state of a socket. -/
  | called (call : SocketCall)
  /-- An operation was started on a context. -/
  | issued (ctx : CtxId) (kind : OpKind)
  /-- An operation on a context completed. -/
  | completed (ctx : CtxId) (kind : OpKind) (status : ℕ)
  /-- A call that failed has overwritten the status `STATUS_PENDING` of a context. -/
  | wiped (ctx : CtxId)
  /-- `Run` called the callback of a context, with these contents at the moment. -/
  | invoked (ctx : CtxId) (x : OverlapContext)
  /-- `Run` returned. -/
  | returned (value : ℤ)
  deriving DecidableEq, Repr

/-- The service, its timers, the handles that are open, those whose event objects are set, the
operations in flight, the position of control, and the log. -/
structure Config where
  service : OverlappedIOService
  timers : TimerSched.Config
  opened : List Handle
  signaled : List Handle
  inflight : List Operation
  ctl : Control
  log : List Obs

/-- One step of a run. -/
inductive Event
  /-- `AllocOverlapCtx`; `WSACreateEvent` returns `hEvent`. -/
  | alloc (fd : Socket) (flags : BitVec 32) (hEvent : Option Handle)
  /-- `FreeOverlapCtx`. -/
  | free (ctx : CtxId)
  /-- The owner writes the members `flags`, `udata` and `cb` of a context. -/
  | assign (ctx : CtxId) (flags : BitVec 32) (udata : ℤ) (cb : Option Callback)
  /-- A call that starts an operation. -/
  | async (ctx : CtxId) (call : AsyncCall)
  /-- An operation in flight completes. -/
  | complete (k : ℕ) (status bytes : ℕ)
  /-- A step of the timers. -/
  | timer (e : TimerSched.Event)
  /-- `Run` is called; the keys of `fds_` come in this order. -/
  | run (order : List Handle)
  /-- The wait fails, because of a timeout or of an error. -/
  | notSignaled (timeout : Bool)
  /-- The wait returns the index of an event object that is set. -/
  | signaled (index : ℕ)
  /-- `UpdateTimer` has returned. -/
  | updated
  /-- `WSAGetOverlappedResult` returns, since no operation is pending. -/
  | gotResult
  /-- The callback of a context returns. -/
  | callbackReturn
  deriving DecidableEq, Repr

/-- Who has control. -/
def Control.stage : Control → Stage
  | .idle => .user
  | .callback _ => .user
  | .update _ => .entering
  | .updating _ => .updating
  | .waiting => .inside
  | .getting _ => .inside
  | .undefined => .inside

/-- Control after a step of the timers. -/
def Control.afterTimer (ctl : Control) (e : TimerSched.Event) : Control :=
  match ctl with
  | .update nready => if entersUpdate e then .updating nready else ctl
  | _ => ctl

/-- User code has control. -/
def Config.canCall (c : Config) : Bool := c.ctl.stage.canCall c.timers.ctl

/-- `WSACreateEvent` returns a valid handle that is not open. -/
def Config.FreshHandle (c : Config) (hEvent : Option Handle) : Prop :=
  ∀ h ∈ hEvent, h ≠ wsaInvalidEvent ∧ h ∉ c.opened

instance (c : Config) (hEvent : Option Handle) : Decidable (c.FreshHandle hEvent) :=
  match hEvent with
  | none => isTrue (by simp [Config.FreshHandle])
  | some h => decidable_of_iff (h ≠ wsaInvalidEvent ∧ h ∉ c.opened) (by simp [Config.FreshHandle])

/-- `Run` returns. -/
def Config.leave (c : Config) (value : ℤ) : Config :=
  { c with ctl := .idle, log := c.log ++ [.returned value] }

/-- `AllocOverlapCtx`.  A new event object is not set. -/
def Config.alloc (c : Config) (fd : Socket) (flags : BitVec 32) (hEvent : Option Handle) : Config :=
  let (s, ctx) := c.service.allocOverlapCtx fd flags hEvent
  { c with service := s, opened := if ctx.isSome then hEvent.toList ++ c.opened else c.opened }

/-- Change a context. -/
def Config.modify (c : Config) (ctx : CtxId) (f : OverlapContext → OverlapContext) : Config :=
  { c with service := { c.service with ctxs := c.service.ctxs.update ctx f } }

/-- A call has had the effect `r` on the context `ctx`, whose contents were `x`.  Starting an
operation resets the event object, and completing it sets the object again. -/
def Config.issue (c : Config) (ctx : CtxId) (kind : OpKind) (x : OverlapContext) (r : Issue) :
    Config :=
  let c : Config := { c.modify ctx fun _ => r.ctx with log := c.log ++ r.calls.map .called }
  match r.outcome with
  | .done _ =>
    { c with signaled := x.hEvent :: c.signaled
             log := c.log ++ [.issued ctx kind, .completed ctx kind 0] }
  | .pending =>
    { c with signaled := c.signaled.filter fun h => h ≠ x.hEvent
             inflight := c.inflight ++ [⟨ctx, kind, x.fd⟩]
             log := c.log ++ [.issued ctx kind] }
  | .failed _ =>
    { c with log := c.log ++
        if x.internal = statusPending ∧ r.ctx.internal ≠ statusPending then [.wiped ctx] else [] }

/-- The operation at `k` completes: its status is written and the event object of its context is
set, if the context is still there. -/
def Config.complete (c : Config) (k : ℕ) (op : Operation) (status bytes : ℕ) : Config :=
  { c.modify op.ctx fun x => { x with internal := status, internalHigh := bytes } with
    signaled := ((c.service.ctxs.get op.ctx).map fun x => x.hEvent).toList ++ c.signaled
    inflight := c.inflight.eraseIdx k
    log := c.log ++ [.completed op.ctx op.kind status] }

/-- `Run` behind `UpdateTimer`. -/
def Config.afterUpdate (c : Config) (nready : ℤ) : Option Config :=
  if nready ≥ 0 ∧ c.service.events ≠ [] then
    if nready ≥ wsaMaximumWaitEvents then
      some (c.leave (-1))
    else do
      let hEvent ← c.service.events[nready.toNat]?
      match c.service.find hEvent with
      | none => return c.leave (-1)
      | some ctx => return { c with ctl := .getting ctx }
  else
    some (c.leave 0)

/-- `Run` behind `WSAGetOverlappedResult`, for a context with the contents `x`. -/
def Config.dispatch (c : Config) (ctx : CtxId) (x : OverlapContext) : Config :=
  if x.cb.isSome then
    { c with ctl := .callback ctx, log := c.log ++ [.invoked ctx x] }
  else
    c.leave 0

/-- One step of the machine; `none` if the event cannot happen in this state. -/
def step (c : Config) : Event → Option Config
  | .alloc fd flags hEvent =>
    if c.canCall ∧ c.FreshHandle hEvent then some (c.alloc fd flags hEvent) else none
  | .free ctx =>
    if c.canCall then do
      let (s, hEvent) ← c.service.freeOverlapCtx ctx
      return { c with service := s, opened := c.opened.erase hEvent
                      signaled := c.signaled.filter fun h => h ≠ hEvent }
    else
      none
  | .assign ctx flags udata cb =>
    if c.canCall then do
      let _ ← c.service.ctxs.get ctx
      return c.modify ctx fun x => { x with flags := flags, udata := udata, cb := cb }
    else
      none
  | .async ctx call =>
    if c.canCall then do
      let x ← c.service.ctxs.get ctx
      return c.issue ctx call.kind x (OverlappedIOService.issue x call)
    else
      none
  | .complete k status bytes => do
    let op ← c.inflight[k]?
    if status = statusPending then none else some (c.complete k op status bytes)
  | .timer e => do
    let timers ← timerStep c.ctl.stage c.timers e
    return { c with timers := timers, ctl := c.ctl.afterTimer e }
  | .run order =>
    if c.ctl = .idle ∧ order.Perm (c.service.fds.map Prod.fst) then
      some { c with service := { c.service with events := order }
                    ctl := if order ≠ [] then .waiting else .update 0 }
    else
      none
  | .notSignaled _ => if c.ctl = .waiting then some { c with ctl := .update (-1) } else none
  | .signaled index =>
    if c.ctl = .waiting then do
      let hEvent ← c.service.events[index]?
      if hEvent ∈ c.signaled then some { c with ctl := .update index } else none
    else
      none
  | .updated =>
    match c.ctl, c.timers.ctl with
    | .updating nready, .idle => c.afterUpdate nready
    | _, _ => none
  | .gotResult =>
    match c.ctl with
    | .getting ctx =>
      match c.service.ctxs.get ctx with
      | none => some { c with ctl := .undefined }
      | some x => if x.internal = statusPending then none else some (c.dispatch ctx x)
    | _ => none
  | .callbackReturn =>
    match c.ctl with
    | .callback _ => some (c.leave 0)
    | _ => none

/-- The state after the constructor. -/
def Config.init : Config :=
  ⟨OverlappedIOService.init, TimerSched.Config.init, [], [], [], .idle, []⟩

/-- The configuration reached by a run from the constructor on. -/
abbrev runs (es : List Event) : Option Config := run step Config.init es

/-- What a step does. -/
inductive Effect (c : Config) : Event → Config → Prop
  | alloced {fd : Socket} {flags : BitVec 32} {hEvent : Option Handle} (hcall : c.canCall = true)
      (hfresh : c.FreshHandle hEvent) :
      Effect c (.alloc fd flags hEvent) (c.alloc fd flags hEvent)
  | freed {ctx : CtxId} {s : OverlappedIOService} {hEvent : Handle} (hcall : c.canCall = true)
      (hfree : c.service.freeOverlapCtx ctx = some (s, hEvent)) :
      Effect c (.free ctx) { c with service := s, opened := c.opened.erase hEvent
                                    signaled := c.signaled.filter fun h => h ≠ hEvent }
  | assigned {ctx : CtxId} {flags : BitVec 32} {udata : ℤ} {cb : Option Callback}
      {x : OverlapContext} (hcall : c.canCall = true) (hx : c.service.ctxs.get ctx = some x) :
      Effect c (.assign ctx flags udata cb)
        (c.modify ctx fun x => { x with flags := flags, udata := udata, cb := cb })
  | issued {ctx : CtxId} {call : AsyncCall} {x : OverlapContext} (hcall : c.canCall = true)
      (hx : c.service.ctxs.get ctx = some x) :
      Effect c (.async ctx call) (c.issue ctx call.kind x (OverlappedIOService.issue x call))
  | completed {k status bytes : ℕ} {op : Operation} (hop : c.inflight[k]? = some op)
      (hstatus : status ≠ statusPending) :
      Effect c (.complete k status bytes) (c.complete k op status bytes)
  | ticked {e : TimerSched.Event} {timers : TimerSched.Config}
      (htimers : timerStep c.ctl.stage c.timers e = some timers) :
      Effect c (.timer e) { c with timers := timers, ctl := c.ctl.afterTimer e }
  | ran {order : List Handle} (hctl : c.ctl = .idle)
      (horder : order.Perm (c.service.fds.map Prod.fst)) :
      Effect c (.run order) { c with service := { c.service with events := order }
                                     ctl := if order ≠ [] then .waiting else .update 0 }
  | notSignaled {timeout : Bool} (hctl : c.ctl = .waiting) :
      Effect c (.notSignaled timeout) { c with ctl := .update (-1) }
  | signaled {index : ℕ} {hEvent : Handle} (hctl : c.ctl = .waiting)
      (hindex : c.service.events[index]? = some hEvent) (hset : hEvent ∈ c.signaled) :
      Effect c (.signaled index) { c with ctl := .update index }
  | updated {nready : ℤ} {c' : Config} (hctl : c.ctl = .updating nready)
      (htimers : c.timers.ctl = .idle) (hnext : c.afterUpdate nready = some c') :
      Effect c .updated c'
  | lost {ctx : CtxId} (hctl : c.ctl = .getting ctx) (hx : c.service.ctxs.get ctx = none) :
      Effect c .gotResult { c with ctl := .undefined }
  | gotResult {ctx : CtxId} {x : OverlapContext} (hctl : c.ctl = .getting ctx)
      (hx : c.service.ctxs.get ctx = some x) (hdone : x.internal ≠ statusPending) :
      Effect c .gotResult (c.dispatch ctx x)
  | resumed {ctx : CtxId} (hctl : c.ctl = .callback ctx) : Effect c .callbackReturn (c.leave 0)

variable {c c' : Config} {e : Event}

/-- **The step lemma.** -/
theorem effect_of_step (h : step c e = some c') : Effect c e c' := by
  cases e with
  | alloc fd flags hEvent =>
    simp only [step, Option.ite_none_right_eq_some, Option.some.injEq] at h
    obtain ⟨⟨hcall, hfresh⟩, rfl⟩ := h
    exact .alloced hcall hfresh
  | free ctx =>
    simp only [step, Option.bind_eq_bind, Option.pure_def, Option.ite_none_right_eq_some,
      Option.bind_eq_some_iff, Option.some.injEq] at h
    obtain ⟨hcall, ⟨s, hEvent⟩, hfree, rfl⟩ := h
    exact .freed hcall hfree
  | assign ctx flags udata cb =>
    simp only [step, Option.bind_eq_bind, Option.pure_def, Option.ite_none_right_eq_some,
      Option.bind_eq_some_iff, Option.some.injEq] at h
    obtain ⟨hcall, x, hx, rfl⟩ := h
    exact .assigned hcall hx
  | async ctx call =>
    simp only [step, Option.bind_eq_bind, Option.pure_def, Option.ite_none_right_eq_some,
      Option.bind_eq_some_iff, Option.some.injEq] at h
    obtain ⟨hcall, x, hx, rfl⟩ := h
    exact .issued hcall hx
  | complete k status bytes =>
    simp only [step, Option.bind_eq_bind, Option.bind_eq_some_iff, Option.ite_none_left_eq_some,
      Option.some.injEq] at h
    obtain ⟨op, hop, hstatus, rfl⟩ := h
    exact .completed hop hstatus
  | timer e =>
    simp only [step, Option.bind_eq_bind, Option.bind_eq_some_iff, Option.pure_def,
      Option.some.injEq] at h
    obtain ⟨timers, htimers, rfl⟩ := h
    exact .ticked htimers
  | run order =>
    simp only [step, Option.ite_none_right_eq_some, Option.some.injEq] at h
    obtain ⟨⟨hctl, horder⟩, rfl⟩ := h
    exact .ran hctl horder
  | notSignaled timeout =>
    simp only [step, Option.ite_none_right_eq_some, Option.some.injEq] at h
    obtain ⟨hctl, rfl⟩ := h
    exact .notSignaled hctl
  | signaled index =>
    simp only [step, Option.bind_eq_bind, Option.bind_eq_some_iff, Option.ite_none_right_eq_some,
      Option.some.injEq] at h
    obtain ⟨hctl, hEvent, hindex, hset, rfl⟩ := h
    exact .signaled hctl hindex hset
  | updated =>
    cases hctl : c.ctl with
    | updating nready =>
      cases htimers : c.timers.ctl with
      | idle => exact .updated hctl htimers (by simpa [step, hctl, htimers] using h)
      | _ => simp [step, hctl, htimers] at h
    | _ => simp [step, hctl] at h
  | gotResult =>
    cases hctl : c.ctl with
    | getting ctx =>
      cases hx : c.service.ctxs.get ctx with
      | none =>
        simp only [step, hctl, hx, Option.some.injEq] at h
        exact h ▸ .lost hctl hx
      | some x =>
        simp only [step, hctl, hx, Option.ite_none_left_eq_some, Option.some.injEq] at h
        obtain ⟨hdone, rfl⟩ := h
        exact .gotResult hctl hx hdone
    | _ => simp [step, hctl] at h
  | callbackReturn =>
    cases hctl : c.ctl with
    | callback ctx =>
      simp only [step, hctl, Option.some.injEq] at h
      exact h ▸ .resumed hctl
    | _ => simp [step, hctl] at h

/-- What `Run` does behind `UpdateTimer`: it returns, or goes on with the context of the event
object that was set. -/
theorem afterUpdate_cases {nready : ℤ} (h : c.afterUpdate nready = some c') :
    (∃ value, c' = c.leave value) ∨
    ∃ hEvent ctx, c.service.events[nready.toNat]? = some hEvent ∧
      c.service.find hEvent = some ctx ∧ c' = { c with ctl := .getting ctx } := by
  unfold Config.afterUpdate at h
  split at h
  · split at h
    · exact Or.inl ⟨-1, (Option.some.inj h).symm⟩
    · obtain ⟨hEvent, hindex, h⟩ := Option.bind_eq_some_iff.mp h
      cases hfind : c.service.find hEvent with
      | none => exact Or.inl ⟨-1, by simpa [hfind] using h.symm⟩
      | some ctx => exact Or.inr ⟨hEvent, ctx, hindex, hfind, by simpa [hfind] using h.symm⟩
  · exact Or.inl ⟨0, (Option.some.inj h).symm⟩

end OverlappedIOService

end WinsockTut
