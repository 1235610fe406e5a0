import WinsockTut.CompletionPort.Service

/-!
# The service based on a completion port as a machine

The owner allocates and frees contexts and starts operations on them, the system completes the
operations in any order, and `Run` takes the packets from the port one by one.  A callback may do
what its owner may do.  Nothing forbids an owner to start a second operation on a context or to
free it too early: if `Run` then uses a deleted context, control is lost.  `Effect` says what each
step does.
-/

namespace WinsockTut

namespace CompletionPortService

open Runs

/-- A completion packet; `ok` tells if the operation has succeeded. -/
structure Packet where
  ctx : CtxId
  kind : OpKind
  ok : Bool
  deriving DecidableEq, Repr

/-- The dispatch of one packet: whether a callback was due when it was dequeued, how often `Run`
has called it, whether the context had `FLAG_LAZY_DELETE` after that point, and how often `Run` has
deleted it. -/
structure Delivery where
  packet : Packet
  owed : Bool
  invoked : ℕ
  lazy : Bool
  deleted : ℕ
  deriving DecidableEq, Repr

/-- Where control stands. -/
inductive Control
  /-- With the caller. -/
  | idle
  /-- In front of `UpdateTimer`. -/
  | update
  /-- In `UpdateTimer`. -/
  | updating
  /-- In `GetQueuedCompletionStatus`. -/
  | dequeuing
  /-- In the callback of a context. -/
  | callback (d : Delivery)
  /-- Nowhere: a deleted context was used. -/
  | undefined
  deriving DecidableEq, Repr

/-- What happened in a run. -/
inductive Obs
  /-- A call that changes the state of a socket. -/
  | called (call : SocketCall)
  /-- `Run` called the callback of a context for a packet, with these contents at the moment,
  before or after the context was freed. -/
  | invoked (packet : Packet) (ctx : OverlapContext) (freed : Bool)
  /-- A context was deleted. -/
  | deleted (ctx : CtxId)
  /-- `Run` is done with a packet, and has not used a deleted context for it. -/
  | handled (d : Delivery)
  /-- `Run` returned. -/
  | returned (value : ℤ)
  deriving DecidableEq, Repr

/-- The service, its timers, the contexts that were passed to `FreeOverlapCtx`, the operations in
flight with the information whether their sockets report to the port, the packets in the port, the
position of control, and the log. -/
structure Config where
  service : CompletionPortService
  timers : TimerSched.Config
  freed : List CtxId
  inflight : List (Operation × Bool)
  queue : List Packet
  ctl : Control
  log : List Obs

/-- One step of a run. -/
inductive Event
  /-- `AllocOverlapCtx`; `associated` tells if `CreateIoCompletionPort` succeeds. -/
  | alloc (fd : Socket) (flags : BitVec 32) (associated : Bool)
  /-- `FreeOverlapCtx`. -/
  | free (ctx : CtxId)
  /-- The owner writes the members `flags`, `udata` and `cb` of a context. -/
  | assign (ctx : CtxId) (flags : BitVec 32) (udata : ℤ) (cb : Option Callback)
  /-- A call that starts an operation. -/
  | async (ctx : CtxId) (call : AsyncCall)
  /-- The owner closes a socket. -/
  | closeSocket (fd : Socket)
  /-- An operation in flight completes. -/
  | complete (k : ℕ) (status bytes : ℕ)
  /-- A step of the timers. -/
  | timer (e : TimerSched.Event)
  /-- `Run` is called. -/
  | run
  /-- `UpdateTimer` has returned. -/
  | updated
  /-- `GetQueuedCompletionStatus` returns the next packet. -/
  | dequeued
  /-- It returns without a packet, because of a timeout or of an error. -/
  | notDequeued (timeout : Bool)
  /-- The callback of a context returns. -/
  | callbackReturn
  deriving DecidableEq, Repr

/-- Who has control. -/
def Control.stage : Control → Stage
  | .idle => .user
  | .callback _ => .user
  | .update => .entering
  | .updating => .updating
  | .dequeuing => .inside
  | .undefined => .inside

/-- Control after a step of the timers. -/
def Control.afterTimer (ctl : Control) (e : TimerSched.Event) : Control :=
  match ctl with
  | .update => if entersUpdate e then .updating else ctl
  | _ => ctl

/-- User code has control. -/
def Config.canCall (c : Config) : Bool := c.ctl.stage.canCall c.timers.ctl

/-- `Run` returns. -/
def Config.leave (c : Config) (value : ℤ) : Config :=
  { c with ctl := .idle, log := c.log ++ [.returned value] }

/-- The packet of a completed operation is queued, if the socket reports to the port. -/
def Config.post (c : Config) (op : Operation × Bool) (ok : Bool) : Config :=
  if op.2 then { c with queue := c.queue ++ [⟨op.1.ctx, op.1.kind, ok⟩] } else c

/-- A call has had the effect `r` on the context `ctx`.  An operation that succeeds at once queues
its packet like any other. -/
def Config.issue (c : Config) (ctx : CtxId) (kind : OpKind) (fd : Socket) (r : Issue) : Config :=
  let op := (⟨ctx, kind, fd⟩, decide (fd ∈ c.service.port))
  let s := { c.service with ctxs := c.service.ctxs.update ctx fun _ => r.ctx }
  let c := { c with service := s.closeSockets r.calls, log := c.log ++ r.calls.map .called }
  match r.outcome with
  | .done _ => c.post op true
  | .pending => { c with inflight := c.inflight ++ [op] }
  | .failed _ => c

/-- The operation at `k` completes: its status is written and its packet queued. -/
def Config.complete (c : Config) (k : ℕ) (op : Operation × Bool) (status bytes : ℕ) : Config :=
  let ctxs := c.service.ctxs.update op.1.ctx fun x =>
    { x with internal := status, internalHigh := bytes }
  Config.post { c with service := { c.service with ctxs := ctxs }
                       inflight := c.inflight.eraseIdx k } op (status = 0)

/-- The context is there, has not been freed, and has a callback. -/
def Config.owes (c : Config) (ctx : CtxId) : Bool :=
  (c.service.ctxs.get ctx).any (fun x => x.cb.isSome) && decide (ctx ∉ c.freed)

/-- The context is there and is to be deleted lazily. -/
def Config.lazy (c : Config) (ctx : CtxId) : Bool :=
  (c.service.ctxs.get ctx).any OverlapContext.lazy

/-- `Run` behind the callback. -/
def Config.finish (c : Config) (d : Delivery) : Config :=
  match c.service.ctxs.get d.packet.ctx with
  | none => { c with ctl := .undefined }
  | some x =>
    let d := { d with lazy := x.lazy }
    if x.lazy then
      Config.leave { c with service := c.service.delete d.packet.ctx
                            log := c.log ++ [.deleted d.packet.ctx,
                              .handled { d with deleted := d.deleted + 1 }] } 0
    else
      Config.leave { c with log := c.log ++ [.handled d] } 0

/-- `Run` with the packet it has dequeued. -/
def Config.handle (c : Config) (p : Packet) : Config :=
  let d : Delivery :=
    { packet := p, owed := c.owes p.ctx, invoked := 0, lazy := false, deleted := 0 }
  if p.ok then
    match c.service.ctxs.get p.ctx with
    | none => { c with ctl := .undefined }
    | some x =>
      if x.cb.isSome then
        { c with ctl := .callback { d with invoked := d.invoked + 1 }
                 log := c.log ++ [.invoked p x (decide (p.ctx ∈ c.freed))] }
      else
        c.finish d
  else
    Config.leave { c with log := c.log ++ [.handled { d with lazy := c.lazy p.ctx }] } (-1)

/-- The contexts that `FreeOverlapCtx` deletes. -/
def Config.deletedBy (c : Config) (ctx : CtxId) : List Obs :=
  if c.lazy ctx then [] else [.deleted ctx]

/-- One step of the machine; `none` if the event cannot happen in this state. -/
def step (c : Config) : Event → Option Config
  | .alloc fd flags associated =>
    if c.canCall then do
      let (s, ctx) ← c.service.allocOverlapCtx fd flags associated
      return { c with service := s
                      log := c.log ++ if ctx.isSome then [] else [.deleted c.service.ctxs.length] }
    else
      none
  | .free ctx =>
    if c.canCall then do
      let (s, calls) ← c.service.freeOverlapCtx ctx
      return { c with service := s, freed := ctx :: c.freed
                      log := c.log ++ calls.map .called ++ c.deletedBy ctx }
    else
      none
  | .assign ctx flags udata cb =>
    if c.canCall then do
      let _ ← c.service.ctxs.get ctx
      let ctxs := c.service.ctxs.update ctx fun x =>
        { x with flags := flags, udata := udata, cb := cb }
      return { c with service := { c.service with ctxs := ctxs } }
    else
      none
  | .async ctx call =>
    if c.canCall then do
      let x ← c.service.ctxs.get ctx
      return c.issue ctx call.kind x.fd (CompletionPortService.issue x call)
    else
      none
  | .closeSocket fd =>
    if c.canCall then
      some { c with service := c.service.closeSockets [.closesocket fd]
                    log := c.log ++ [.called (.closesocket fd)] }
    else
      none
  | .complete k status bytes => do
    let op ← c.inflight[k]?
    if status = statusPending then none else some (c.complete k op status bytes)
  | .timer e => do
    let timers ← timerStep c.ctl.stage c.timers e
    return { c with timers := timers, ctl := c.ctl.afterTimer e }
  | .run => if c.ctl = .idle then some { c with ctl := .update } else none
  | .updated =>
    if c.ctl = .updating ∧ c.timers.ctl = .idle then some { c with ctl := .dequeuing } else none
  | .dequeued =>
    match c.ctl, c.queue with
    | .dequeuing, p :: queue => some (Config.handle { c with queue := queue } p)
    | _, _ => none
  | .notDequeued timeout =>
    if c.ctl = .dequeuing then some (c.leave (if timeout then 0 else -1)) else none
  | .callbackReturn =>
    match c.ctl with
    | .callback d => some (c.finish d)
    | _ => none

/-- The state after the constructor. -/
def Config.init : Config :=
  ⟨CompletionPortService.init, TimerSched.Config.init, [], [], [], .idle, []⟩

/-- The configuration reached by a run from the constructor on. -/
abbrev runs (es : List Event) : Option Config := run step Config.init es

/-- What a step does. -/
inductive Effect (c : Config) : Event → Config → Prop
  | alloced {fd : Socket} {flags : BitVec 32} {associated : Bool} {s : CompletionPortService}
      {ctx : Option CtxId} (hcall : c.canCall = true)
      (halloc : c.service.allocOverlapCtx fd flags associated = some (s, ctx)) :
      Effect c (.alloc fd flags associated)
        { c with service := s
                 log := c.log ++ if ctx.isSome then [] else [.deleted c.service.ctxs.length] }
  | freed {ctx : CtxId} {s : CompletionPortService} {calls : List SocketCall}
      (hcall : c.canCall = true) (hfree : c.service.freeOverlapCtx ctx = some (s, calls)) :
      Effect c (.free ctx)
        { c with service := s, freed := ctx :: c.freed
                 log := c.log ++ calls.map .called ++ c.deletedBy ctx }
  | assigned {ctx : CtxId} {flags : BitVec 32} {udata : ℤ} {cb : Option Callback}
      {x : OverlapContext} (hcall : c.canCall = true) (hx : c.service.ctxs.get ctx = some x) :
      Effect c (.assign ctx flags udata cb)
        { c with service := { c.service with ctxs := c.service.ctxs.update ctx fun x =>
            { x with flags := flags, udata := udata, cb := cb } } }
  | issued {ctx : CtxId} {call : AsyncCall} {x : OverlapContext} (hcall : c.canCall = true)
      (hx : c.service.ctxs.get ctx = some x) :
      Effect c (.async ctx call) (c.issue ctx call.kind x.fd (CompletionPortService.issue x call))
  | closed {fd : Socket} (hcall : c.canCall = true) :
      Effect c (.closeSocket fd)
        { c with service := c.service.closeSockets [.closesocket fd]
                 log := c.log ++ [.called (.closesocket fd)] }
  | completed {k status bytes : ℕ} {op : Operation × Bool} (hop : c.inflight[k]? = some op)
      (hstatus : status ≠ statusPending) :
      Effect c (.complete k status bytes) (c.complete k op status bytes)
  | ticked {e : TimerSched.Event} {timers : TimerSched.Config}
      (htimers : timerStep c.ctl.stage c.timers e = some timers) :
      Effect c (.timer e) { c with timers := timers, ctl := c.ctl.afterTimer e }
  | ran (hctl : c.ctl = .idle) : Effect c .run { c with ctl := .update }
  | updated (hctl : c.ctl = .updating) (htimers : c.timers.ctl = .idle) :
      Effect c .updated { c with ctl := .dequeuing }
  | dequeued {p : Packet} {queue : List Packet} (hctl : c.ctl = .dequeuing)
      (hqueue : c.queue = p :: queue) :
      Effect c .dequeued (Config.handle { c with queue := queue } p)
  | notDequeued {timeout : Bool} (hctl : c.ctl = .dequeuing) :
      Effect c (.notDequeued timeout) (c.leave (if timeout then 0 else -1))
  | resumed {d : Delivery} (hctl : c.ctl = .callback d) : Effect c .callbackReturn (c.finish d)

variable {c c' : Config} {e : Event}

/-- **The step lemma.** -/
theorem effect_of_step (h : step c e = some c') : Effect c e c' := by
  cases e with
  | alloc fd flags associated =>
    simp only [step, Option.bind_eq_bind, Option.pure_def, Option.ite_none_right_eq_some,
      Option.bind_eq_some_iff, Option.some.injEq] at h
    obtain ⟨hcall, ⟨s, ctx⟩, halloc, rfl⟩ := h
    exact .alloced hcall halloc
  | free ctx =>
    simp only [step, Option.bind_eq_bind, Option.pure_def, Option.ite_none_right_eq_some,
      Option.bind_eq_some_iff, Option.some.injEq] at h
    obtain ⟨hcall, ⟨s, calls⟩, hfree, rfl⟩ := h
    exact .freed hcall hfree
  | assign ctx flags udata cb =>
    simp only [step, Option.bind_eq_bind, Option.pure_def, Option.ite_none_right_eq_some,
      Option.bind_eq_some_iff, Option.some.injEq] at h
    obtain ⟨hcall, x, hx, rfl⟩ := h
    exact .assigned hcall hx
  | async ctx call =>
    simp only [step, Option.bind_eq_bind, Option.pure_def, Option.ite_none_right_eq_some,
      Option.bind_eq_some_iff, Option.some.injEq] at h
    obtain ⟨hcall, x, hx, rfl⟩ := h
    exact .issued hcall hx
  | closeSocket fd =>
    simp only [step, Option.ite_none_right_eq_some, Option.some.injEq] at h
    obtain ⟨hcall, rfl⟩ := h
    exact .closed hcall
  | complete k status bytes =>
    simp only [step, Option.bind_eq_bind, Option.bind_eq_some_iff, Option.ite_none_left_eq_some,
      Option.some.injEq] at h
    obtain ⟨op, hop, hstatus, rfl⟩ := h
    exact .completed hop hstatus
  | timer e =>
    simp only [step, Option.bind_eq_bind, Option.bind_eq_some_iff, Option.pure_def,
      Option.some.injEq] at h
    obtain ⟨timers, htimers, rfl⟩ := h
    exact .ticked htimers
  | run =>
    simp only [step, Option.ite_none_right_eq_some, Option.some.injEq] at h
    obtain ⟨hctl, rfl⟩ := h
    exact .ran hctl
  | updated =>
    simp only [step, Option.ite_none_right_eq_some, Option.some.injEq] at h
    obtain ⟨⟨hctl, htimers⟩, rfl⟩ := h
    exact .updated hctl htimers
  | dequeued =>
    simp only [step] at h
    split at h
    · next p queue hctl hqueue =>
      obtain rfl := Option.some.inj h
      exact .dequeued hctl hqueue
    · cases h
  | notDequeued timeout =>
    simp only [step, Option.ite_none_right_eq_some, Option.some.injEq] at h
    obtain ⟨hctl, rfl⟩ := h
    exact .notDequeued hctl
  | callbackReturn =>
    cases hctl : c.ctl with
    | callback d =>
      simp only [step, hctl, Option.some.injEq] at h
      exact h ▸ .resumed hctl
    | _ => simp [step, hctl] at h

/-- The timers move control only into `UpdateTimer`. -/
theorem Control.afterTimer_eq (ctl : Control) (e : TimerSched.Event) :
    ctl.afterTimer e = ctl ∨ ctl = .update ∧ ctl.afterTimer e = .updating := by
  cases ctl with
  | update =>
    cases he : entersUpdate e with
    | true => exact Or.inr ⟨rfl, by simp [afterTimer, he]⟩
    | false => exact Or.inl (by simp [afterTimer, he])
  | _ => exact Or.inl rfl

/-! ### What the steps leave alone -/

@[simp] theorem Config.post_ctl (c : Config) (op : Operation × Bool) (ok : Bool) :
    (c.post op ok).ctl = c.ctl := by
  unfold post
  split <;> rfl

@[simp] theorem Config.post_log (c : Config) (op : Operation × Bool) (ok : Bool) :
    (c.post op ok).log = c.log := by
  unfold post
  split <;> rfl

@[simp] theorem Config.complete_ctl (c : Config) (k : ℕ) (op : Operation × Bool)
    (status bytes : ℕ) : (c.complete k op status bytes).ctl = c.ctl := by
  simp [complete]

@[simp] theorem Config.complete_log (c : Config) (k : ℕ) (op : Operation × Bool)
    (status bytes : ℕ) : (c.complete k op status bytes).log = c.log := by
  simp [complete]

@[simp] theorem Config.issue_ctl (c : Config) (ctx : CtxId) (kind : OpKind) (fd : Socket)
    (r : Issue) : (c.issue ctx kind fd r).ctl = c.ctl := by
  unfold issue
  cases r.outcome <;> simp

@[simp] theorem Config.issue_log (c : Config) (ctx : CtxId) (kind : OpKind) (fd : Socket)
    (r : Issue) : (c.issue ctx kind fd r).log = c.log ++ r.calls.map .called := by
  unfold issue
  cases r.outcome <;> simp

/-! ### The dispatch of a packet -/

/-- **What `Run` does behind the callback**: it uses a deleted context, deletes the context, or
leaves it alone. -/
theorem Config.finish_cases (c : Config) (d : Delivery) :
    (c.service.ctxs.get d.packet.ctx = none ∧ c.finish d = { c with ctl := .undefined }) ∨
    ∃ x, c.service.ctxs.get d.packet.ctx = some x ∧
      ((x.lazy = true ∧ c.finish d =
        Config.leave { c with service := c.service.delete d.packet.ctx
                              log := c.log ++ [.deleted d.packet.ctx,
                                .handled { d with lazy := true, deleted := d.deleted + 1 }] } 0) ∨
      (x.lazy = false ∧ c.finish d =
        Config.leave { c with log := c.log ++ [.handled { d with lazy := false }] } 0)) := by
  cases hx : c.service.ctxs.get d.packet.ctx with
  | none => exact Or.inl ⟨rfl, by simp [finish, hx]⟩
  | some x =>
    refine Or.inr ⟨x, rfl, ?_⟩
    cases hlazy : x.lazy with
    | true => exact Or.inl ⟨rfl, by simp [finish, hx, hlazy]⟩
    | false => exact Or.inr ⟨rfl, by simp [finish, hx, hlazy]⟩

/-- The dispatch of a packet as `Run` starts it. -/
def Config.delivery (c : Config) (p : Packet) : Delivery :=
  { packet := p, owed := c.owes p.ctx, invoked := 0, lazy := false, deleted := 0 }

/-- **What `Run` does with a packet**: it returns if the operation has failed; else it uses a
deleted context, calls the callback, or goes on behind the callback if there is none. -/
theorem Config.handle_cases (c : Config) (p : Packet) :
    (p.ok = false ∧ c.handle p =
      Config.leave { c with
        log := c.log ++ [.handled { c.delivery p with lazy := c.lazy p.ctx }] } (-1)) ∨
    (p.ok = true ∧ c.service.ctxs.get p.ctx = none ∧
      c.handle p = { c with ctl := .undefined }) ∨
    ∃ x, p.ok = true ∧ c.service.ctxs.get p.ctx = some x ∧
      ((x.cb ≠ none ∧ c.handle p =
        { c with ctl := .callback { c.delivery p with invoked := 1 }
                 log := c.log ++ [.invoked p x (decide (p.ctx ∈ c.freed))] }) ∨
      (x.cb = none ∧ c.handle p = c.finish (c.delivery p))) := by
  cases hok : p.ok with
  | false => exact Or.inl ⟨rfl, by simp [handle, hok, delivery]⟩
  | true =>
    cases hx : c.service.ctxs.get p.ctx with
    | none => exact Or.inr (Or.inl ⟨rfl, rfl, by simp [handle, hok, hx]⟩)
    | some x =>
      refine Or.inr (Or.inr ⟨x, rfl, rfl, ?_⟩)
      cases hcb : x.cb with
      | none => exact Or.inr ⟨rfl, by simp [handle, hok, hx, hcb, delivery]⟩
      | some cb => exact Or.inl ⟨by simp, by simp [handle, hok, hx, hcb, delivery]⟩

end CompletionPortService

end WinsockTut
