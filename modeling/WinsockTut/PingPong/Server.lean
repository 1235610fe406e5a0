import WinsockTut.CompletionPort.View

/-!
# The server of the ping-pong example

`Server` accepts connections, one at a time, and `Session` sends back what it has read.  Both drive
the service based on a completion port: they allocate contexts, bind callbacks to them, and free
them with `FLAG_LAZY_DELETE` inside their callbacks.

The callbacks and the functions they call are lists of `Task`s that are executed one after the
other; the system may complete operations in between.  A session is named by the number of sessions
created before it.  Calling a member function of a deleted session, or deleting it again, is a
fault.  The buffers, the printed counters and the addresses of the peers are left out.
-/

namespace WinsockTut

namespace PingPong

open Runs Word Function

/-- A pointer to a `Session`. -/
abbrev SessionId := ℕ

/-- The members of `Session`. -/
structure Session where
  /-- `id_`, which is 0 once the session is closed. -/
  id : ℤ
  /-- `fd_`. -/
  fd : Socket
  /-- `recv_ctx_`. -/
  recvCtx : CtxId
  deriving DecidableEq, Repr

/-- What `ctx->cb` is bound to. -/
inductive Handler
  /-- `std::bind(&Server::OnAccept, this, ctx)`. -/
  | onAccept (ctx : CtxId)
  /-- `std::bind(&Session::OnRead, this, ctx)`. -/
  | onRead (s : SessionId) (ctx : CtxId)
  /-- `std::bind(&Session::OnWritten, this, ctx)`. -/
  | onWritten (s : SessionId) (ctx : CtxId)
  deriving DecidableEq, Repr

/-- The calls that are still to be made. -/
inductive Task
  /-- `Server::StartAccept()`. -/
  | startAccept
  /-- `Server::OnAccept(ctx)`. -/
  | onAccept (ctx : CtxId)
  /-- `Server::OnAccept` with the new connection, from `AllocOverlapCtx` on. -/
  | accepted (newfd : Socket)
  /-- `Session::StartRead()`. -/
  | startRead (s : SessionId)
  /-- `Session::OnRead(ctx)`. -/
  | onRead (s : SessionId) (ctx : CtxId)
  /-- `Session::Write(data, len)`. -/
  | write (s : SessionId)
  /-- `Session::OnWritten(ctx)`. -/
  | onWritten (s : SessionId) (ctx : CtxId)
  /-- `Session::Close()`. -/
  | close (s : SessionId)
  /-- `Server::CloseSession(sid)`. -/
  | closeSession (sid : ℤ)
  /-- The end of `delete session`, and `sessions_.erase(iter)`. -/
  | destroy (sid : ℤ) (s : SessionId)
  deriving DecidableEq, Repr

/-- The members of `Server`. -/
structure Server where
  /-- `ctx_`; `none` is the null pointer. -/
  ctx : Option CtxId
  /-- `counter_`. -/
  counter : ℤ
  /-- `sessions_`. -/
  sessions : ℤ → Option SessionId

/-- What the system answers to the calls of one task. -/
structure Answer where
  /-- `CreateIoCompletionPort` succeeds. -/
  associated : Bool
  /-- The value `socket()` returns. -/
  socket : Socket
  /-- How the overlapped call ends. -/
  outcome : Outcome
  deriving DecidableEq, Repr

/-- The service, the server, the sessions that were created (`none` once they are deleted), the
closures that were bound, the calls that are still to be made, and whether there was a fault. -/
structure Config where
  io : CompletionPortService.Config
  server : Server
  objs : List (Option Session)
  handlers : List Handler
  todo : List Task
  fault : Bool

/-- `*session`. -/
def Config.session (c : Config) (s : SessionId) : Option Session := c.objs[s]?.join

/-- What the callback of a context is bound to. -/
def Config.bound (c : Config) (ctx : CtxId) : Option Handler :=
  ((c.io.view.face ctx).bind CompletionPortService.Face.cb).bind fun cb => c.handlers[cb]?

/-- Calls of the service, one after the other. -/
def Config.perform (c : Config) (es : List CompletionPortService.Event) : Option Config := do
  let io ← run CompletionPortService.step c.io es
  return { c with io := io }

/-- `service_->AllocOverlapCtx(fd, flags)`. -/
def Config.alloc (c : Config) (fd : Socket) (flags : BitVec 32) (associated : Bool) :
    Option (Config × Option CtxId) := do
  let (_, ctx) ← c.io.service.allocOverlapCtx fd flags associated
  let c ← c.perform [.alloc fd flags associated]
  return (c, ctx)

/-- `ctx->cb = std::bind(..)`. -/
def Config.bind (c : Config) (ctx : CtxId) (h : Handler) : Option Config := do
  let x ← c.io.service.ctxs.get ctx
  let c ← c.perform [.assign ctx x.flags x.udata (some c.handlers.length)]
  return { c with handlers := c.handlers ++ [h] }

/-- `ctx->flags |= FLAG_LAZY_DELETE; service_->FreeOverlapCtx(ctx);` -/
def Config.release (c : Config) (ctx : CtxId) : Option Config := do
  let x ← c.io.service.ctxs.get ctx
  c.perform [.assign ctx (x.flags ||| flagLazyDelete) x.udata x.cb, .free ctx]

/-- Use a session, if it has not been deleted. -/
def Config.withSession (c : Config) (s : SessionId) (f : Session → Option Config) : Option Config :=
  match c.session s with
  | none => some { c with fault := true }
  | some o => f o

/-! ### The functions -/

/-- `void Server::StartAccept()`. -/
def startAccept (c : Config) (a : Answer) : Option Config := do
  let ctx ← c.server.ctx
  let c ← c.bind ctx (.onAccept ctx)
  c.perform [.async ctx (.accept a.socket a.outcome)]

/-- `void Server::OnAccept(OverlapContext* ctx)` up to `AllocOverlapCtx`. -/
def onAccept (c : Config) (ctx : CtxId) : Option Config := do
  let x ← c.io.service.ctxs.get ctx
  let newfd := x.udata.toNat
  let c ← c.perform [.assign ctx x.flags 0 x.cb]
  if x.getStatusCode ≠ 0 then
    c.perform [.closeSocket newfd]
  else
    return { c with todo := .accepted newfd :: c.todo }

/-- `void Server::OnAccept(OverlapContext* ctx)` from `AllocOverlapCtx` on. -/
def accepted (c : Config) (newfd : Socket) (a : Answer) : Option Config := do
  let (c, newctx) ← c.alloc newfd flagAssociate a.associated
  match newctx with
  | none => c.perform [.closeSocket newfd]
  | some newctx =>
    let sid := c.server.counter
    let session := c.objs.length
    return { c with
      server := { c.server with
        counter := wrap32 (sid + 1), sessions := update c.server.sessions sid (some session) }
      objs := c.objs ++ [some { id := sid, fd := newfd, recvCtx := newctx }]
      todo := .startRead session :: .startAccept :: c.todo }

/-- `void Session::StartRead()`. -/
def startRead (c : Config) (s : SessionId) (a : Answer) : Option Config :=
  c.withSession s fun o => do
    let c ← c.bind o.recvCtx (.onRead s o.recvCtx)
    c.perform [.async o.recvCtx (.read a.outcome)]

/-- `ERROR_IO_PENDING`. -/
def errorIoPending : ℕ := 997

/-- `void Session::OnRead(OverlapContext* ctx)`. -/
def onRead (c : Config) (s : SessionId) (ctx : CtxId) : Option Config := do
  let x ← c.io.service.ctxs.get ctx
  let dwErr := x.getStatusCode
  if dwErr ≠ 0 then
    if dwErr ≠ errorIoPending then
      return { c with todo := .close s :: c.todo }
    else
      return c
  else if x.getTransferredBytes > 0 then
    return { c with todo := .write s :: .startRead s :: c.todo }
  else -- EOF
    return { c with todo := .close s :: c.todo }

/-- `int Session::Write(const void* data, int len)`. -/
def write (c : Config) (s : SessionId) (a : Answer) : Option Config :=
  c.withSession s fun o => do
    let (c, ctx) ← c.alloc o.fd 0 a.associated
    match ctx with
    | none => return c
    | some ctx =>
      let c ← c.bind ctx (.onWritten s ctx)
      c.perform [.async ctx (.write a.outcome)]

/-- `void Session::OnWritten(OverlapContext* ctx)`. -/
def onWritten (c : Config) (s : SessionId) (ctx : CtxId) : Option Config :=
  c.withSession s fun _ => c.release ctx

/-- `void Session::Close()`. -/
def close (c : Config) (s : SessionId) : Option Config :=
  c.withSession s fun o =>
    if o.id > 0 then do
      let c ← c.perform [.closeSocket o.fd]
      let c := { c with objs := c.objs.set s (some { o with fd := invalidSocket, id := 0 }) }
      let c ← c.release o.recvCtx
      return { c with todo := .closeSession o.id :: c.todo }
    else
      some c

/-- `void Server::CloseSession(int sid)`, whose `delete session` calls `Close` first. -/
def closeSession (c : Config) (sid : ℤ) : Option Config :=
  match c.server.sessions sid with
  | none => some c
  | some s => some { c with todo := .close s :: .destroy sid s :: c.todo }

/-- `delete session` behind the destructor, and `sessions_.erase(iter)`. -/
def destroy (c : Config) (sid : ℤ) (s : SessionId) : Option Config :=
  c.withSession s fun _ =>
    some { c with
      server := { c.server with sessions := update c.server.sessions sid none }
      objs := c.objs.set s none }

/-- Execute a task. -/
def exec (c : Config) (a : Answer) : Task → Option Config
  | .startAccept => startAccept c a
  | .onAccept ctx => onAccept c ctx
  | .accepted newfd => accepted c newfd a
  | .startRead s => startRead c s a
  | .onRead s ctx => onRead c s ctx
  | .write s => write c s a
  | .onWritten s ctx => onWritten c s ctx
  | .close s => close c s
  | .closeSession sid => closeSession c sid
  | .destroy sid s => destroy c sid s

/-! ### The machine -/

/-- The call that the closure makes. -/
def Handler.task : Handler → Task
  | .onAccept ctx => .onAccept ctx
  | .onRead s ctx => .onRead s ctx
  | .onWritten s ctx => .onWritten s ctx

/-- The session whose member function the closure calls. -/
def Handler.session? : Handler → Option SessionId
  | .onAccept _ => none
  | .onRead s _ => some s
  | .onWritten s _ => some s

/-- `Run` calls the callback of a context, if it has come to that. -/
def Config.enter (c : Config) : Option Config :=
  match c.io.ctl with
  | .callback d => do
    let h ← c.bound d.packet.ctx
    return { c with todo := [h.task], fault := h.session?.any fun s => (c.session s).isNone }
  | _ => some c

/-- One step of a run. -/
inductive Event
  /-- `Server::Start`; `CreateTCPAcceptor` returns `fd`, and `CreateIoCompletionPort` succeeds or
  not. -/
  | start (fd : Socket) (associated : Bool)
  /-- The next call is made. -/
  | exec (a : Answer)
  /-- An operation in flight completes. -/
  | complete (k : ℕ) (status bytes : ℕ)
  /-- A step of `Run` that is not about a packet. -/
  | quiet (e : CompletionPortService.Event)
  /-- `Run` dequeues a packet. -/
  | dequeued
  /-- The callback of a context returns. -/
  | callbackReturn
  deriving DecidableEq, Repr

/-- One step of the machine; `none` if the event cannot happen in this state.  After a fault nothing
is said about the program, and a failed `CHECK` in `Server::Start` ends it. -/
def step (c : Config) (e : Event) : Option Config :=
  if c.fault then none else
  match e, c.todo with
  | .exec a, t :: todo => exec { c with todo := todo } a t
  | .complete k status bytes, _ => c.perform [.complete k status bytes]
  | .start fd associated, [] =>
    if c.io.ctl = .idle ∧ c.server.ctx = none then do
      let (c, ctx) ← c.alloc fd flagAssociate associated
      let ctx ← ctx
      return { c with server := { c.server with ctx := some ctx }, todo := [.startAccept] }
    else
      none
  | .quiet e, [] => if e.quiet then c.perform [e] else none
  | .dequeued, [] => do
    let c ← c.perform [.dequeued]
    c.enter
  | .callbackReturn, [] => c.perform [.callbackReturn]
  | _, _ => none

/-- The state after the constructors. -/
def Config.init : Config where
  io := .init
  server := { ctx := none, counter := 2001, sessions := fun _ => none }
  objs := []
  handlers := []
  todo := []
  fault := false

/-- The configuration reached by a run from the constructors on. -/
abbrev runs (es : List Event) : Option Config := run step Config.init es

end PingPong

end WinsockTut
