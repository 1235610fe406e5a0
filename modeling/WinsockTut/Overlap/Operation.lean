import WinsockTut.Overlap.Context

/-!
# Starting an operation

`AsyncConnect`, `AsyncAccept`, `AsyncRead` and `AsyncWrite` have the same text in both I/O
services.  Each clears the status of the context, makes one overlapped call and turns its outcome
into a return value; what Winsock answers is a parameter.  `Issue` is what such a call amounts to.
-/

namespace WinsockTut

/-- The overlapped calls. -/
inductive OpKind
  /-- `ConnectEx`. -/
  | connect
  /-- `AcceptEx`. -/
  | accept
  /-- `WSARecv`. -/
  | read
  /-- `WSASend`. -/
  | write
  deriving DecidableEq, Repr

/-- How an overlapped call ends. -/
inductive Outcome
  /-- It succeeds at once, with this number of bytes. -/
  | done (bytes : ℕ)
  /-- It fails with `WSA_IO_PENDING`: the operation has been started. -/
  | pending
  /-- It fails with another error. -/
  | failed (err : ℤ)
  deriving DecidableEq, Repr

/-- Calls that change the state of a socket. -/
inductive SocketCall
  /-- `UpdateConnectCtx(fd)`, which sets `SO_UPDATE_CONNECT_CONTEXT`. -/
  | updateConnectCtx (fd : Socket)
  /-- `closesocket(fd)`. -/
  | closesocket (fd : Socket)
  /-- `CancelIoEx(fd, NULL)`. -/
  | cancelIoEx (fd : Socket)
  deriving DecidableEq, Repr

/-- The effect of a call that starts an operation: the context, the return value, how the
overlapped call has ended (it counts as failed if it is not reached) and the socket calls. -/
structure Issue where
  ctx : OverlapContext
  value : ℤ
  outcome : Outcome
  calls : List SocketCall
  deriving DecidableEq, Repr

/-- `overlap.Internal = 0; overlap.InternalHigh = 0;` -/
def OverlapContext.clearStatus (x : OverlapContext) : OverlapContext :=
  { x with internal := 0, internalHigh := 0 }

/-- The status that the overlapped call leaves in the context. -/
def OverlapContext.leftBy (x : OverlapContext) : Outcome → OverlapContext
  | .done bytes => { x with internal := 0, internalHigh := bytes }
  | .pending => { x with internal := statusPending }
  | .failed _ => x

/-- `AsyncConnect`, if `BindAnyAddr` returns `r` and `ConnectEx` ends with the outcome. -/
def startConnect (x : OverlapContext) (r : ℤ) (outcome : Outcome) : Issue :=
  if r ≠ 0 then
    { ctx := x, value := r, outcome := .failed r, calls := [] }
  else
    { ctx := x.clearStatus.leftBy outcome
      value := match outcome with
        | .failed _ => -1
        | _ => 0
      outcome := outcome
      calls := match outcome with
        | .done _ => [.updateConnectCtx x.fd]
        | _ => [] }

/-- `AsyncAccept`, if `socket()` returns `fd` and `AcceptEx` ends with the outcome. -/
def startAccept (x : OverlapContext) (fd : Socket) (outcome : Outcome) : Issue :=
  if fd = invalidSocket then
    { ctx := x, value := -1, outcome := .failed (-1), calls := [] }
  else
    { ctx := OverlapContext.leftBy { x.clearStatus with udata := fd } outcome
      value := match outcome with
        | .failed err => err
        | _ => 0
      outcome := outcome
      calls := match outcome with
        | .failed _ => [.closesocket fd]
        | _ => [] }

/-- `AsyncRead` and `AsyncWrite`. -/
def startTransfer (x : OverlapContext) (outcome : Outcome) : Issue :=
  { ctx := x.clearStatus.leftBy outcome
    value := match outcome with
      | .failed err => err
      | _ => 0
    outcome := outcome
    calls := [] }

/-- The calls of the interface that start an operation, with what Winsock answers. -/
inductive AsyncCall
  /-- `AsyncConnect`; `BindAnyAddr` returns `r`. -/
  | connect (r : ℤ) (outcome : Outcome)
  /-- `AsyncAccept`; `socket()` returns `fd`. -/
  | accept (fd : Socket) (outcome : Outcome)
  /-- `AsyncRead`. -/
  | read (outcome : Outcome)
  /-- `AsyncWrite`. -/
  | write (outcome : Outcome)
  deriving DecidableEq, Repr

/-- The overlapped call that is made. -/
def AsyncCall.kind : AsyncCall → OpKind
  | .connect _ _ => .connect
  | .accept _ _ => .accept
  | .read _ => .read
  | .write _ => .write

/-- An operation that has been started and has not completed. -/
structure Operation where
  ctx : CtxId
  kind : OpKind
  fd : Socket
  deriving DecidableEq, Repr

end WinsockTut
