import WinsockTut.Overlap.Operation

/-!
# The service based on event objects

`OverlappedIOService` gives every context an event object of its own, which Winsock sets when an
operation on the context completes.  The map `fds_` leads from the handle of the event object to
the context; its order is not determined.
-/

namespace WinsockTut

/-- `OverlappedIOService`, with the contexts it has allocated. -/
structure OverlappedIOService where
  ctxs : Contexts
  fds : List (Handle × CtxId)
  events : List Handle
  deriving DecidableEq, Repr

namespace OverlappedIOService

/-- The state after the constructor. -/
def init : OverlappedIOService := ⟨[], [], []⟩

/-- `fds_.erase(hEvent)`. -/
def erase (s : OverlappedIOService) (hEvent : Handle) : OverlappedIOService :=
  { s with fds := s.fds.filter fun entry => entry.1 ≠ hEvent }

/-- `fds_[hEvent] = ctx`. -/
def insert (s : OverlappedIOService) (hEvent : Handle) (ctx : CtxId) : OverlappedIOService :=
  { s with fds := (s.erase hEvent).fds ++ [(hEvent, ctx)] }

/-- `fds_.find(hEvent)`. -/
def find (s : OverlappedIOService) (hEvent : Handle) : Option CtxId :=
  (s.fds.find? fun entry => entry.1 = hEvent).map Prod.snd

/-- `AllocOverlapCtx`, if `WSACreateEvent` returns `hEvent`; `none` stands for
`WSA_INVALID_EVENT`.  The flags are not used. -/
def allocOverlapCtx (s : OverlappedIOService) (fd : Socket) (_flags : BitVec 32)
    (hEvent : Option Handle) : OverlappedIOService × Option CtxId :=
  if s.fds.length ≥ wsaMaximumWaitEvents then
    (s, none)
  else match hEvent with
    | none => (s, none)
    | some h =>
      let ctx := s.ctxs.length
      let s' := { s with ctxs := s.ctxs ++ [some { OverlapContext.new fd with hEvent := h }] }
      (s'.insert h ctx, some ctx)

/-- `FreeOverlapCtx`, with the handle that it passes to `WSACloseEvent`. -/
def freeOverlapCtx (s : OverlappedIOService) (ctx : CtxId) :
    Option (OverlappedIOService × Handle) := do
  let x ← s.ctxs.get ctx
  let ctxs := s.ctxs.update ctx fun x => { x with fd := invalidSocket, hEvent := wsaInvalidEvent }
  let s' := { s with ctxs := ctxs }.erase x.hEvent
  return ({ s' with ctxs := s'.ctxs.delete ctx }, x.hEvent)

/-- `AsyncConnect`. -/
def asyncConnect (x : OverlapContext) (r : ℤ) (outcome : Outcome) : Issue :=
  startConnect x r outcome

/-- `AsyncAccept`. -/
def asyncAccept (x : OverlapContext) (fd : Socket) (outcome : Outcome) : Issue :=
  startAccept x fd outcome

/-- `AsyncRead`. -/
def asyncRead (x : OverlapContext) (outcome : Outcome) : Issue := startTransfer x outcome

/-- `AsyncWrite`. -/
def asyncWrite (x : OverlapContext) (outcome : Outcome) : Issue := startTransfer x outcome

/-- The effect of a call that starts an operation on the context `x`. -/
def issue (x : OverlapContext) : AsyncCall → Issue
  | .connect r outcome => asyncConnect x r outcome
  | .accept fd outcome => asyncAccept x fd outcome
  | .read outcome => asyncRead x outcome
  | .write outcome => asyncWrite x outcome

/-- An operation that is pending has the status `STATUS_PENDING`. -/
theorem internal_of_pending {x : OverlapContext} {call : AsyncCall}
    (h : (issue x call).outcome = .pending) : (issue x call).ctx.internal = statusPending := by
  cases call with
  | connect r outcome =>
    simp only [issue, asyncConnect, startConnect] at h ⊢
    split at h
    · cases h
    · next hr =>
      obtain rfl : outcome = .pending := h
      simp [hr, OverlapContext.leftBy]
  | accept fd outcome =>
    simp only [issue, asyncAccept, startAccept] at h ⊢
    split at h
    · cases h
    · next hfd =>
      obtain rfl : outcome = .pending := h
      simp [hfd, OverlapContext.leftBy]
  | read outcome =>
    obtain rfl : outcome = .pending := h
    rfl
  | write outcome =>
    obtain rfl : outcome = .pending := h
    rfl

end OverlappedIOService

end WinsockTut
