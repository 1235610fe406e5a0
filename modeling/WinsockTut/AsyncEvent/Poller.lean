import WinsockTut.Async.Entry

/-!
# The poller based on `WSAEventSelect`

`AsyncEventPoller` has an event object for each socket.  When one of them is signalled, it handles
the record of network events of the socket: up to five events, one after the other, against the
same entry.  `fds_` has room for all entries from the start, so the pointer to the entry stays
valid; it is modelled as an index.
-/

namespace WinsockTut

/-- `struct AsyncEventPoller::FdEntry`. -/
structure AsyncEventPoller.FdEntry extends AsyncEntry where
  /-- The event object, or `WSA_INVALID_EVENT` in a retired entry. -/
  hEvent : Handle
  deriving DecidableEq, Repr

/-- The members of `AsyncEventPoller`. -/
structure AsyncEventPoller where
  /-- `events_`. -/
  events : List Handle
  /-- `fds_`. -/
  fds : List AsyncEventPoller.FdEntry
  /-- `has_retired_`. -/
  hasRetired : Bool
  /-- `last_err_`. -/
  lastErr : ℤ
  deriving DecidableEq, Repr

/-- `WSANETWORKEVENTS`. -/
structure NetworkEvents where
  /-- `lNetworkEvents`. -/
  lNetworkEvents : BitVec 32
  /-- `iErrorCode`, at the positions of the five events. -/
  iErrorCode : NetworkEvent → ℤ

namespace AsyncEventPoller

/-- The constructor. -/
def init : AsyncEventPoller where
  events := []
  fds := []
  hasRetired := false
  lastErr := 0

/-! ### The operations -/

/-- `FdEntry* AsyncEventPoller::FindEntry(SOCKET fd)`, as an index of `fds_`. -/
def findEntry (p : AsyncEventPoller) (fd : Socket) : Option ℕ :=
  p.fds.findIdx? fun e => e.fd = fd

/-- `FdEntry* AsyncEventPoller::FindEntryByEvent(WSAEVENT hEvent)`, as an index of `fds_`. -/
def findEntryByEvent (p : AsyncEventPoller) (hEvent : Handle) : Option ℕ :=
  p.fds.findIdx? fun e => e.hEvent = hEvent

/-- Change the entry that `FindEntry` finds. -/
def updateEntry (p : AsyncEventPoller) (fd : Socket) (f : FdEntry → FdEntry) : AsyncEventPoller :=
  match p.findEntry fd with
  | some i => { p with fds := p.fds.modify i f }
  | none => p

/-- `int AsyncEventPoller::AddFd(SOCKET fd, IPollEvent* event)`, where `WSACreateEvent` returns
`hEvent`; `none` stands for `WSA_INVALID_EVENT`. -/
def addFd (p : AsyncEventPoller) (fd : Socket) (event : Sink) (hEvent : Option Handle) :
    AsyncEventPoller × ℤ :=
  if p.fds.length ≥ wsaMaximumWaitEvents then
    (p, -1)
  else
    match hEvent with
    | none => (p, -1)
    | some h => ({ p with fds := p.fds ++ [{ AsyncEntry.new fd event with hEvent := h }] }, 0)

/-- What `RemoveFd` does to the entry it finds. -/
def retire (e : FdEntry) : FdEntry := { e with fd := invalidSocket, hEvent := wsaInvalidEvent }

/-- `void AsyncEventPoller::RemoveFd(SOCKET fd)`. -/
def removeFd (p : AsyncEventPoller) (fd : Socket) : AsyncEventPoller :=
  { p.updateEntry fd retire with hasRetired := true }

/-- A change of the fields that both asynchronous pollers have. -/
def FdEntry.onEntry (f : AsyncEntry → AsyncEntry) (e : FdEntry) : FdEntry :=
  { f e.toAsyncEntry with hEvent := e.hEvent }

/-- `void AsyncEventPoller::SetPollIn(SOCKET fd)`. -/
def setPollIn (p : AsyncEventPoller) (fd : Socket) : AsyncEventPoller :=
  p.updateEntry fd (FdEntry.onEntry AsyncEntry.setPollIn)

/-- `void AsyncEventPoller::ResetPollIn(SOCKET fd)`. -/
def resetPollIn (p : AsyncEventPoller) (fd : Socket) : AsyncEventPoller :=
  p.updateEntry fd (FdEntry.onEntry AsyncEntry.resetPollIn)

/-- `void AsyncEventPoller::SetPollOut(SOCKET fd)`. -/
def setPollOut (p : AsyncEventPoller) (fd : Socket) : AsyncEventPoller :=
  p.updateEntry fd (FdEntry.onEntry AsyncEntry.setPollOut)

/-- `void AsyncEventPoller::ResetPollOut(SOCKET fd)`. -/
def resetPollOut (p : AsyncEventPoller) (fd : Socket) : AsyncEventPoller :=
  p.updateEntry fd (FdEntry.onEntry AsyncEntry.resetPollOut)

/-- `void AsyncEventPoller::RemoveRetired()`. -/
def removeRetired (p : AsyncEventPoller) : AsyncEventPoller :=
  if p.hasRetired then
    { p with fds := p.fds.filter fun e => e.fd ≠ invalidSocket, hasRetired := false }
  else
    p

/-- `void AsyncEventPoller::CleanUp()`, with the handles it passes to `WSACloseEvent`. -/
def cleanUp (p : AsyncEventPoller) : AsyncEventPoller × List Handle :=
  ({ p with events := [], fds := [] }, p.fds.map FdEntry.hEvent)

/-- The operation a call performs, with the value `AddFd` returns. -/
def call (p : AsyncEventPoller) (hEvent : Option Handle) : Call → AsyncEventPoller × ℤ
  | .addFd fd event => p.addFd fd event hEvent
  | .removeFd fd => (p.removeFd fd, 0)
  | .setPollIn fd => (p.setPollIn fd, 0)
  | .resetPollIn fd => (p.resetPollIn fd, 0)
  | .setPollOut fd => (p.setPollOut fd, 0)
  | .resetPollOut fd => (p.resetPollOut fd, 0)

/-- The loop at the start of `Poll`, which fills `events_`. -/
def collectEvents (p : AsyncEventPoller) : AsyncEventPoller :=
  { p with events := (p.fds.filter fun e =>
      e.fd ≠ invalidSocket ∧ e.hEvent ≠ wsaInvalidEvent).map FdEntry.hEvent }

/-- The tests of `HandleEvents` in the order of the code. -/
def sites : List NetworkEvent := [.read, .close, .accept, .write, .connect]

/-- `entry->mask | MASK_READABLE` as a condition, at all five places. -/
def gate (e : FdEntry) : Bool := decide (e.mask ||| maskReadable ≠ 0)

/-- The tests `ns` of `HandleEvents` for the entry at `k`, up to the next callback: the poller
there, and the event reported with the tests that are left. -/
def handleEvents (rec : NetworkEvents) (k : ℕ) :
    List NetworkEvent → AsyncEventPoller →
      AsyncEventPoller × Option (NetworkEvent × List NetworkEvent)
  | [], p => (p, none)
  | n :: ns, p =>
    if hasBits rec.lNetworkEvents n.bit then
      let p := { p with lastErr := rec.iErrorCode n }
      if p.fds[k]?.any gate then (p, some (n, ns)) else handleEvents rec k ns p
    else
      handleEvents rec k ns p

end AsyncEventPoller

end WinsockTut
