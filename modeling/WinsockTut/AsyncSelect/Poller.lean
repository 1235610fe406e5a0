import WinsockTut.Async.Entry

/-!
# The poller based on `WSAAsyncSelect`

`AsyncSelectPoller` receives the network events of its sockets as window messages, and handles one
message after the other.
-/

namespace WinsockTut

/-- The members of `AsyncSelectPoller`. -/
structure AsyncSelectPoller where
  /-- `fds_`. -/
  fds : List AsyncEntry
  /-- `has_retired_`. -/
  hasRetired : Bool
  /-- `last_err_`. -/
  lastErr : ℤ
  deriving DecidableEq, Repr

/-- A window message. -/
inductive Message
  /-- `WM_SOCKET`, with the socket in `wParam`, and the event and the error in `lParam`. -/
  | socket (fd : Socket) (ev : BitVec 32) (ec : ℤ)
  /-- Any other message. -/
  | other
  deriving DecidableEq, Repr

namespace AsyncSelectPoller

/-- The constructor. -/
def init : AsyncSelectPoller where
  fds := []
  hasRetired := false
  lastErr := 0

/-! ### The operations -/

/-- `FdEntry* AsyncSelectPoller::FindEntry(SOCKET fd)`, as an index of `fds_`. -/
def findEntry (p : AsyncSelectPoller) (fd : Socket) : Option ℕ :=
  p.fds.findIdx? fun e => e.fd = fd

/-- Change the entry that `FindEntry` finds. -/
def updateEntry (p : AsyncSelectPoller) (fd : Socket) (f : AsyncEntry → AsyncEntry) :
    AsyncSelectPoller :=
  match p.findEntry fd with
  | some i => { p with fds := p.fds.modify i f }
  | none => p

/-- `int AsyncSelectPoller::AddFd(SOCKET fd, IPollEvent* event)`. -/
def addFd (p : AsyncSelectPoller) (fd : Socket) (event : Sink) : AsyncSelectPoller × ℤ :=
  if p.fds.length ≥ fdSetSize then
    (p, -1)
  else
    ({ p with fds := p.fds ++ [AsyncEntry.new fd event] }, 0)

/-- What `RemoveFd` does to the entry it finds. -/
def retire (e : AsyncEntry) : AsyncEntry := { e with fd := invalidSocket, mask := 0 }

/-- `void AsyncSelectPoller::RemoveFd(SOCKET fd)`. -/
def removeFd (p : AsyncSelectPoller) (fd : Socket) : AsyncSelectPoller :=
  { p.updateEntry fd retire with hasRetired := true }

/-- `void AsyncSelectPoller::SetPollIn(SOCKET fd)`. -/
def setPollIn (p : AsyncSelectPoller) (fd : Socket) : AsyncSelectPoller :=
  p.updateEntry fd AsyncEntry.setPollIn

/-- `void AsyncSelectPoller::ResetPollIn(SOCKET fd)`. -/
def resetPollIn (p : AsyncSelectPoller) (fd : Socket) : AsyncSelectPoller :=
  p.updateEntry fd AsyncEntry.resetPollIn

/-- `void AsyncSelectPoller::SetPollOut(SOCKET fd)`. -/
def setPollOut (p : AsyncSelectPoller) (fd : Socket) : AsyncSelectPoller :=
  p.updateEntry fd AsyncEntry.setPollOut

/-- `void AsyncSelectPoller::ResetPollOut(SOCKET fd)`. -/
def resetPollOut (p : AsyncSelectPoller) (fd : Socket) : AsyncSelectPoller :=
  p.updateEntry fd AsyncEntry.resetPollOut

/-- `void AsyncSelectPoller::RemoveRetired()`. -/
def removeRetired (p : AsyncSelectPoller) : AsyncSelectPoller :=
  if p.hasRetired then
    { p with fds := p.fds.filter fun e => e.fd ≠ invalidSocket, hasRetired := false }
  else
    p

/-- The operation a call performs, with the value `AddFd` returns. -/
def call (p : AsyncSelectPoller) : Call → AsyncSelectPoller × ℤ
  | .addFd fd event => p.addFd fd event
  | .removeFd fd => (p.removeFd fd, 0)
  | .setPollIn fd => (p.setPollIn fd, 0)
  | .resetPollIn fd => (p.resetPollIn fd, 0)
  | .setPollOut fd => (p.setPollOut fd, 0)
  | .resetPollOut fd => (p.resetPollOut fd, 0)

/-- The `switch` of `HandleEvent`. -/
def eventDirection (ev : BitVec 32) : Option Direction :=
  if ev = fdRead ∨ ev = fdAccept ∨ ev = fdClose then some .read
  else if ev = fdWrite ∨ ev = fdConnect then some .write
  else none

/-- `entry->mask | MASK_READABLE` and `entry->mask | MASK_WRITABLE` as conditions. -/
def gate (e : AsyncEntry) (d : Direction) : Bool := decide (e.mask ||| d.bit ≠ 0)

/-- `void AsyncSelectPoller::HandleEvent(SOCKET fd, int ev, int ec)` up to the callback: the entry
it is made through, as an index of `fds_`, and its kind. -/
def handleEvent (p : AsyncSelectPoller) (fd : Socket) (ev : BitVec 32) (ec : ℤ) :
    AsyncSelectPoller × Option (AsyncEntry × Direction) :=
  let p := { p with lastErr := ec }
  (p, do
    let entry ← p.fds[← p.findEntry fd]?
    let d ← eventDirection ev
    if gate entry d then some (entry, d) else none)

end AsyncSelectPoller

end WinsockTut
