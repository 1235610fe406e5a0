import WinsockTut.Poller.Base

/-!
# The select poller

`SelectPoller` keeps its sockets in the vector `fds_` and in three socket sets.  A removed socket
leaves the sets at once; its entry is only marked, and taken out at the end of `Poll`.

`Poll` goes through the entries by index and tests three ready sets for each of them.  What it
does between two callbacks is the pure function `resume`.
-/

namespace WinsockTut

/-- `struct SelectPoller::FdEntry`. -/
structure SelectPoller.FdEntry where
  /-- The socket, or `INVALID_SOCKET` in a retired entry. -/
  fd : Socket
  /-- The event sink; `none` is the null pointer. -/
  sink : Option Sink
  deriving DecidableEq, Repr

/-- The members of `SelectPoller`. -/
structure SelectPoller where
  /-- `fds_`. -/
  fds : List SelectPoller.FdEntry
  /-- `has_retired_`. -/
  hasRetired : Bool
  /-- `readfds_`. -/
  readfds : FdSet
  /-- `writefds_`. -/
  writefds : FdSet
  /-- `exceptfds_`. -/
  exceptfds : FdSet
  deriving DecidableEq, Repr

namespace SelectPoller

/-- The constructor. -/
def init : SelectPoller where
  fds := []
  hasRetired := false
  readfds := []
  writefds := []
  exceptfds := []

/-! ### The operations -/

/-- `int SelectPoller::AddFd(SOCKET fd, IPollEvent* event)`. -/
def addFd (p : SelectPoller) (fd : Socket) (event : Sink) : SelectPoller × ℤ :=
  if p.fds.length ≥ fdSetSize then
    (p, -1)
  else
    -- start polling on errors
    ({ p with fds := p.fds ++ [{ fd := fd, sink := some event }]
              exceptfds := fdSet fd p.exceptfds }, 0)

/-- The loop of `MarkRetired`. -/
def retireFirst (fd : Socket) : List FdEntry → List FdEntry
  | [] => []
  | e :: es =>
    if e.fd = fd then { fd := invalidSocket, sink := none } :: es else e :: retireFirst fd es

/-- `void SelectPoller::MarkRetired(SOCKET fd)`. -/
def markRetired (p : SelectPoller) (fd : Socket) : SelectPoller :=
  { p with fds := retireFirst fd p.fds, hasRetired := true }

/-- `void SelectPoller::RemoveFd(SOCKET fd)`. -/
def removeFd (p : SelectPoller) (fd : Socket) : SelectPoller :=
  let p := p.markRetired fd
  -- stop polling on the descriptor
  { p with readfds := fdClr fd p.readfds
           writefds := fdClr fd p.writefds
           exceptfds := fdClr fd p.exceptfds }

/-- `void SelectPoller::SetPollIn(SOCKET fd)`. -/
def setPollIn (p : SelectPoller) (fd : Socket) : SelectPoller :=
  { p with readfds := fdSet fd p.readfds }

/-- `void SelectPoller::ResetPollIn(SOCKET fd)`. -/
def resetPollIn (p : SelectPoller) (fd : Socket) : SelectPoller :=
  { p with readfds := fdClr fd p.readfds }

/-- `void SelectPoller::SetPollOut(SOCKET fd)`. -/
def setPollOut (p : SelectPoller) (fd : Socket) : SelectPoller :=
  { p with writefds := fdSet fd p.writefds }

/-- `void SelectPoller::ResetPollOut(SOCKET fd)`. -/
def resetPollOut (p : SelectPoller) (fd : Socket) : SelectPoller :=
  { p with writefds := fdClr fd p.writefds }

/-- `void SelectPoller::RemoveRetired()`. -/
def removeRetired (p : SelectPoller) : SelectPoller :=
  if p.hasRetired then
    { p with fds := p.fds.filter fun e => e.fd ≠ invalidSocket, hasRetired := false }
  else
    p

/-- The operation a call performs. -/
def call (p : SelectPoller) : Call → SelectPoller
  | .addFd fd event => (p.addFd fd event).1
  | .removeFd fd => p.removeFd fd
  | .setPollIn fd => p.setPollIn fd
  | .resetPollIn fd => p.resetPollIn fd
  | .setPollOut fd => p.setPollOut fd
  | .resetPollOut fd => p.resetPollOut fd

/-! ### The loop of `Poll` -/

/-- The three tests in the body of the loop. -/
inductive Site
  /-- `FD_ISSET(fd, &exptset)`, which leads to `OnReadable`. -/
  | except
  /-- `FD_ISSET(fd, &wrset)`, which leads to `OnWritable`. -/
  | write
  /-- `FD_ISSET(fd, &rdset)`, which leads to `OnReadable`. -/
  | read
  deriving DecidableEq, Repr

/-- The tests in the order of the code. -/
def Site.all : List Site := [.except, .write, .read]

/-- The tests that follow in the body of the loop. -/
def Site.later : Site → List Site
  | .except => [.write, .read]
  | .write => [.read]
  | .read => []

/-- The local variables `rdset`, `wrset` and `exptset`. -/
structure Ready where
  rdset : FdSet
  wrset : FdSet
  exptset : FdSet
  deriving DecidableEq, Repr

/-- The ready set tested at a site. -/
def Ready.at (ready : Ready) : Site → FdSet
  | .except => ready.exptset
  | .write => ready.wrset
  | .read => ready.rdset

/-- The sets handed to `select`. -/
def ready (p : SelectPoller) : Ready := ⟨p.readfds, p.writefds, p.exceptfds⟩

/-- The number `select` returns: the sockets in the three sets. -/
def Ready.total (ready : Ready) : ℕ :=
  ready.rdset.length + ready.wrset.length + ready.exptset.length

/-- `select` only removes sockets from the sets. -/
def Ready.Within (ready sets : Ready) : Prop := ∀ s, ready.at s ⊆ sets.at s

/-- A place of the loop at which a callback is made: the index, the local variable `fd`, and the
test that succeeded. -/
structure Dispatch where
  i : ℕ
  fd : Socket
  site : Site
  deriving DecidableEq, Repr

/-- The first of the tests `sites` that succeeds for the local variable `fd`.  In front of each
test the code continues with the next entry if `fd` is `INVALID_SOCKET`. -/
def nextSite (ready : Ready) (fd : Socket) (sites : List Site) : Option Site :=
  if fd = invalidSocket then none else sites.find? fun s => fdIsSet fd (ready.at s)

/-- The first callback the loop makes for the entries `es`, whose indices start at `i`. -/
def scan (ready : Ready) : ℕ → List FdEntry → Option Dispatch
  | _, [] => none
  | i, e :: es =>
    match nextSite ready e.fd Site.all with
    | some s => some ⟨i, e.fd, s⟩
    | none => scan ready (i + 1) es

/-- The first callback of the loop, which is not entered unless `r > 0`. -/
def start (p : SelectPoller) (ready : Ready) : Option Dispatch :=
  if ready.total > 0 then scan ready 0 p.fds else none

/-- The next callback of the loop after the one at `d` has returned. -/
def resume (p : SelectPoller) (ready : Ready) (d : Dispatch) : Option Dispatch :=
  match nextSite ready d.fd d.site.later with
  | some s => some { d with site := s }
  | none => scan ready (d.i + 1) (p.fds.drop (d.i + 1))

end SelectPoller

end WinsockTut
