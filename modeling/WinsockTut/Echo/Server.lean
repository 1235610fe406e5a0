import WinsockTut.Foundation.Runs
import WinsockTut.Poller.Base

/-!
# The echo server

`EchoServer` accepts connections, and `EchoConn` sends back what it reads, four times; both are
sinks of a poller.  This module is about them alone: what their functions do to the connections and
to the sockets, and which calls of the poller they make, in order.  The machines in which one of the
pollers calls them are built on top of it.

The free store is modelled with the connections: a connection is named by the number of connections
created before it, and an access to a deleted one has no defined behaviour, which is `none`.  The
contents of the messages are left out; `ReadSome` and `WriteSome` answer with a number.
-/

namespace WinsockTut

open Runs Function

/-- A pointer to an `EchoConn`. -/
abbrev ConnId := ℕ

/-- The members of `EchoConn`, but for its server and its buffer. -/
structure EchoConn where
  /-- `fd_`, which is `INVALID_SOCKET` once the connection is closed. -/
  fd : Socket
  /-- `recv_count_`. -/
  recvCount : ℤ
  deriving DecidableEq, Repr

/-- The members of `EchoServer`, with the connections in the free store (`none` once they are
deleted), and the sockets that are open. -/
structure EchoServer where
  /-- `acceptor_`. -/
  acceptor : Socket
  /-- `connections_`. -/
  connections : Socket → Option ConnId
  conns : List (Option EchoConn)
  opened : List Socket

namespace EchoServer

/-- `MAX_RECV_COUNT`. -/
def maxRecvCount : ℤ := 5

/-- The server as an event sink. -/
def serverSink : Sink := 0

/-- A connection as an event sink. -/
def connSink (k : ConnId) : Sink := k + 1

/-- The constructor. -/
def init : EchoServer where
  acceptor := invalidSocket
  connections := fun _ => none
  conns := []
  opened := []

/-- What the system answers to the calls of one function. -/
structure Answer where
  /-- The value `accept` returns. -/
  accepted : Socket
  /-- The value `ReadSome` returns for a socket. -/
  read : ℤ
  /-- The value `WriteSome` returns. -/
  written : ℤ
  deriving DecidableEq, Repr

/-- `*conn`. -/
def conn (s : EchoServer) (k : ConnId) : Option EchoConn := s.conns[k]?.join

/-- Assign to the members of a connection. -/
def setConn (s : EchoServer) (k : ConnId) (x : EchoConn) : EchoServer :=
  { s with conns := s.conns.set k (some x) }

/-- `delete conn`. -/
def deleteConn (s : EchoServer) (k : ConnId) : Option EchoServer :=
  match s.conn k with
  | none => none
  | some _ => some { s with conns := s.conns.set k none }

/-! ### The functions -/

/-- `void EchoServer::CloseSession(SOCKET fd)`. -/
def closeSession (s : EchoServer) (fd : Socket) : Option (EchoServer × List Call) :=
  match s.connections fd with
  | none => some (s, [])
  | some k => do
    let s := { s with opened := s.opened.erase fd }
    let s ← s.deleteConn k
    return ({ s with connections := update s.connections fd none }, [.removeFd fd])

/-- `void EchoConn::Close()`. -/
def close (s : EchoServer) (k : ConnId) : Option (EchoServer × List Call) := do
  let conn ← s.conn k
  if conn.fd ≠ invalidSocket then
    (s.setConn k { conn with fd := invalidSocket }).closeSession conn.fd
  else
    return (s, [])

/-- `ReadSome(fd_, ..)`, which fails if `fd_` is not a socket. -/
def readSome (fd : Socket) (a : Answer) : ℤ := if fd = invalidSocket then -1 else a.read

/-- `void EchoConn::StartRead()`. -/
def startRead (s : EchoServer) (k : ConnId) (a : Answer) : Option (EchoServer × List Call) := do
  let conn ← s.conn k
  let nbytes := readSome conn.fd a
  if nbytes < 0 then
    s.close k -- EOF or error
  else if nbytes > 0 then
    let conn := { conn with recvCount := conn.recvCount + 1 }
    let s := s.setConn k conn
    if conn.recvCount < maxRecvCount then
      -- echo back
      if a.written < 0 then s.close k else return (s, [])
    else
      s.close k
  else
    return (s, [])

/-- `void EchoServer::OnReadable()`, where `AddFd` refuses the new socket or not. -/
def onReadable (s : EchoServer) (refused : Bool) (a : Answer) :
    Option (EchoServer × List Call) := do
  let newfd := a.accepted
  if newfd = invalidSocket then
    return (s, [])
  else
    let k := s.conns.length
    let conn : EchoConn := { fd := newfd, recvCount := 0 }
    let s := { s with conns := s.conns ++ [some conn], opened := newfd :: s.opened }
    if refused then
      let (s, calls) ← s.close k
      let s ← s.deleteConn k
      return (s, Call.addFd newfd (connSink k) :: calls)
    else
      let (s, calls) ← s.startRead k a
      return ({ s with connections := update s.connections newfd (some k) },
        [Call.addFd newfd (connSink k), .setPollIn newfd, .setPollOut newfd] ++ calls)

/-- `void EchoServer::Start(const char* host, const char* port)`; `CreateTCPAcceptor` returns
`fd`. -/
def start (s : EchoServer) (fd : Socket) : EchoServer × List Call :=
  ({ s with acceptor := fd, opened := fd :: s.opened }, [.addFd fd serverSink, .setPollIn fd])

/-- The loop of `Cleanup`, over what is left of `connections_`.  The body erases the entry the
iterator is at if the connection was open, and deletes the connection again. -/
def cleanupLoop (s : EchoServer) : List ConnId → Option (EchoServer × List Call)
  | [] => some (s, [])
  | k :: ks => do
    let (s, calls) ← s.close k
    let s ← s.deleteConn k
    let (s, calls') ← cleanupLoop s ks
    return (s, calls ++ calls')

/-- `void EchoServer::Cleanup()`, which comes by the connections in the given order. -/
def cleanup (s : EchoServer) (order : List ConnId) : Option (EchoServer × List Call) := do
  let (s, calls) :=
    if s.acceptor ≠ invalidSocket then
      ({ s with acceptor := invalidSocket, opened := s.opened.erase s.acceptor },
        [Call.removeFd s.acceptor])
    else
      (s, [])
  let (s, calls') ← s.cleanupLoop order
  return ({ s with connections := fun _ => none }, calls ++ calls')

/-! ### The machine -/

/-- One step of a run. -/
inductive Event
  /-- `Start` is called. -/
  | start (fd : Socket)
  /-- The poller calls `OnReadable` of the server. -/
  | accept (refused : Bool) (a : Answer)
  /-- The poller calls `OnReadable` of a connection. -/
  | read (k : ConnId) (a : Answer)
  deriving DecidableEq, Repr

/-- The system returns a new socket: one that is not open. -/
def Fresh (s : EchoServer) (fd : Socket) : Prop := fd ≠ invalidSocket ∧ fd ∉ s.opened

instance (s : EchoServer) (fd : Socket) : Decidable (s.Fresh fd) :=
  inferInstanceAs (Decidable (_ ∧ _))

/-- What `accept` may return. -/
def MayAccept (s : EchoServer) (fd : Socket) : Prop := fd = invalidSocket ∨ s.Fresh fd

instance (s : EchoServer) (fd : Socket) : Decidable (s.MayAccept fd) :=
  inferInstanceAs (Decidable (_ ∨ _))

/-- What an event does, with the calls of the poller; `none` if it cannot happen, or the code has no
defined behaviour. -/
def act (s : EchoServer) : Event → Option (EchoServer × List Call)
  | .start fd => if s.acceptor = invalidSocket ∧ s.Fresh fd then some (s.start fd) else none
  | .accept refused a =>
    if s.acceptor ≠ invalidSocket ∧ s.MayAccept a.accepted then s.onReadable refused a else none
  | .read k a => s.startRead k a

/-- One step of the server by itself. -/
def step (s : EchoServer) (e : Event) : Option EchoServer := (s.act e).map Prod.fst

/-- The server reached by a run from the constructor on. -/
abbrev runs (es : List Event) : Option EchoServer := run step init es

end EchoServer

end WinsockTut
