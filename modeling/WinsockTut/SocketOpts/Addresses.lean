import Mathlib.Data.Int.Basic
import WinsockTut.Foundation.ForEach
import WinsockTut.SocketOpts.Stream

/-!
# Opening a socket for a name

`CreateTCPAcceptor` and `CreateTcpConnector` ask `getaddrinfo` for the addresses of a host and try
them one after the other.  What Winsock answers is part of the input: `getaddrinfo` fails, or
returns a list whose elements carry the answers to the calls that may be made for them.  The calls
that are made are logged.
-/

namespace WinsockTut

namespace SocketOpts

open ForEach

/-- `SOCKET_ERROR`. -/
def socketError : ℤ := -1

/-- `AF_INET`. -/
def afInet : ℤ := 2
/-- `AF_INET6`. -/
def afInet6 : ℤ := 23
/-- `SOCK_STREAM`. -/
def sockStream : ℤ := 1
/-- `IPPROTO_TCP`. -/
def ipprotoTcp : ℤ := 6
/-- `AI_PASSIVE`. -/
def aiPassive : ℤ := 1
/-- `SOMAXCONN`. -/
def soMaxConn : ℤ := 0x7fffffff

/-- `struct addrinfo`, without the link to the next one; `addr` are the `ai_addrlen` bytes at
`ai_addr`. -/
structure AddrInfo where
  flags : ℤ
  family : ℤ
  socktype : ℤ
  protocol : ℤ
  addr : List UInt8
  deriving DecidableEq, Repr

/-- An address of the list, with what is answered for it. -/
structure Candidate where
  info : AddrInfo
  /-- The socket that `socket` returns. -/
  socket : Socket
  bind : ℤ
  ioctlsocket : ℤ
  listen : ℤ
  connect : ℤ
  /-- What `WSAGetLastError` returns after `connect`. -/
  lastError : ℤ
  deriving DecidableEq, Repr

/-- The calls of Winsock. -/
inductive Call
  | getaddrinfo (host port : String) (hints : AddrInfo)
  /-- `socket`, which returns `fd`. -/
  | socket (info : AddrInfo) (fd : Socket)
  | bind (fd : Socket) (addr : List UInt8)
  /-- `ioctlsocket` for `FIONBIO`. -/
  | ioctlsocket (fd : Socket) (val : ℕ)
  | listen (fd : Socket) (backlog : ℤ)
  | connect (fd : Socket) (addr : List UInt8)
  | closesocket (fd : Socket)
  | freeaddrinfo
  deriving DecidableEq, Repr

/-- The value of a function, and the calls it has made. -/
structure Opened where
  value : Socket
  calls : List Call
  deriving DecidableEq, Repr

/-- The variable `fd` between two rounds, and the calls so far. -/
structure Attempt where
  fd : Socket
  calls : List Call
  deriving DecidableEq, Repr

/-- Further calls. -/
def Attempt.made (s : Attempt) (calls : List Call) : Attempt := { s with calls := s.calls ++ calls }

/-- `closesocket(fd); fd = INVALID_SOCKET;` -/
def Attempt.close (s : Attempt) : Attempt := ⟨invalidSocket, s.calls ++ [.closesocket s.fd]⟩

/-- `int SetNonblock(SOCKET fd, bool nonblock)`, if `ioctlsocket` returns `r`. -/
def setNonblock (fd : Socket) (nonblock : Bool) (r : ℤ) : ℤ × List Call :=
  (r, [.ioctlsocket fd (if nonblock then 1 else 0)])

/-- The argument `hints` of `getaddrinfo`. -/
def hints (ipv6 : Bool) : AddrInfo :=
  { flags := aiPassive
    family := if ipv6 then afInet6 else afInet
    socktype := sockStream
    protocol := ipprotoTcp
    addr := [] }

/-- A round of the loop of `CreateTCPAcceptor`. -/
def acceptorRound (nonblock : Bool) (s : Attempt) (a : Candidate) : RoundEnd Attempt Opened :=
  let s := Attempt.made { s with fd := a.socket } [.socket a.info a.socket]
  if s.fd = invalidSocket then .next s
  else
    let s := s.made [.bind s.fd a.info.addr]
    if a.bind = socketError then .next s.close
    else
      let (r, calls) := if nonblock then setNonblock s.fd true a.ioctlsocket else (0, [])
      let s := s.made calls
      if r = socketError then .next s.close
      else
        let s := s.made [.listen s.fd soMaxConn]
        if a.listen = socketError then .next s.close else .stop s

/-- `CreateTCPAcceptor`; `resolved` is the answer of `getaddrinfo`. -/
def createTCPAcceptor (host port : String) (nonblock ipv6 : Bool)
    (resolved : Except ℤ (List Candidate)) : Opened :=
  let calls := [.getaddrinfo host port (hints ipv6)]
  match resolved with
  | .error _ => ⟨invalidSocket, calls⟩
  | .ok aiList =>
    (forEach (acceptorRound nonblock) ⟨invalidSocket, calls⟩ aiList).andThen fun s =>
      ⟨s.fd, s.calls ++ [.freeaddrinfo]⟩

/-- A round of the loop of `CreateTcpConnector`.  If `connect` fails for good, the function returns
`false`, which is the socket 0. -/
def connectorRound (nonblock : Bool) (s : Attempt) (a : Candidate) : RoundEnd Attempt Opened :=
  let s := Attempt.made { s with fd := a.socket } [.socket a.info a.socket]
  if s.fd = invalidSocket then .next s
  else
    let (r, calls) := if nonblock then setNonblock s.fd true a.ioctlsocket else (0, [])
    let s := s.made calls
    if r = socketError then .next s.close
    else
      let s := s.made [.connect s.fd a.info.addr]
      if a.connect = socketError then
        if a.lastError ≠ wsaEWouldBlock then .leave ⟨0, s.close.calls⟩ else .stop s
      else
        .stop s

/-- `CreateTcpConnector`; `resolved` is the answer of `getaddrinfo`. -/
def createTcpConnector (host port : String) (nonblock ipv6 : Bool)
    (resolved : Except ℤ (List Candidate)) : Opened :=
  let calls := [.getaddrinfo host port (hints ipv6)]
  match resolved with
  | .error _ => ⟨invalidSocket, calls⟩
  | .ok aiList =>
    (forEach (connectorRound nonblock) ⟨invalidSocket, calls⟩ aiList).andThen fun s =>
      ⟨s.fd, s.calls ++ [.freeaddrinfo]⟩

/-! ### What a round does -/

/-- `nonblock` is granted: it is not asked for, or `SetNonblock` succeeds. -/
def Candidate.granted (a : Candidate) (nonblock : Bool) : Bool :=
  !nonblock || decide (a.ioctlsocket ≠ socketError)

/-- The calls by which `nonblock` is asked for. -/
def Candidate.asked (a : Candidate) (nonblock : Bool) : List Call :=
  if nonblock then [.ioctlsocket a.socket 1] else []

/-- All steps of `CreateTCPAcceptor` succeed for the address. -/
def Candidate.accepts (nonblock : Bool) (a : Candidate) : Bool :=
  decide (a.socket ≠ invalidSocket) && decide (a.bind ≠ socketError) && a.granted nonblock &&
    decide (a.listen ≠ socketError)

/-- All steps of `CreateTcpConnector` succeed for the address, or the connection is under way. -/
def Candidate.connects (nonblock : Bool) (a : Candidate) : Bool :=
  decide (a.socket ≠ invalidSocket) && a.granted nonblock &&
    (decide (a.connect ≠ socketError) || decide (a.lastError = wsaEWouldBlock))

/-- The address is refused: `connect` is called, and fails for good. -/
def Candidate.refused (nonblock : Bool) (a : Candidate) : Bool :=
  decide (a.socket ≠ invalidSocket) && a.granted nonblock &&
    decide (a.connect = socketError) && decide (a.lastError ≠ wsaEWouldBlock)

end SocketOpts

end WinsockTut
