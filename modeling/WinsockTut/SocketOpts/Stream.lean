import Mathlib.Data.Int.Basic
import WinsockTut.Foundation.Buffer
import WinsockTut.Winsock.Socket

/-!
# Reading from and writing to a socket

`ReadSome` and `WriteSome` call `recv` and `send` until the buffer is used up, the call would block,
or it fails.  The socket is a parameter: an arbitrary type of states, and a function that answers
a call and says in which state the socket is afterwards.  (A sequence of answers is a socket, whose
state is what is left of the sequence.)  What Winsock promises about the answers is stated where it
is used, by `ByteStream` for `recv` and by `Accepting` for `send`.

The loops are given a number of rounds, `fuel`; running out of it is `none`, and so is an access
outside the buffer.
-/

namespace WinsockTut

namespace SocketOpts

open Buffer

variable {σ : Type*}

/-- `WSAEWOULDBLOCK`. -/
def wsaEWouldBlock : ℤ := 10035

/-- The answer of `recv`. -/
inductive Recv
  /-- The bytes that were received; none at the end of the stream. -/
  | data (bytes : List UInt8)
  /-- `SOCKET_ERROR`, with the error that `WSAGetLastError` returns. -/
  | error (err : ℤ)
  deriving DecidableEq, Repr

/-- The answer of `send`. -/
inductive Send
  /-- The number of bytes that were accepted. -/
  | accepted (n : ℕ)
  /-- `SOCKET_ERROR`, with the error that `WSAGetLastError` returns. -/
  | error (err : ℤ)
  deriving DecidableEq, Repr

/-- What `ReadSome` leaves behind: its value, the buffer and the socket. -/
structure ReadResult (σ : Type*) where
  value : ℤ
  buf : List UInt8
  socket : σ
  deriving DecidableEq, Repr

/-- The loop of `ReadSome`, with `nbytes` bytes in the buffer. -/
def readLoop (recv : σ → ℤ → Recv × σ) (size : ℤ) :
    ℕ → σ → List UInt8 → ℕ → Option (ReadResult σ)
  | 0, _, _, _ => none
  | fuel + 1, s, buf, nbytes =>
    match recv s (size - nbytes) with
    | (.data bytes, s) =>
      if bytes.length > 0 then
        if nbytes + bytes.length ≤ buf.length then
          readLoop recv size fuel s (overwrite buf nbytes bytes) (nbytes + bytes.length)
        else
          none
      else
        some ⟨-1, buf, s⟩ -- EOF
    | (.error err, s) =>
      if err ≠ wsaEWouldBlock then some ⟨-1, buf, s⟩ else some ⟨nbytes, buf, s⟩

/-- `int ReadSome(SOCKET fd, void* buf, int size)`. -/
def readSome (recv : σ → ℤ → Recv × σ) (fuel : ℕ) (s : σ) (buf : List UInt8) (size : ℤ) :
    Option (ReadResult σ) :=
  readLoop recv size fuel s buf 0

/-- A call of `send`: the bytes it was offered, and its answer. -/
structure SendCall where
  offered : List UInt8
  answer : Send
  deriving DecidableEq, Repr

/-- What `WriteSome` leaves behind: its value, the calls of `send` it has made and the socket. -/
structure WriteResult (σ : Type*) where
  value : ℤ
  calls : List SendCall
  socket : σ
  deriving DecidableEq, Repr

/-- The bytes from position `n` up to position `size` of the buffer, if they are inside it. -/
def segment (buf : List UInt8) (n : ℕ) (size : ℤ) : Option (List UInt8) :=
  if size ≤ buf.length then some ((buf.take size.toNat).drop n) else none

/-- The loop of `WriteSome`, with `nbytes` bytes sent. -/
def writeLoop (send : σ → List UInt8 → Send × σ) (buf : List UInt8) (size : ℤ) :
    ℕ → σ → ℕ → List SendCall → Option (WriteResult σ)
  | 0, _, _, _ => none
  | fuel + 1, s, nbytes, calls =>
    if nbytes < size then
      match segment buf nbytes size with
      | none => none
      | some offered =>
        match send s offered with
        | (.accepted r, s) =>
          writeLoop send buf size fuel s (nbytes + r) (calls ++ [⟨offered, .accepted r⟩])
        | (.error err, s) =>
          let calls := calls ++ [⟨offered, .error err⟩]
          if err ≠ wsaEWouldBlock then some ⟨-1, calls, s⟩ else some ⟨nbytes, calls, s⟩
    else
      some ⟨nbytes, calls, s⟩

/-- `int WriteSome(SOCKET fd, const void* buf, int size)`. -/
def writeSome (send : σ → List UInt8 → Send × σ) (fuel : ℕ) (s : σ) (buf : List UInt8) (size : ℤ) :
    Option (WriteResult σ) :=
  writeLoop send buf size fuel s 0 []

end SocketOpts

end WinsockTut
