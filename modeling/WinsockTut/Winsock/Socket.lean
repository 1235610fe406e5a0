import Mathlib.Algebra.Group.Nat.Defs
import Mathlib.Data.List.Nodup
import Mathlib.Logic.Basic

/-!
# Sockets, network events and socket sets

The part of Winsock that the pollers use: socket values, the network event bits of
`WSAAsyncSelect` and `WSAEventSelect`, and the counted arrays behind `fd_set`.
-/

namespace WinsockTut

/-- `SOCKET`, an unsigned 64-bit value. -/
abbrev Socket := ℕ

/-- `INVALID_SOCKET`. -/
def invalidSocket : Socket := 2 ^ 64 - 1

/-- `FD_SETSIZE`, as the build defines it. -/
def fdSetSize : ℕ := 1024

/-- `WSA_MAXIMUM_WAIT_EVENTS`. -/
def wsaMaximumWaitEvents : ℕ := 64

/-- `WSAEVENT`, the handle of an event object. -/
abbrev Handle := ℕ

/-- `WSA_INVALID_EVENT`. -/
def wsaInvalidEvent : Handle := 0

/-! ### Bit masks -/

/-- `FD_READ`. -/
def fdRead : BitVec 32 := 0x01
/-- `FD_WRITE`. -/
def fdWrite : BitVec 32 := 0x02
/-- `FD_ACCEPT`. -/
def fdAccept : BitVec 32 := 0x08
/-- `FD_CONNECT`. -/
def fdConnect : BitVec 32 := 0x10
/-- `FD_CLOSE`. -/
def fdClose : BitVec 32 := 0x20

/-- `MASK_READABLE`. -/
def maskReadable : BitVec 32 := 1
/-- `MASK_WRITABLE`. -/
def maskWritable : BitVec 32 := 2

/-- The value of `m & b` as a condition. -/
def hasBits (m b : BitVec 32) : Bool := decide (m &&& b ≠ 0)

/-- For a single bit, `m & b` reads that bit. -/
theorem hasBits_twoPow (m : BitVec 32) (i : ℕ) :
    hasBits m (BitVec.twoPow 32 i) = m.getLsbD i := by
  rw [hasBits, BitVec.and_twoPow]
  cases h : m.getLsbD i with
  | false => simp
  | true =>
    have hi : i < 32 := BitVec.lt_of_getLsbD h
    have hne : BitVec.twoPow 32 i ≠ 0 := by
      intro h0
      have := congrArg (BitVec.getLsbD · i) h0
      simp [hi] at this
    exact decide_eq_true hne

/-- The position of the only bit of a constant. -/
def IsBit (b : BitVec 32) (i : ℕ) : Prop := b = BitVec.twoPow 32 i ∧ i < 32

theorem hasBits_eq {b : BitVec 32} {i : ℕ} (h : IsBit b i) (m : BitVec 32) :
    hasBits m b = m.getLsbD i := h.1 ▸ hasBits_twoPow m i

theorem isBit_fdRead : IsBit fdRead 0 := by unfold IsBit; decide
theorem isBit_fdWrite : IsBit fdWrite 1 := by unfold IsBit; decide
theorem isBit_fdAccept : IsBit fdAccept 3 := by unfold IsBit; decide
theorem isBit_fdConnect : IsBit fdConnect 4 := by unfold IsBit; decide
theorem isBit_fdClose : IsBit fdClose 5 := by unfold IsBit; decide
theorem isBit_maskReadable : IsBit maskReadable 0 := by unfold IsBit; decide
theorem isBit_maskWritable : IsBit maskWritable 1 := by unfold IsBit; decide

/-- `m |= x` adds the bits of `x`. -/
theorem hasBits_or {b : BitVec 32} {i : ℕ} (h : IsBit b i) (m x : BitVec 32) :
    hasBits (m ||| x) b = (hasBits m b || hasBits x b) := by
  simp [hasBits_eq h]

/-- `m &= ~x` drops the bits of `x`. -/
theorem hasBits_and_not {b : BitVec 32} {i : ℕ} (h : IsBit b i) (m x : BitVec 32) :
    hasBits (m &&& ~~~x) b = (hasBits m b && !hasBits x b) := by
  simp [hasBits_eq h, h.2]

theorem hasBits_zero (b : BitVec 32) : hasBits 0 b = false := by
  simp [hasBits]

/-! ### Socket sets -/

/-- `fd_set`: the first `fd_count` elements of `fd_array`. -/
abbrev FdSet := List Socket

/-- `FD_SET(fd, &s)`: appends `fd` if it is absent and there is room. -/
def fdSet (fd : Socket) (s : FdSet) : FdSet :=
  if fd ∈ s then s else if s.length < fdSetSize then s ++ [fd] else s

/-- `FD_CLR(fd, &s)`: takes the first occurrence out. -/
def fdClr (fd : Socket) (s : FdSet) : FdSet := s.erase fd

/-- `FD_ISSET(fd, &s)`. -/
def fdIsSet (fd : Socket) (s : FdSet) : Bool := decide (fd ∈ s)

theorem nodup_fdSet {s : FdSet} (h : s.Nodup) (fd : Socket) : (fdSet fd s).Nodup := by
  unfold fdSet
  split
  · exact h
  · rename_i hfd
    split
    · rw [← List.concat_eq_append]
      exact h.concat hfd
    · exact h

theorem nodup_fdClr {s : FdSet} (h : s.Nodup) (fd : Socket) : (fdClr fd s).Nodup := h.erase fd

/-- What `FD_SET` does to the elements: it adds `fd`, unless the set is full. -/
theorem mem_fdSet {s : FdSet} {fd x : Socket} :
    x ∈ fdSet fd s ↔ x ∈ s ∨ (x = fd ∧ s.length < fdSetSize) := by
  unfold fdSet
  split
  · rename_i hfd
    exact ⟨Or.inl, fun h => h.elim id fun h => h.1 ▸ hfd⟩
  · split
    · rename_i hlen
      simp [hlen]
    · rename_i hlen
      simp [hlen]

theorem mem_fdClr {s : FdSet} (h : s.Nodup) {fd x : Socket} :
    x ∈ fdClr fd s ↔ x ∈ s ∧ x ≠ fd := by
  rw [fdClr, h.mem_erase_iff, and_comm]

end WinsockTut
