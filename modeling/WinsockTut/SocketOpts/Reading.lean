import Mathlib.Data.Int.Order.Basic
import Mathlib.Order.MinMax
import WinsockTut.SocketOpts.Stream

/-!
# What `ReadSome` reports

On a stream of bytes with an end behind them, whatever the chunks are in which they arrive,
`ReadSome` takes from the socket what is there and fits in the buffer (`ByteStream.readSome`).  The
count of these bytes is returned in one case only: if the call would block before the buffer is
full.  A full buffer makes `recv` answer 0 to a call with length 0, which is taken for the end of
the stream, and at a real end the bytes before it are forgotten.
-/

namespace WinsockTut

namespace SocketOpts

open Buffer

variable {σ : Type*}

/-- What follows the bytes of a stream. -/
inductive StreamEnd
  /-- Nothing for now: the stream is open. -/
  | wouldBlock
  /-- The peer has closed the connection. -/
  | closed
  /-- A hard error. -/
  | failed (err : ℤ) (hard : err ≠ wsaEWouldBlock)

/-- The answer of `recv` at the end of the bytes. -/
def StreamEnd.answer : StreamEnd → Recv
  | .wouldBlock => .error wsaEWouldBlock
  | .closed => .data []
  | .failed err _ => .error err

/-- The value of `ReadSome` when it meets the end of the stream after `n` bytes. -/
def StreamEnd.value : StreamEnd → ℕ → ℤ
  | .wouldBlock, n => n
  | .closed, _ => -1
  | .failed _ _, _ => -1

/-- How `recv` answers on a socket for which the bytes `rest s` are still to come, with `ending`
behind them. -/
structure ByteStream (recv : σ → ℤ → Recv × σ) (rest : σ → List UInt8) (ending : StreamEnd) :
    Prop where
  /-- At least one of the bytes is delivered, and no more than were asked for. -/
  data : ∀ s len, 0 < len → rest s ≠ [] → ∃ bytes s', recv s len = (.data bytes, s') ∧
    bytes ≠ [] ∧ bytes.length ≤ len ∧ rest s = bytes ++ rest s'
  ended : ∀ s len, 0 < len → rest s = [] → ∃ s', recv s len = (ending.answer, s') ∧ rest s' = []
  /-- A call that asks for nothing receives nothing. -/
  zero : ∀ s, ∃ s', recv s 0 = (.data [], s') ∧ rest s' = rest s

/-- What the loop of `ReadSome` has done when it returns `r`, if it had `n` bytes in `buf` and the
bytes `stream` were to come. -/
structure Delivered (rest : σ → List UInt8) (ending : StreamEnd) (size : ℤ) (stream : List UInt8)
    (buf : List UInt8) (n : ℕ) (r : ReadResult σ) : Prop where
  value : r.value =
    if (stream.length : ℤ) < size - n then ending.value (n + stream.length) else -1
  stored : r.buf.take (n + min stream.length (size - n).toNat) =
    buf.take n ++ stream.take (size - n).toNat
  socket : rest r.socket = stream.drop (size - n).toNat

variable {recv : σ → ℤ → Recv × σ} {rest : σ → List UInt8} {ending : StreamEnd} {size : ℤ}
  {s : σ} {buf : List UInt8} {n fuel : ℕ} {r : ReadResult σ}

/-- A chunk that arrives is part of what is delivered. -/
theorem Delivered.cons {bytes stream : List UInt8} (hlen : bytes.length ≤ size - n)
    (hbuf : size ≤ buf.length)
    (h : Delivered rest ending size stream (overwrite buf n bytes) (n + bytes.length) r) :
    Delivered rest ending size (bytes ++ stream) buf n r := by
  have hroom : (size - n).toNat = bytes.length + (size - (n + bytes.length : ℕ)).toNat := by
    omega
  have hfits : n + bytes.length ≤ buf.length := by omega
  have hstored := h.stored
  have hvalue := h.value
  refine ⟨?_, ?_, ?_⟩
  · rw [hvalue, List.length_append, Nat.add_assoc]
    congr 1
    exact propext ⟨fun _ => by omega, fun _ => by omega⟩
  · rw [take_overwrite hfits] at hstored
    rw [hroom, List.take_length_add_append, List.length_append, Nat.add_min_add_left,
      ← Nat.add_assoc, hstored, List.append_assoc]
  · rw [hroom, List.drop_length_add_append]
    exact h.socket

/-- The buffer is full: nothing more is delivered. -/
theorem Delivered.full {stream : List UInt8} (hn : size - n = 0) (hrest : rest s = stream) :
    Delivered rest ending size stream buf n ⟨-1, buf, s⟩ where
  value := by rw [if_neg (by omega)]
  stored := by simp [hn]
  socket := by simp [hn, hrest]

/-- The stream ends: nothing more is delivered. -/
theorem Delivered.ended (hn : (n : ℤ) < size) (hrest : rest s = []) :
    Delivered rest ending size [] buf n ⟨ending.value n, buf, s⟩ where
  value := by rw [List.length_nil, Nat.add_zero, if_pos (by simpa using by omega)]
  stored := by simp
  socket := by simpa using hrest

/-- A round at the end of the stream is the last one. -/
theorem readLoop_ended {s' : σ} (h : recv s (size - n) = (ending.answer, s')) (fuel : ℕ) :
    SocketOpts.readLoop recv size (fuel + 1) s buf n = some ⟨ending.value n, buf, s'⟩ := by
  rw [readLoop, h]
  cases ending with
  | wouldBlock => simp [StreamEnd.answer, StreamEnd.value]
  | closed => simp [StreamEnd.answer, StreamEnd.value]
  | failed err hard => simp [StreamEnd.answer, StreamEnd.value, hard]

/-- **The loop of `ReadSome` on a stream** ends, and has then taken from it what was there and fits
in the buffer. -/
theorem ByteStream.readLoop (h : ByteStream recv rest ending) (hbuf : size ≤ buf.length)
    (hn : n ≤ size) (hfuel : size < n + fuel) :
    ∃ r, SocketOpts.readLoop recv size fuel s buf n = some r ∧
      Delivered rest ending size (rest s) buf n r := by
  induction fuel generalizing s buf n with
  | zero => omega
  | succ fuel ih =>
    by_cases heq : (n : ℤ) = size
    · -- the buffer is full, and `recv` is asked for nothing
      obtain ⟨s', hrecv, hrest⟩ := h.zero s
      have hzero : size - n = 0 := by omega
      refine ⟨_, ?_, .full hzero hrest⟩
      rw [SocketOpts.readLoop, hzero, hrecv]
      rfl
    · cases hstream : rest s with
      | nil =>
        obtain ⟨s', hrecv, hrest⟩ := h.ended s (size - n) (by omega) hstream
        exact ⟨_, readLoop_ended hrecv fuel, .ended (by omega) hrest⟩
      | cons b bs =>
        obtain ⟨bytes, s', hrecv, hne, hlen, hsplit⟩ :=
          h.data s (size - n) (by omega) (by simp [hstream])
        have hpos : 0 < bytes.length := List.length_pos_of_ne_nil hne
        have hfits : n + bytes.length ≤ buf.length := by omega
        have hbuf' : size ≤ (overwrite buf n bytes).length := by
          rw [length_overwrite hfits]
          exact hbuf
        obtain ⟨r, hr, hdelivered⟩ :=
          @ih s' (overwrite buf n bytes) (n + bytes.length) hbuf' (by omega) (by omega)
        refine ⟨r, ?_, hstream ▸ hsplit ▸ hdelivered.cons hlen hbuf⟩
        rw [SocketOpts.readLoop, hrecv]
        simp only [gt_iff_lt, hpos, if_true, hfits, hr]

/-- **What `ReadSome` does on a stream.** -/
theorem ByteStream.readSome (h : ByteStream recv rest ending) (hsize : 0 ≤ size)
    (hbuf : size ≤ buf.length) (hfuel : size < fuel) :
    ∃ r, SocketOpts.readSome recv fuel s buf size = some r ∧
      r.value = (if ((rest s).length : ℤ) < size then ending.value (rest s).length else -1) ∧
      r.buf.take (min (rest s).length size.toNat) = (rest s).take size.toNat ∧
      rest r.socket = (rest s).drop size.toNat := by
  obtain ⟨r, hr, hvalue, hstored, hsocket⟩ :
      ∃ r, SocketOpts.readLoop recv size fuel s buf 0 = some r ∧
        Delivered rest ending size (rest s) buf 0 r := h.readLoop hbuf hsize (by omega)
  refine ⟨r, hr, ?_, ?_, ?_⟩
  · simpa using hvalue
  · simpa using hstored
  · simpa using hsocket

/-- A socket on which the bytes `s.1` are to come, of which the call number `i` delivers at most
`limit i + 1`. -/
def chunked (limit : ℕ → ℕ) (ending : StreamEnd) (s : List UInt8 × ℕ) (len : ℤ) :
    Recv × (List UInt8 × ℕ) :=
  if len ≤ 0 then (.data [], s)
  else if s.1 = [] then (ending.answer, s)
  else (.data (s.1.take (min (limit s.2 + 1) len.toNat)),
    (s.1.drop (min (limit s.2 + 1) len.toNat), s.2 + 1))

theorem byteStream_chunked (limit : ℕ → ℕ) (ending : StreamEnd) :
    ByteStream (chunked limit ending) Prod.fst ending where
  data s len hlen hne := by
    refine ⟨_, _, by rw [chunked, if_neg (by omega), if_neg hne], ?_, ?_, ?_⟩
    · have := List.length_pos_of_ne_nil hne
      exact List.ne_nil_of_length_pos (by rw [List.length_take]; omega)
    · rw [List.length_take]
      omega
    · exact (List.take_append_drop _ s.1).symm
  ended s len hlen hnil := ⟨s, by rw [chunked, if_neg (by omega), if_pos hnil], hnil⟩
  zero s := ⟨s, rfl, rfl⟩

/-- **`ReadSome` returns what is there, on an open stream, exactly if** less than `size` bytes are
waiting: when the buffer is full, `recv` is asked for no bytes, and its answer is taken for the end
of the stream. -/
theorem readSome_open_iff (h : ByteStream recv rest .wouldBlock) (hsize : 0 < size)
    (hbuf : size ≤ buf.length) (hfuel : size < fuel) :
    (∃ r, readSome recv fuel s buf size = some r ∧ r.value = min ((rest s).length : ℤ) size ∧
      r.buf.take (min (rest s).length size.toNat) =
        (rest s).take (min (rest s).length size.toNat)) ↔ (rest s).length < size := by
  obtain ⟨r, hr, hvalue, hstored, -⟩ := h.readSome (s := s) (Int.le_of_lt hsize) hbuf hfuel
  constructor
  · rintro ⟨r', hr', hmin, -⟩
    obtain rfl : r = r' := Option.some.inj (hr.symm.trans hr')
    by_contra hfull
    rw [if_neg hfull] at hvalue
    omega
  · intro hlt
    refine ⟨r, hr, ?_, ?_⟩
    · rw [hvalue, if_pos hlt, min_eq_left (Int.le_of_lt hlt)]
      rfl
    · rw [hstored, List.take_eq_take_iff]
      omega

/-- Two bytes that wait for a buffer of two bytes are reported as the end of the stream. -/
theorem readSome_full : ByteStream (chunked (fun _ => 0) .wouldBlock) Prod.fst .wouldBlock ∧
    readSome (chunked (fun _ => 0) .wouldBlock) 3 ([1, 2], 0) [0, 0] 2 =
      some ⟨-1, [1, 2], ([], 2)⟩ ∧
    (-1 : ℤ) ≠ min (([1, 2] : List UInt8).length : ℤ) 2 :=
  ⟨byteStream_chunked _ _, by decide +kernel, by decide⟩

theorem readSome_open_three :
    ∃ r, readSome (chunked (fun _ => 0) .wouldBlock) 9 ([1, 2, 3], 0) [0, 0, 0, 0] 4 = some r ∧
      r.value = min (([1, 2, 3] : List UInt8).length : ℤ) 4 ∧
      r.buf.take (min ([1, 2, 3] : List UInt8).length (4 : ℤ).toNat) =
        ([1, 2, 3] : List UInt8).take (min ([1, 2, 3] : List UInt8).length (4 : ℤ).toNat) :=
  (readSome_open_iff (byteStream_chunked _ _) (by decide) (by decide) (by decide)).mpr (by decide)

/-- **`ReadSome` swallows the bytes in front of the end of a stream, always.**  If some bytes, less
than `size`, are followed by a close or by a hard error, it takes all of them from the socket and
returns -1. -/
theorem readSome_swallows (h : ByteStream recv rest ending) (hend : ending ≠ .wouldBlock)
    (hpos : 0 < (rest s).length) (hlt : (rest s).length < size) (hbuf : size ≤ buf.length)
    (hfuel : size < fuel) :
    (∃ r, readSome recv fuel s buf size = some r ∧ r.value = -1 ∧ rest r.socket = []) ∧
      ¬ ∃ r, readSome recv fuel s buf size = some r ∧ r.value = (rest s).length ∧
        r.buf.take (rest s).length = rest s := by
  obtain ⟨r, hr, hvalue, -, hsocket⟩ := h.readSome (s := s) (by omega) hbuf hfuel
  have hlost : r.value = -1 := by
    rw [hvalue, if_pos hlt]
    cases ending with
    | wouldBlock => exact absurd rfl hend
    | closed => rfl
    | failed err hard => rfl
  refine ⟨⟨r, hr, hlost, ?_⟩, ?_⟩
  · rw [hsocket, List.drop_eq_nil_of_le (by omega)]
  · rintro ⟨r', hr', hall, -⟩
    obtain rfl : r = r' := Option.some.inj (hr.symm.trans hr')
    omega

/-- Three bytes and a close that arrive together. -/
theorem readSome_closed : ByteStream (chunked (fun _ => 2) .closed) Prod.fst .closed ∧
    readSome (chunked (fun _ => 2) .closed) 5 ([1, 2, 3], 0) [0, 0, 0, 0] 4 =
      some ⟨-1, [1, 2, 3, 0], ([], 1)⟩ ∧
    (-1 : ℤ) ≠ ([1, 2, 3] : List UInt8).length :=
  ⟨byteStream_chunked _ _, by decide +kernel, by decide⟩

theorem readSome_swallows_three :
    ∃ r, readSome (chunked (fun _ => 2) .closed) 5 ([1, 2, 3], 0) [0, 0, 0, 0] 4 = some r ∧
      r.value = -1 ∧ r.socket.1 = [] :=
  (readSome_swallows (byteStream_chunked _ _) (by simp) (by decide) (by decide) (by decide)
    (by decide)).1

end SocketOpts

end WinsockTut
