import WinsockTut.Poller.Base
import WinsockTut.Foundation.FirstMatch

/-!
# Entries of the asynchronous pollers

`AsyncSelectPoller` and `AsyncEventPoller` keep for each socket the event set it is subscribed to,
`lEvents`, and the mask of the interests that are on.  The four interest operations are the same in
both: they find the first entry of the socket, and add bits to both fields or drop them.
-/

namespace WinsockTut

open FirstMatch

/-- The fields the entries of the two asynchronous pollers have in common. -/
structure AsyncEntry where
  /-- The socket, or `INVALID_SOCKET` in a retired entry. -/
  fd : Socket
  /-- The network events the socket is subscribed to. -/
  lEvents : BitVec 32
  /-- The interests that are on. -/
  mask : BitVec 32
  /-- The event sink. -/
  sink : Option Sink
  deriving DecidableEq, Repr

namespace AsyncEntry

/-- `FdEntry entry = {}`, with the socket and the sink filled in. -/
def new (fd : Socket) (event : Sink) : AsyncEntry :=
  { fd := fd, lEvents := 0, mask := 0, sink := some event }

/-- `entry->lEvents |= lEvent; entry->mask |= bit`. -/
def subscribe (lEvent bit : BitVec 32) (e : AsyncEntry) : AsyncEntry :=
  { e with lEvents := e.lEvents ||| lEvent, mask := e.mask ||| bit }

/-- `entry->lEvents &= ~lEvent; entry->mask &= ~bit`. -/
def unsubscribe (lEvent bit : BitVec 32) (e : AsyncEntry) : AsyncEntry :=
  { e with lEvents := e.lEvents &&& ~~~lEvent, mask := e.mask &&& ~~~bit }

/-- The body of `SetPollIn`, for the entry found. -/
def setPollIn : AsyncEntry → AsyncEntry :=
  subscribe (fdRead ||| fdAccept ||| fdClose) maskReadable

/-- The body of `ResetPollIn`. -/
def resetPollIn : AsyncEntry → AsyncEntry :=
  unsubscribe (fdRead ||| fdAccept ||| fdClose) maskReadable

/-- The body of `SetPollOut`. -/
def setPollOut : AsyncEntry → AsyncEntry :=
  subscribe (fdWrite ||| fdConnect ||| fdClose) maskWritable

/-- The body of `ResetPollOut`. -/
def resetPollOut : AsyncEntry → AsyncEntry :=
  unsubscribe (fdWrite ||| fdConnect ||| fdClose) maskWritable

/-- The entry belongs to a registered socket. -/
def Live (e : AsyncEntry) : Prop := e.fd ≠ invalidSocket

end AsyncEntry

/-! ### The two interests -/

/-- The two kinds of callbacks, and the interests in them. -/
inductive Direction
  /-- `OnReadable`. -/
  | read
  /-- `OnWritable`. -/
  | write
  deriving DecidableEq, Repr

/-- The bit of the interest in `mask`. -/
def Direction.bit : Direction → BitVec 32
  | .read => maskReadable
  | .write => maskWritable

/-- The mask of the entry contains the bit of the interest. -/
def AsyncEntry.wants (e : AsyncEntry) (d : Direction) : Bool := hasBits e.mask d.bit

theorem Direction.exists_isBit (d : Direction) : ∃ i, IsBit d.bit i := by
  cases d with
  | read => exact ⟨0, isBit_maskReadable⟩
  | write => exact ⟨1, isBit_maskWritable⟩

/-- `subscribe` turns on the interest of its bit only. -/
theorem AsyncEntry.wants_subscribe (lEvent : BitVec 32) (d d' : Direction) (e : AsyncEntry) :
    (e.subscribe lEvent d.bit).wants d' = (e.wants d' || decide (d = d')) := by
  obtain ⟨i, hi⟩ := d'.exists_isBit
  rw [wants, subscribe, hasBits_or hi]
  cases d <;> cases d' <;> rfl

/-- `unsubscribe` turns off the interest of its bit only. -/
theorem AsyncEntry.wants_unsubscribe (lEvent : BitVec 32) (d d' : Direction) (e : AsyncEntry) :
    (e.unsubscribe lEvent d.bit).wants d' = (e.wants d' && !decide (d = d')) := by
  obtain ⟨i, hi⟩ := d'.exists_isBit
  rw [wants, unsubscribe, hasBits_and_not hi]
  cases d <;> cases d' <;> rfl

/-- The direction other than `d`. -/
def Direction.other : Direction → Direction
  | .read => .write
  | .write => .read

@[simp] theorem Direction.other_other (d : Direction) : d.other.other = d := by cases d <;> rfl

/-! ### Network events -/

/-- The network events the pollers handle. -/
inductive NetworkEvent
  | read
  | close
  | accept
  | write
  | connect
  deriving DecidableEq, Repr

namespace NetworkEvent

/-- `FD_READ` and so on. -/
def bit : NetworkEvent → BitVec 32
  | .read => fdRead
  | .close => fdClose
  | .accept => fdAccept
  | .write => fdWrite
  | .connect => fdConnect

/-- The callback that reports the event. -/
def direction : NetworkEvent → Direction
  | .read => .read
  | .close => .read
  | .accept => .read
  | .write => .write
  | .connect => .write

/-- Whether the event has to be subscribed to: `FD_READ` and `FD_ACCEPT` for reading, `FD_WRITE`
and `FD_CONNECT` for writing, `FD_CLOSE` for either. -/
def required (reads writes : Bool) : NetworkEvent → Bool
  | .read => reads
  | .accept => reads
  | .write => writes
  | .connect => writes
  | .close => reads || writes

theorem exists_isBit (n : NetworkEvent) : ∃ i, IsBit n.bit i := by
  cases n with
  | read => exact ⟨0, isBit_fdRead⟩
  | close => exact ⟨5, isBit_fdClose⟩
  | accept => exact ⟨3, isBit_fdAccept⟩
  | write => exact ⟨1, isBit_fdWrite⟩
  | connect => exact ⟨4, isBit_fdConnect⟩

end NetworkEvent

/-- The event set `l` is the one that the interests require. -/
def Requires (reads writes : Bool) (l : BitVec 32) : Prop :=
  ∀ n : NetworkEvent, hasBits l n.bit = n.required reads writes

/-- The event set that is subscribed to, or dropped, together with an interest. -/
def Direction.events : Direction → BitVec 32
  | .read => fdRead ||| fdAccept ||| fdClose
  | .write => fdWrite ||| fdConnect ||| fdClose

/-- A live entry is subscribed to what its interests require. -/
def AsyncEntry.Subscribed (e : AsyncEntry) : Prop :=
  e.Live → Requires (e.wants .read) (e.wants .write) e.lEvents

namespace AsyncEntry

variable {e : AsyncEntry}

theorem subscribed_new (fd : Socket) (event : Sink) : (new fd event).Subscribed := by
  intro _ n
  have hzero : ∀ b, hasBits (new fd event).lEvents b = false := hasBits_zero
  have hoff : ∀ d, (new fd event).wants d = false := fun d => hasBits_zero d.bit
  rw [hzero, hoff, hoff]
  cases n <;> rfl

/-- Turning an interest on keeps the subscription right. -/
theorem Subscribed.subscribe (h : e.Subscribed) (d : Direction) :
    (e.subscribe d.events d.bit).Subscribed := by
  intro hlive n
  obtain ⟨i, hi⟩ := n.exists_isBit
  rw [show hasBits (e.subscribe d.events d.bit).lEvents n.bit = _ from hasBits_or hi _ _,
    h hlive n, wants_subscribe, wants_subscribe]
  generalize e.wants .read = reads
  generalize e.wants .write = writes
  revert reads writes
  cases d <;> cases n <;> decide

/-- Turning an interest off keeps the subscription right if the other interest is off. -/
theorem Subscribed.unsubscribe (h : e.Subscribed) {d : Direction} (hd : e.wants d.other = false) :
    (e.unsubscribe d.events d.bit).Subscribed := by
  intro hlive n
  obtain ⟨i, hi⟩ := n.exists_isBit
  rw [show hasBits (e.unsubscribe d.events d.bit).lEvents n.bit = _ from hasBits_and_not hi _ _,
    h hlive n, wants_unsubscribe, wants_unsubscribe]
  cases d with
  | read =>
    rw [show e.wants .write = false from hd]
    generalize e.wants .read = reads
    revert reads
    cases n <;> decide
  | write =>
    rw [show e.wants .read = false from hd]
    generalize e.wants .write = writes
    revert writes
    cases n <;> decide

/-- Otherwise `FD_CLOSE` is dropped, which the other interest still requires. -/
theorem not_subscribed_unsubscribe (hlive : e.Live) {d : Direction} (hd : e.wants d.other = true) :
    ¬ (e.unsubscribe d.events d.bit).Subscribed := by
  intro h
  have hclose := h hlive .close
  have hdropped : hasBits (e.unsubscribe d.events d.bit).lEvents fdClose = false := by
    rw [show hasBits (e.unsubscribe d.events d.bit).lEvents fdClose = _ from
      hasBits_and_not isBit_fdClose _ _]
    cases d with
    | read => simp [show hasBits Direction.read.events fdClose = true from rfl]
    | write => simp [show hasBits Direction.write.events fdClose = true from rfl]
  rw [show NetworkEvent.close.bit = fdClose from rfl, hdropped, wants_unsubscribe,
    wants_unsubscribe] at hclose
  cases d with
  | read =>
    rw [show e.wants .write = true from hd] at hclose
    simp [NetworkEvent.required] at hclose
  | write =>
    rw [show e.wants .read = true from hd] at hclose
    simp [NetworkEvent.required] at hclose

/-- Turn an interest on or off: the four interest operations in one. -/
def setInterest (d : Direction) (on : Bool) (e : AsyncEntry) : AsyncEntry :=
  if on then e.subscribe d.events d.bit else e.unsubscribe d.events d.bit

@[simp] theorem setInterest_fd (d : Direction) (on : Bool) (e : AsyncEntry) :
    (e.setInterest d on).fd = e.fd := by
  cases on <;> rfl

theorem wants_setInterest (d d' : Direction) (on : Bool) (e : AsyncEntry) :
    (e.setInterest d on).wants d' = if d = d' then on else e.wants d' := by
  cases on with
  | true =>
    rw [show e.setInterest d true = e.subscribe d.events d.bit from rfl, wants_subscribe]
    by_cases hd : d = d' <;> simp [hd]
  | false =>
    rw [show e.setInterest d false = e.unsubscribe d.events d.bit from rfl, wants_unsubscribe]
    by_cases hd : d = d' <;> simp [hd]

/-- **The interest operations keep a live entry subscribed to what is required, except for turning
an interest off while the other one is on.** -/
theorem Subscribed.setInterest_iff (h : e.Subscribed) (d : Direction) (on : Bool) :
    (e.setInterest d on).Subscribed ↔ ¬ (e.Live ∧ on = false ∧ e.wants d.other = true) := by
  cases on with
  | true => exact iff_of_true (h.subscribe d) (by simp)
  | false =>
    constructor
    · rintro hsub ⟨hlive, -, hd⟩
      exact not_subscribed_unsubscribe hlive hd hsub
    · intro hno
      by_cases hlive : e.Live
      · exact h.unsubscribe (Bool.not_eq_true _ ▸ fun hd => hno ⟨hlive, rfl, hd⟩)
      · exact fun hlive' => absurd hlive' hlive

end AsyncEntry

end WinsockTut
