import Mathlib.Logic.Function.Basic
import Mathlib.Data.List.Basic
import WinsockTut.Foundation.Word

/-!
# The timer scheduler

`TimerSched` keeps its timers in a binary min-heap of pointers, `heap_`, ordered by the expiry
time, and in a map `ref_` from timer ids to the same pointers.  Each entry stores its own position
in the heap, so that a timer can be taken out of the middle.

The C++ objects are modelled with their addresses: `mem` maps every live address to the entry
stored there, `new` takes an address that is not live and `delete` makes one free again.  All
functions return `none` where the C++ code has no defined behaviour: an index outside the vector,
an access through a pointer to a deleted entry, a second `delete`.  The two sift loops are given as
many rounds as the vector is long, plus one; running out of rounds is also `none`.
-/

namespace WinsockTut

open Word Function

/-- An address of the free store. -/
abbrev Addr := ℕ

/-- A non-null pointer to an event sink. -/
abbrev Sink := ℕ

/-- `struct TimerSched::TimerEntry`. -/
structure TimerEntry where
  /-- Position of this entry in the heap. -/
  index : ℤ
  /-- The timer id. -/
  id : ℤ
  /-- The expiry time. -/
  expire : ℤ
  /-- The event sink; `none` is the null pointer. -/
  sink : Option Sink
  deriving DecidableEq, Repr

/-- The members of `TimerSched`, with the part of the free store its entries live in. -/
structure TimerSched where
  /-- `next_id_`, the next timer id. -/
  nextId : ℤ
  /-- `heap_`, the min-heap of timers. -/
  heap : List Addr
  /-- `ref_`, the entry of each timer id. -/
  ref : ℤ → Option Addr
  /-- The live entries. -/
  mem : Addr → Option TimerEntry

namespace TimerSched

/-- The constructor. -/
def init : TimerSched where
  nextId := 100
  heap := []
  ref := fun _ => none
  mem := fun _ => none

/-! ### Access to the vector and to the entries -/

/-- `heap_[i]`. -/
def slot (s : TimerSched) (i : ℤ) : Option Addr := if i < 0 then none else s.heap[i.toNat]?

/-- `*heap_[i]`. -/
def item (s : TimerSched) (i : ℤ) : Option TimerEntry := (s.slot i).bind s.mem

/-- `heap_[i]->index = v`. -/
def setIndex (s : TimerSched) (i v : ℤ) : Option TimerSched := do
  let a ← s.slot i
  let e ← s.mem a
  return { s with mem := update s.mem a (some { e with index := v }) }

/-- `std::swap(heap_[i], heap_[j])`. -/
def swapSlots (s : TimerSched) (i j : ℤ) : Option TimerSched := do
  let a ← s.slot i
  let b ← s.slot j
  return { s with heap := (s.heap.set i.toNat b).set j.toNat a }

/-- `heap_.pop_back()`. -/
def popBack (s : TimerSched) : Option TimerSched :=
  if s.heap = [] then none else some { s with heap := s.heap.dropLast }

/-- `delete entry`. -/
def delete (s : TimerSched) (a : Addr) : Option TimerSched :=
  match s.mem a with
  | none => none
  | some _ => some { s with mem := update s.mem a none }

/-- `(int)heap_.size()`. -/
def size (s : TimerSched) : ℤ := wrap32 s.heap.length

/-! ### Sifting -/

/-- `HEAP_ITEM_LESS(i, j)`. -/
def heapItemLess (s : TimerSched) (i j : ℤ) : Option Bool := do
  let x ← s.item i
  let y ← s.item j
  return decide (x.expire < y.expire)

/-- Exchange two slots and rewrite the back-pointers of both entries: the last three statements
of both sift loops. -/
def swapItems (s : TimerSched) (i j : ℤ) : Option TimerSched := do
  let s ← s.swapSlots i j
  let s ← s.setIndex i i
  s.setIndex j j

/-- The child that `siftdown` compares with its parent: the right one, `j2`, if there is one and
the left one, `j1`, is not less. -/
def lesserChild (s : TimerSched) (j1 n : ℤ) : Option ℤ := do
  let j2 := wrap32 (j1 + 1)
  if j2 < n then
    let less ← s.heapItemLess j1 j2
    return if !less then j2 else j1
  else
    return j1

/-- The loop of `siftdown`, with the position at which it ends. -/
def siftdownLoop (n : ℤ) : ℕ → TimerSched → ℤ → Option (TimerSched × ℤ)
  | 0, _, _ => none
  | fuel + 1, s, i => do
    let j1 := wrap32 (2 * i + 1)
    -- `j1 < 0` after `int` overflow
    if j1 ≥ n ∨ j1 < 0 then
      return (s, i)
    let j ← s.lesserChild j1 n
    if !(← s.heapItemLess j i) then
      return (s, i)
    let s ← s.swapItems i j
    siftdownLoop n fuel s j

/-- `bool TimerSched::siftdown(int x, int n)`. -/
def siftdown (s : TimerSched) (x n : ℤ) : Option (TimerSched × Bool) := do
  let (s, i) ← siftdownLoop n (s.heap.length + 1) s x
  return (s, decide (i > x))

/-- The loop of `siftup`. -/
def siftupLoop : ℕ → TimerSched → ℤ → Option TimerSched
  | 0, _, _ => none
  | fuel + 1, s, j => do
    let i := Int.tdiv (wrap32 (j - 1)) 2
    if i = j then
      return s
    if !(← s.heapItemLess j i) then
      return s
    let s ← s.swapItems i j
    siftupLoop fuel s i

/-- `void TimerSched::siftup(int j)`. -/
def siftup (s : TimerSched) (j : ℤ) : Option TimerSched :=
  siftupLoop (s.heap.length + 1) s j

/-! ### The public operations -/

/-- `int TimerSched::AddTimer(int millsec, ITimerEvent* event)`, where `new` returns the address
`a` and `GetTickCount64` returns `tick`. -/
def addTimer (s : TimerSched) (a : Addr) (tick : ℕ) (millsec : ℤ) (event : Option Sink) :
    Option (TimerSched × ℤ) :=
  match s.mem a with
  | some _ => none
  | none => do
    let entry : TimerEntry :=
      { index := s.size, id := s.nextId, expire := wrap64 (tick + millsec), sink := event }
    let s : TimerSched :=
      { nextId := wrap32 (s.nextId + 1)
        heap := s.heap ++ [a]
        ref := update s.ref entry.id (some a)
        mem := update s.mem a (some entry) }
    let s ← s.siftup (wrap32 (s.size - 1))
    let entry ← s.mem a
    return (s, entry.id)

/-- `void TimerSched::CancelTimer(int id)`.  The map holds no null pointers. -/
def cancelTimer (s : TimerSched) (id : ℤ) : Option TimerSched :=
  match s.ref id with
  | none => some s
  | some entry => do
    let n := wrap32 (s.size - 1)
    let i := (← s.mem entry).index
    let s ←
      if i ≠ n then do
        let s ← s.swapSlots i n
        let s ← s.setIndex i i
        let (s, moved) ← s.siftdown i n
        if !moved then s.siftup i else pure s
      else
        pure s
    let s ← s.popBack
    s.delete entry

/-- How one round of the loop of `UpdateTimer` ends. -/
inductive Round
  /-- The loop is left. -/
  | done
  /-- The `continue` for timers created by time events. -/
  | skip
  /-- The entry at `a`, with the contents `e`, was taken off the heap. -/
  | popped (a : Addr) (e : TimerEntry)
  deriving DecidableEq, Repr

/-- One round of the loop of `void TimerSched::UpdateTimer()`, up to the call of `OnTimeout`. -/
def updateRound (s : TimerSched) (now lastId : ℤ) : Option (TimerSched × Round) :=
  match s.heap with
  | [] => some (s, .done)
  | entry :: _ => do
    let e ← s.mem entry
    if now < e.expire then
      return (s, .done)
    -- we don't process timers created by time events in this iteration
    if e.id > lastId then
      return (s, .skip)
    let n := wrap32 (s.size - 1)
    let s ← s.swapSlots 0 n
    let s ← s.setIndex 0 0
    let (s, _) ← s.siftdown 0 n
    let s ← s.popBack
    let e ← s.mem entry
    return ({ s with ref := update s.ref e.id none }, .popped entry e)

end TimerSched

end WinsockTut
