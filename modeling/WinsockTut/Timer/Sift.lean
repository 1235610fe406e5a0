import Mathlib.Data.Int.Order.Basic
import Mathlib.Data.List.Nodup
import WinsockTut.Foundation.BinaryHeap
import WinsockTut.Timer.Sched

/-!
# The sift loops

`siftdown` and `siftup` exchange neighbours of the heap and rewrite the back-pointers of the two
entries.  Everything an exchange can do to the scheduler is stated once, in `Shuffled`: the slots
are permuted, the timers themselves do not change, and every entry that was moved knows a slot it
stands in.  This asks of the heap vector only that its pointers are valid; where they are distinct,
too, the slot an entry knows is the only one it stands in (`Rearranged`).  The order of the keys is
the business of `BinHeap`; `shuffled_siftdown` and `shuffled_siftup` say how the exception to the
heap order travels, and `siftdown_spec` and `siftup_spec` are the same for distinct pointers.
-/

namespace WinsockTut

namespace TimerSched

open BinHeap Word Function

variable {s s' s'' : TimerSched} {a b : Addr} {e : TimerEntry} {n p q x j : ℕ}

/-- The timer stored at an address, without its back-pointer: id, expiry time and sink. -/
def payload (s : TimerSched) (a : Addr) : Option (ℤ × ℤ × Option Sink) :=
  (s.mem a).map fun e => (e.id, e.expire, e.sink)

/-- The expiry time of the entry at position `p`. -/
def key (s : TimerSched) (p : ℕ) : ℤ := (s.item p).elim 0 TimerEntry.expire

/-- The entry at position `p`, if any, is live and its back-pointer is `p`. -/
def IndexedAt (s : TimerSched) (p : ℕ) : Prop :=
  ∀ a, s.heap[p]? = some a → ∃ e, s.mem a = some e ∧ e.index = p

/-- The pointers in the heap vector point to live entries. -/
def Live (s : TimerSched) : Prop := ∀ a ∈ s.heap, ∃ e, s.mem a = some e

/-- The entry at `a` is live, and its back-pointer is the position of a slot that points to it. -/
def KnowsSlot (s : TimerSched) (a : Addr) : Prop :=
  ∃ e, s.mem a = some e ∧ s.slot e.index = some a

/-- The pointers in the heap vector are distinct and point to live entries. -/
structure Distinct (s : TimerSched) : Prop where
  nodup : s.heap.Nodup
  live : ∀ a ∈ s.heap, ∃ e, s.mem a = some e

/-- `s'` arises from `s` by exchanging entries below position `n`. -/
structure Shuffled (n : ℕ) (s s' : TimerSched) : Prop where
  nextId : s'.nextId = s.nextId
  ref : s'.ref = s.ref
  /-- No entry is lost or duplicated. -/
  perm : s'.heap.Perm s.heap
  /-- Positions from `n` on are untouched. -/
  above : ∀ p, n ≤ p → s'.heap[p]? = s.heap[p]?
  /-- No timer changes. -/
  payload : ∀ a, s'.payload a = s.payload a
  /-- Entries outside the heap are untouched. -/
  off : ∀ a, a ∉ s.heap → s'.mem a = s.mem a
  /-- Every entry that was moved, or knew a slot it stands in before, knows one. -/
  knows : ∀ a, (s.KnowsSlot a ∨ ∃ p : ℕ, s'.heap[p]? = some a ∧ s.heap[p]? ≠ some a) →
    s'.KnowsSlot a

/-- `s'` arises from `s` by exchanging entries below position `n`, where no pointer stands in two
slots. -/
structure Rearranged (n : ℕ) (s s' : TimerSched) : Prop where
  nextId : s'.nextId = s.nextId
  ref : s'.ref = s.ref
  /-- No entry is lost or duplicated. -/
  perm : s'.heap.Perm s.heap
  /-- Positions from `n` on are untouched. -/
  above : ∀ p, n ≤ p → s'.heap[p]? = s.heap[p]?
  /-- No timer changes. -/
  payload : ∀ a, s'.payload a = s.payload a
  /-- Entries outside the heap are untouched. -/
  off : ∀ a, a ∉ s.heap → s'.mem a = s.mem a
  /-- Every entry that was moved, or knew its position before, knows its position. -/
  indexed : ∀ p, s.IndexedAt p ∨ s'.heap[p]? ≠ s.heap[p]? → s'.IndexedAt p

/-! ### Access by natural positions -/

@[simp] theorem slot_natCast (s : TimerSched) (p : ℕ) : s.slot p = s.heap[p]? := by
  rw [slot, if_neg (by omega : ¬ (p : ℤ) < 0), Int.toNat_natCast]

@[simp] theorem slot_zero (s : TimerSched) : s.slot 0 = s.heap[0]? := slot_natCast s 0

/-- An access that succeeds is one at a natural position. -/
theorem slot_eq_some {i : ℤ} (h : s.slot i = some a) : ∃ p : ℕ, i = p ∧ s.heap[p]? = some a := by
  unfold slot at h
  by_cases hneg : i < 0
  · rw [if_pos hneg] at h
    cases h
  · rw [if_neg hneg] at h
    exact ⟨i.toNat, by omega, h⟩

theorem item_natCast (s : TimerSched) (p : ℕ) : s.item p = s.heap[p]?.bind s.mem := by
  simp [item]

/-- The key at a position is read off the timer stored there. -/
theorem key_eq_payload (s : TimerSched) (p : ℕ) :
    s.key p = (s.heap[p]?.bind s.payload).elim 0 fun t => t.2.1 := by
  rw [key, item_natCast]
  cases s.heap[p]? with
  | none => rfl
  | some a => cases h : s.mem a <;> simp [payload, h]

/-- An address is live exactly if a timer is stored there. -/
theorem exists_mem_iff_payload : (∃ e, s.mem a = some e) ↔ (s.payload a).isSome := by
  simp [payload, Option.isSome_iff_exists]

/-- The slots of a vector of valid pointers are in use below its length. -/
theorem Live.exists_slot (h : s.Live) (hp : p < s.heap.length) :
    ∃ a e, s.heap[p]? = some a ∧ s.mem a = some e := by
  obtain ⟨e, he⟩ := h _ (List.getElem_mem hp)
  exact ⟨s.heap[p], e, List.getElem?_eq_getElem hp, he⟩

theorem Distinct.exists_slot (h : s.Distinct) (hp : p < s.heap.length) :
    ∃ a e, s.heap[p]? = some a ∧ s.mem a = some e :=
  Live.exists_slot h.live hp

/-- Distinct pointers stand at distinct positions. -/
theorem Distinct.slot_inj (h : s.Distinct) (hp : s.heap[p]? = some a)
    (hq : s.heap[q]? = some a) : p = q :=
  (List.getElem?_inj (List.getElem?_eq_some_iff.mp hp).1 h.nodup).mp (hp.trans hq.symm)

/-- Comparing two positions compares their keys. -/
theorem heapItemLess_eq (h : s.Live) (hp : p < s.heap.length) (hq : q < s.heap.length) :
    s.heapItemLess p q = some (decide (s.key p < s.key q)) := by
  obtain ⟨a, x, ha, hx⟩ := h.exists_slot hp
  obtain ⟨b, y, hb, hy⟩ := h.exists_slot hq
  simp [heapItemLess, key, item_natCast, ha, hb, hx, hy]

theorem setIndex_eq (hp : s.heap[p]? = some a) (ha : s.mem a = some e) (v : ℤ) :
    s.setIndex p v = some { s with mem := update s.mem a (some { e with index := v }) } := by
  simp [setIndex, hp, ha]

theorem swapSlots_eq (hp : s.heap[p]? = some a) (hq : s.heap[q]? = some b) :
    s.swapSlots p q = some { s with heap := (s.heap.set p b).set q a } := by
  simp [swapSlots, hp, hq]

/-- The slots after an exchange. -/
theorem getElem?_swap {l : List Addr} (hp : l[p]? = some a) (hq : l[q]? = some b) (r : ℕ) :
    ((l.set p b).set q a)[r]? = if r = q then some a else if r = p then some b else l[r]? := by
  have hpl := (List.getElem?_eq_some_iff.mp hp).1
  have hql := (List.getElem?_eq_some_iff.mp hq).1
  rw [List.getElem?_set, List.getElem?_set]
  grind

/-- Exchanging two slots permutes the vector. -/
theorem perm_swap {l : List Addr} (hp : l[p]? = some a) (hq : l[q]? = some b) :
    ((l.set p b).set q a).Perm l := by
  obtain ⟨hpl, rfl⟩ := List.getElem?_eq_some_iff.mp hp
  obtain ⟨hql, rfl⟩ := List.getElem?_eq_some_iff.mp hq
  exact List.set_set_perm hpl hql

/-- Rewriting a back-pointer does not change the timers. -/
theorem payload_setIndex (ha : s.mem a = some e) (v : ℤ) (c : Addr) :
    payload { s with mem := update s.mem a (some { e with index := v }) } c = s.payload c := by
  by_cases hc : c = a
  · subst hc
    simp [payload, ha]
  · simp [payload, hc]

/-! ### Exchanges -/

theorem Shuffled.refl (n : ℕ) (s : TimerSched) : Shuffled n s s where
  nextId := rfl
  ref := rfl
  perm := List.Perm.refl _
  above _ _ := rfl
  payload _ := rfl
  off _ _ := rfl
  knows _ h := h.resolve_right fun ⟨_, h, hne⟩ => hne h

theorem Shuffled.trans (h : Shuffled n s s') (h' : Shuffled n s' s'') : Shuffled n s s'' where
  nextId := h'.nextId.trans h.nextId
  ref := h'.ref.trans h.ref
  perm := h'.perm.trans h.perm
  above p hp := (h'.above p hp).trans (h.above p hp)
  payload a := (h'.payload a).trans (h.payload a)
  off a ha := (h'.off a (fun hm => ha (h.perm.mem_iff.mp hm))).trans (h.off a ha)
  knows a ha := by
    rcases ha with hknows | ⟨p, hp, hne⟩
    · exact h'.knows a (Or.inl (h.knows a (Or.inl hknows)))
    · -- the entry got to its slot in the second part, or in the first and stayed there
      by_cases hmid : s'.heap[p]? = some a
      · exact h'.knows a (Or.inl (h.knows a (Or.inr ⟨p, hmid, hne⟩)))
      · exact h'.knows a (Or.inr ⟨p, hp, hmid⟩)

theorem Shuffled.length_eq (h : Shuffled n s s') : s'.heap.length = s.heap.length :=
  h.perm.length_eq

theorem Shuffled.live (h : Shuffled n s s') (hs : s.Live) : s'.Live := by
  intro a ha
  rw [exists_mem_iff_payload, h.payload, ← exists_mem_iff_payload]
  exact hs a (h.perm.mem_iff.mp ha)

theorem Shuffled.distinct (h : Shuffled n s s') (hs : s.Distinct) : s'.Distinct :=
  ⟨h.perm.nodup_iff.mpr hs.nodup, h.live hs.live⟩

/-- A slot known to an entry is a slot of the vector. -/
theorem KnowsSlot.exists_slot (h : s.KnowsSlot a) :
    ∃ (e : TimerEntry) (p : ℕ), s.mem a = some e ∧ e.index = p ∧ s.heap[p]? = some a := by
  obtain ⟨e, he, hslot⟩ := h
  obtain ⟨p, hp, ha⟩ := slot_eq_some hslot
  exact ⟨e, p, he, hp, ha⟩

/-- For distinct pointers the known slot is the position. -/
theorem Distinct.indexedAt_of_knows (h : s.Distinct)
    (hk : ∀ a, s.heap[p]? = some a → s.KnowsSlot a) : s.IndexedAt p := by
  intro a ha
  obtain ⟨e, q, he, heq, hq⟩ := (hk a ha).exists_slot
  exact ⟨e, he, heq.trans (congrArg _ (h.slot_inj hq ha))⟩

/-- Exchanging distinct pointers is a rearrangement. -/
theorem Shuffled.rearranged (h : Shuffled n s s') (hs : s.Distinct) : Rearranged n s s' where
  nextId := h.nextId
  ref := h.ref
  perm := h.perm
  above := h.above
  payload := h.payload
  off := h.off
  indexed p hp := by
    refine (h.distinct hs).indexedAt_of_knows fun a ha => h.knows a ?_
    by_cases hmoved : s.heap[p]? = some a
    · rcases hp with hindexed | hne
      · obtain ⟨e, he, hep⟩ := hindexed a hmoved
        exact Or.inl ⟨e, he, by rw [hep, slot_natCast, hmoved]⟩
      · exact absurd (ha.trans hmoved.symm) hne
    · exact Or.inr ⟨p, ha, hmoved⟩

theorem Rearranged.refl (n : ℕ) (s : TimerSched) : Rearranged n s s where
  nextId := rfl
  ref := rfl
  perm := List.Perm.refl _
  above _ _ := rfl
  payload _ := rfl
  off _ _ := rfl
  indexed _ h := h.resolve_right fun hne => hne rfl

theorem Rearranged.length_eq (h : Rearranged n s s') : s'.heap.length = s.heap.length :=
  h.perm.length_eq

theorem Rearranged.distinct (h : Rearranged n s s') (hs : s.Distinct) : s'.Distinct where
  nodup := h.perm.nodup_iff.mpr hs.nodup
  live a ha := by
    rw [exists_mem_iff_payload, h.payload, ← exists_mem_iff_payload]
    exact hs.live a (h.perm.mem_iff.mp ha)

/-- `s'` arises from `s` by exchanging the slots `p` and `q`, which pointed to `a` and `b`; both
pointers may be the same. -/
structure Exchanged (p q : ℕ) (a b : Addr) (s s' : TimerSched) : Prop where
  nextId : s'.nextId = s.nextId
  ref : s'.ref = s.ref
  heap : s'.heap = (s.heap.set p b).set q a
  payload : ∀ c, s'.payload c = s.payload c
  left : ∃ e, s'.mem a = some e ∧ e.index = q
  right : b ≠ a → ∃ e, s'.mem b = some e ∧ e.index = p
  other : ∀ c, c ≠ a → c ≠ b → s'.mem c = s.mem c

theorem exists_swapItems (hs : s.Live) (ha : s.heap[p]? = some a) (hb : s.heap[q]? = some b)
    (hpq : p ≠ q) : ∃ s', s.swapItems p q = some s' ∧ Exchanged p q a b s s' := by
  obtain ⟨x, hx⟩ := hs a (List.mem_of_getElem? ha)
  obtain ⟨y, hy⟩ := hs b (List.mem_of_getElem? hb)
  have hslot := getElem?_swap ha hb
  let s₁ : TimerSched := { s with heap := (s.heap.set p b).set q a }
  let s₂ : TimerSched := { s₁ with mem := update s.mem b (some { y with index := p }) }
  -- if both slots point to the same entry, it has been written to already
  obtain ⟨z, hz⟩ : ∃ z, s₂.mem a = some z := by
    by_cases hab : a = b
    · exact ⟨_, by rw [hab]; exact update_self b _ s.mem⟩
    · exact ⟨x, (update_of_ne hab _ s.mem).trans hx⟩
  let s₃ : TimerSched := { s₂ with mem := update s₂.mem a (some { z with index := q }) }
  have hrun : s.swapItems p q = some s₃ := by
    have h₁ : s.swapSlots p q = some s₁ := swapSlots_eq ha hb
    have h₂ : s₁.setIndex p p = some s₂ :=
      setIndex_eq (s := s₁) ((hslot p).trans (by simp [hpq])) hy p
    have h₃ : s₂.setIndex q q = some s₃ :=
      setIndex_eq (s := s₂) ((hslot q).trans (by simp)) hz q
    simp [swapItems, h₁, h₂, h₃]
  refine ⟨s₃, hrun, rfl, rfl, rfl, fun c => ?_, ?_, fun hba => ?_, fun c hca hcb => ?_⟩
  · exact (payload_setIndex hz q c).trans (payload_setIndex (s := s₁) hy p c)
  · exact ⟨_, update_self a _ s₂.mem, rfl⟩
  · exact ⟨_, (update_of_ne hba _ s₂.mem).trans (update_self b _ s.mem), rfl⟩
  · exact (update_of_ne hca _ s₂.mem).trans (update_of_ne hcb _ s.mem)

/-- The slots after an exchange. -/
theorem Exchanged.slot (h : Exchanged p q a b s s') (ha : s.heap[p]? = some a)
    (hb : s.heap[q]? = some b) (r : ℕ) :
    s'.heap[r]? = if r = q then some a else if r = p then some b else s.heap[r]? := by
  rw [h.heap]
  exact getElem?_swap ha hb r

theorem Exchanged.knows (h : Exchanged p q a b s s') (ha : s.heap[p]? = some a)
    (hb : s.heap[q]? = some b) (hpq : p ≠ q) {c : Addr}
    (hc : s.KnowsSlot c ∨ ∃ r : ℕ, s'.heap[r]? = some c ∧ s.heap[r]? ≠ some c) :
    s'.KnowsSlot c := by
  have hslot := h.slot ha hb
  by_cases hca : c = a
  · obtain ⟨e, he, hindex⟩ := h.left
    subst hca
    exact ⟨e, he, by rw [hindex, slot_natCast, hslot, if_pos rfl]⟩
  · by_cases hcb : c = b
    · subst hcb
      obtain ⟨e, he, hindex⟩ := h.right hca
      exact ⟨e, he, by rw [hindex, slot_natCast, hslot, if_neg hpq, if_pos rfl]⟩
    · -- any other entry stands where it stood, and keeps its back-pointer
      have hsame : ∀ r : ℕ, s'.heap[r]? = some c ↔ s.heap[r]? = some c := by
        intro r
        rw [hslot]
        split_ifs with hrq hrp
        · simp [hrq, hb, Ne.symm hca, Ne.symm hcb]
        · simp [hrp, ha, Ne.symm hca, Ne.symm hcb]
        · exact Iff.rfl
      rcases hc with hknows | ⟨r, hr, hne⟩
      · obtain ⟨e, r, he, hindex, hr⟩ := hknows.exists_slot
        refine ⟨e, (h.other c hca hcb).trans he, ?_⟩
        rw [hindex, slot_natCast]
        exact (hsame r).mpr hr
      · exact absurd ((hsame r).mp hr) hne

theorem Exchanged.shuffled (h : Exchanged p q a b s s') (ha : s.heap[p]? = some a)
    (hb : s.heap[q]? = some b) (hp : p < n) (hq : q < n) (hpq : p ≠ q) : Shuffled n s s' where
  nextId := h.nextId
  ref := h.ref
  perm := by
    rw [h.heap]
    exact perm_swap ha hb
  above r hr := by
    rw [h.slot ha hb, if_neg (hq.trans_le hr).ne', if_neg (hp.trans_le hr).ne']
  payload := h.payload
  off c hc := h.other c (fun hca => hc (hca ▸ List.mem_of_getElem? ha))
    (fun hcb => hc (hcb ▸ List.mem_of_getElem? hb))
  knows _ hc := h.knows ha hb hpq hc

theorem Exchanged.swapped (h : Exchanged p q a b s s') (ha : s.heap[p]? = some a)
    (hb : s.heap[q]? = some b) (hpq : p ≠ q) : Swapped s.key s'.key p q := by
  have hkey : ∀ r, s'.key r = (s'.heap[r]?.bind s.payload).elim 0 fun t => t.2.1 := by
    intro r
    rw [key_eq_payload, funext h.payload]
  constructor
  · rw [hkey, h.slot ha hb, if_neg hpq, if_pos rfl, key_eq_payload, hb]
  · rw [hkey, h.slot ha hb, if_pos rfl, key_eq_payload, ha]
  · intro r hrp hrq
    rw [hkey, h.slot ha hb, if_neg hrq, if_neg hrp, key_eq_payload]

/-- An exchange below `n` shuffles the slots there, and exchanges the two keys. -/
theorem swapItems_spec (hs : s.Live) (hn : n ≤ s.heap.length) (hp : p < n) (hq : q < n)
    (hpq : p ≠ q) :
    ∃ s', s.swapItems p q = some s' ∧ Shuffled n s s' ∧ Swapped s.key s'.key p q := by
  obtain ⟨a, -, ha, -⟩ := hs.exists_slot (hp.trans_le hn)
  obtain ⟨b, -, hb, -⟩ := hs.exists_slot (hq.trans_le hn)
  obtain ⟨s', hrun, hex⟩ := exists_swapItems hs ha hb hpq
  exact ⟨s', hrun, hex.shuffled ha hb hp hq hpq, hex.swapped ha hb hpq⟩

/-! ### siftdown -/

/-- The position `siftdown` compares with `i`: a child of `i` with a least key. -/
theorem lesserChild_spec (hs : s.Live) (hn : n ≤ s.heap.length) (hmax : n ≤ 2147483647)
    {i : ℕ} (hi : 2 * i + 1 < n) :
    ∃ j : ℕ, s.lesserChild ((2 * i + 1 : ℕ) : ℤ) n = some (j : ℤ) ∧ 0 < j ∧ j < n ∧
      parent j = i ∧ ∀ c, 0 < c → c < n → parent c = i → s.key j ≤ s.key c := by
  have hj2 : wrap32 (((2 * i + 1 : ℕ) : ℤ) + 1) = ((2 * i + 2 : ℕ) : ℤ) := by
    rw [wrap32_of_range] <;> omega
  unfold lesserChild
  simp only [hj2]
  by_cases hr : 2 * i + 2 < n
  · rw [if_pos (by omega), heapItemLess_eq hs (hi.trans_le hn) (hr.trans_le hn)]
    by_cases hless : s.key (2 * i + 1) < s.key (2 * i + 2)
    · refine ⟨2 * i + 1, by simp [hless], by omega, hi, parent_left i, fun c hc hcn hp => ?_⟩
      rcases (parent_eq_iff hc).mp hp with rfl | rfl
      · exact le_rfl
      · exact hless.le
    · refine ⟨2 * i + 2, by simp [hless], by omega, hr, parent_right i, fun c hc hcn hp => ?_⟩
      rcases (parent_eq_iff hc).mp hp with rfl | rfl
      · exact not_lt.mp hless
      · exact le_rfl
  · rw [if_neg (by omega)]
    refine ⟨2 * i + 1, rfl, by omega, hi, parent_left i, fun c hc hcn hp => ?_⟩
    rcases (parent_eq_iff hc).mp hp with rfl | rfl
    · exact le_rfl
    · exact absurd hcn hr

/-- The test of `siftdown` for a leaf, computed in 32-bit integers, is right: the child index
may overflow, but is then negative. -/
theorem isLeaf_iff {i : ℕ} (hin : i < n) (hmax : n ≤ 2147483647) :
    (wrap32 (2 * (i : ℤ) + 1) ≥ n ∨ wrap32 (2 * (i : ℤ) + 1) < 0) ↔ n ≤ 2 * i + 1 := by
  unfold wrap32; omega

/-- A round of `siftdown` at a position in use: it is a leaf exactly if its left child, computed
without overflow, is not below `n`. -/
theorem siftdownLoop_succ {i : ℕ} (hin : i < n) (hmax : n ≤ 2147483647) (fuel : ℕ)
    (s : TimerSched) :
    siftdownLoop n (fuel + 1) s i =
      if n ≤ 2 * i + 1 then some (s, (i : ℤ))
      else (s.lesserChild ((2 * i + 1 : ℕ) : ℤ) n).bind fun j =>
        (s.heapItemLess j i).bind fun less =>
          if less then (s.swapItems i j).bind fun t => siftdownLoop n fuel t j
          else some (s, (i : ℤ)) := by
  rw [siftdownLoop]
  by_cases hleaf : n ≤ 2 * i + 1
  · rw [if_pos ((isLeaf_iff hin hmax).mpr hleaf), if_pos hleaf]
    rfl
  · have hj1 : wrap32 (2 * (i : ℤ) + 1) = ((2 * i + 1 : ℕ) : ℤ) := by
      rw [wrap32_of_range] <;> omega
    rw [if_neg (fun h => hleaf ((isLeaf_iff hin hmax).mp h)), if_neg hleaf, hj1]
    refine congrArg _ (funext fun j => congrArg _ (funext fun less => ?_))
    cases less <;> rfl

/-- The loop of `siftdown` moves the exception from `i` down to some `j`, where it is in order
with its children; if it moved at all, then also with its parent. -/
theorem siftdownLoop_spec (hmax : n ≤ 2147483647) (fuel : ℕ) {s : TimerSched} {i : ℕ}
    (hs : s.Live) (hn : n ≤ s.heap.length) (hi : i < n) (hfuel : n ≤ fuel + i)
    (hexc : ExceptAt s.key n i) :
    ∃ (s' : TimerSched) (j : ℕ), siftdownLoop n fuel s i = some (s', (j : ℤ)) ∧
      Shuffled n s s' ∧ i ≤ j ∧ j < n ∧ ExceptAt s'.key n j ∧ LeChildren s'.key n j ∧
      (j = i → s' = s) ∧ (ParentLe s.key i ∨ i < j → ParentLe s'.key j) := by
  induction fuel generalizing s i with
  | zero => omega
  | succ fuel ih =>
    have hstop : LeChildren s.key n i →
        ∃ (s' : TimerSched) (j : ℕ), some (s, (i : ℤ)) = some (s', (j : ℤ)) ∧
          Shuffled n s s' ∧ i ≤ j ∧ j < n ∧ ExceptAt s'.key n j ∧ LeChildren s'.key n j ∧
          (j = i → s' = s) ∧ (ParentLe s.key i ∨ i < j → ParentLe s'.key j) := fun hc =>
      ⟨s, i, rfl, .refl n s, le_rfl, hi, hexc, hc, fun _ => rfl,
        fun h => h.resolve_right (lt_irrefl i)⟩
    rw [siftdownLoop_succ hi hmax]
    by_cases hleaf : n ≤ 2 * i + 1
    · rw [if_pos hleaf]
      exact hstop (leChildren_of_leaf hleaf)
    · rw [if_neg hleaf]
      obtain ⟨j, hj, hj0, hjn, hpj, hmin⟩ := lesserChild_spec hs hn hmax (i := i) (by omega)
      rw [hj, Option.bind_some, heapItemLess_eq hs (hjn.trans_le hn) (hi.trans_le hn),
        Option.bind_some]
      by_cases hlt : s.key j < s.key i
      · have hij : i < j := hpj ▸ parent_lt hj0
        obtain ⟨t, hrun, hre, hsw⟩ := swapItems_spec hs hn hi hjn hij.ne
        obtain ⟨hexc', hpar⟩ := hexc.swap_down hsw hj0 hjn hpj hmin hlt
        obtain ⟨u, k, hrec, hre', hjk, hk, hexc'', hc, hsame, hpar'⟩ :=
          ih (hre.live hs) (hre.length_eq ▸ hn) hjn (by omega) hexc'
        simp only [hlt, decide_true, if_true, hrun, Option.bind_some]
        exact ⟨u, k, hrec, hre.trans hre', hij.le.trans hjk, hk, hexc'', hc,
          fun hki => absurd (hki ▸ hjk) hij.not_ge, fun _ => hpar' (Or.inl hpar)⟩
      · simp only [hlt, decide_false, Bool.false_eq_true, if_false]
        exact hstop fun c hc hcn hp => (not_lt.mp hlt).trans (hmin c hc hcn hp)

/-- **Specification of `siftdown`.**  From a heap with an exception at `x` it ends in heap order
if it moved anything; otherwise nothing changed and `x` is in order with its children. -/
theorem shuffled_siftdown (hmax : n ≤ 2147483647) (hs : s.Live) (hn : n ≤ s.heap.length)
    (hx : x < n) (hexc : ExceptAt s.key n x) :
    ∃ s' moved, s.siftdown x n = some (s', moved) ∧ Shuffled n s s' ∧
      (moved = true → Ordered s'.key n) ∧
      (moved = false → s' = s ∧ LeChildren s.key n x) := by
  obtain ⟨s', j, hrun, hre, hxj, -, hexc', hc, hsame, hpar⟩ :=
    siftdownLoop_spec hmax (s.heap.length + 1) hs hn hx (by omega) hexc
  refine ⟨s', decide ((j : ℤ) > x), by simp [siftdown, hrun], hre, fun hm => ?_, fun hm => ?_⟩
  · have hlt : x < j := by simpa using hm
    exact hexc'.ordered (hpar (Or.inr hlt)) hc
  · have hjx : j = x := by
      have : j ≤ x := by simpa using hm
      omega
    subst hjx
    obtain rfl := hsame rfl
    exact ⟨rfl, hc⟩

/-- Among distinct pointers `siftdown` rearranges. -/
theorem siftdown_spec (hmax : n ≤ 2147483647) (hs : s.Distinct) (hn : n ≤ s.heap.length)
    (hx : x < n) (hexc : ExceptAt s.key n x) :
    ∃ s' moved, s.siftdown x n = some (s', moved) ∧ Rearranged n s s' ∧
      (moved = true → Ordered s'.key n) ∧
      (moved = false → s' = s ∧ LeChildren s.key n x) := by
  obtain ⟨s', moved, hrun, hre, hord⟩ := shuffled_siftdown hmax hs.live hn hx hexc
  exact ⟨s', moved, hrun, hre.rearranged hs, hord⟩

/-! ### siftup -/

/-- The parent computed by `siftup`; the division of `j - 1 = -1` at the root truncates to zero. -/
theorem parentIndex_eq (hmax : j ≤ 2147483647) :
    Int.tdiv (wrap32 ((j : ℤ) - 1)) 2 = (parent j : ℕ) := by
  rw [wrap32_of_range (by omega) (by omega)]
  rcases Nat.eq_zero_or_pos j with rfl | hj
  · decide
  · rw [Int.tdiv_eq_ediv_of_nonneg (by omega)]
    unfold parent
    omega

/-- **Specification of `siftup`.**  From a heap with an exception at `j` that is in order with its
children, the loop ends in heap order. -/
theorem siftupLoop_spec (hmax : n ≤ 2147483647) (fuel : ℕ) {s : TimerSched} {j : ℕ}
    (hs : s.Live) (hn : n ≤ s.heap.length) (hj : j < n) (hfuel : j < fuel)
    (hexc : ExceptAt s.key n j) (hc : LeChildren s.key n j) :
    ∃ s', siftupLoop fuel s j = some s' ∧ Shuffled n s s' ∧ Ordered s'.key n := by
  induction fuel generalizing s j with
  | zero => omega
  | succ fuel ih =>
    rw [siftupLoop, parentIndex_eq (by omega)]
    by_cases hroot : j = 0
    · subst hroot
      exact ⟨s, rfl, .refl n s, hexc.ordered (fun h => absurd h (lt_irrefl 0)) hc⟩
    · have hj0 : 0 < j := Nat.pos_of_ne_zero hroot
      have hpj : parent j < j := parent_lt hj0
      rw [if_neg (by exact_mod_cast hpj.ne),
        heapItemLess_eq hs (hj.trans_le hn) ((hpj.trans hj).trans_le hn), Option.bind_eq_bind,
        Option.bind_some]
      by_cases hlt : s.key j < s.key (parent j)
      · obtain ⟨t, hrun, hre, hsw⟩ := swapItems_spec hs hn (hpj.trans hj) hj hpj.ne
        obtain ⟨hexc', hc'⟩ := hexc.swap_up hsw hj0 hj hlt
        obtain ⟨u, hrec, hre', hord⟩ :=
          ih (hre.live hs) (hre.length_eq ▸ hn) (hpj.trans hj) (by omega) hexc' hc'
        simp only [hlt, decide_true, Bool.not_true, Bool.false_eq_true, if_false, hrun,
          Option.bind_eq_bind, Option.bind_some]
        exact ⟨u, hrec, hre.trans hre', hord⟩
      · simp only [hlt, decide_false, Bool.not_false, if_true]
        exact ⟨s, rfl, .refl n s, hexc.ordered (fun _ => not_lt.mp hlt) hc⟩

/-- **Specification of `siftup`**, for the function itself. -/
theorem shuffled_siftup (hmax : n ≤ 2147483647) (hs : s.Live) (hn : n ≤ s.heap.length)
    (hj : j < n) (hexc : ExceptAt s.key n j) (hc : LeChildren s.key n j) :
    ∃ s', s.siftup j = some s' ∧ Shuffled n s s' ∧ Ordered s'.key n :=
  siftupLoop_spec hmax (s.heap.length + 1) hs hn hj (by omega) hexc hc

/-- Among distinct pointers `siftup` rearranges. -/
theorem siftup_spec (hmax : n ≤ 2147483647) (hs : s.Distinct) (hn : n ≤ s.heap.length)
    (hj : j < n) (hexc : ExceptAt s.key n j) (hc : LeChildren s.key n j) :
    ∃ s', s.siftup j = some s' ∧ Rearranged n s s' ∧ Ordered s'.key n := by
  obtain ⟨s', hrun, hre, hord⟩ := shuffled_siftup hmax hs.live hn hj hexc hc
  exact ⟨s', hrun, hre.rearranged hs, hord⟩

end TimerSched

end WinsockTut
