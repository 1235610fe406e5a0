import WinsockTut.Timer.Sift

/-!
# What the timer operations do

The representation invariant of the heap, `HeapInvariant`, and one specification for each public
operation: `AddTimer` inserts one entry, `CancelTimer` and a round of `UpdateTimer` take one out.
Both removals move the entry to the last slot (`Detached`), repair the heap in front of it, and
drop the last slot (`Removed`).
-/

namespace WinsockTut

namespace TimerSched

open BinHeap Word Function

variable {s t u : TimerSched} {a : Addr} {e : TimerEntry} {n p : ℕ}

/-- The representation invariant of the heap: every entry expires no earlier than its parent,
knows its position, and occurs only once. -/
structure HeapInvariant (s : TimerSched) : Prop where
  ordered : ∀ i : ℕ, 0 < i → ∀ x y, s.item ((i - 1) / 2 : ℕ) = some x → s.item i = some y →
    x.expire ≤ y.expire
  indexed : ∀ i : ℕ, i < s.heap.length → ∃ e, s.item i = some e ∧ e.index = i
  nodup : s.heap.Nodup

/-! ### The invariant in terms of keys -/

theorem HeapInvariant.indexedAt (h : s.HeapInvariant) (p : ℕ) : s.IndexedAt p := by
  intro a ha
  obtain ⟨e, he, hi⟩ := h.indexed p (List.getElem?_eq_some_iff.mp ha).1
  rw [item_natCast, ha, Option.bind_some] at he
  exact ⟨e, he, hi⟩

theorem HeapInvariant.distinct (h : s.HeapInvariant) : s.Distinct where
  nodup := h.nodup
  live a ha := by
    obtain ⟨p, hp⟩ := List.mem_iff_getElem?.mp ha
    obtain ⟨e, he, -⟩ := h.indexedAt p a hp
    exact ⟨e, he⟩

theorem HeapInvariant.ordered_key (h : s.HeapInvariant) : Ordered s.key s.heap.length := by
  intro i hi hn
  obtain ⟨y, hy, -⟩ := h.indexed i hn
  obtain ⟨x, hx, -⟩ := h.indexed (parent i) ((parent_lt hi).trans hn)
  have := h.ordered i hi x y hx hy
  simpa [key, hx, hy] using this

/-- The invariant from the order of the keys and the back-pointers of all positions. -/
theorem HeapInvariant.of_key (hnd : s.heap.Nodup) (hidx : ∀ p < s.heap.length, s.IndexedAt p)
    (hord : Ordered s.key s.heap.length) : s.HeapInvariant where
  ordered i hi x y hx hy := by
    have hn : i < s.heap.length := by
      by_contra hge
      simp [item_natCast, List.getElem?_eq_none (not_lt.mp hge)] at hy
    have := hord i hi hn
    rwa [key, key, BinHeap.parent, hx, hy] at this
  indexed i hi := by
    obtain ⟨e, he, hei⟩ := hidx i hi _ (List.getElem?_eq_getElem hi)
    exact ⟨e, by rw [item_natCast, List.getElem?_eq_getElem hi, Option.bind_some, he], hei⟩
  nodup := hnd

theorem heapInvariant_init : init.HeapInvariant :=
  .of_key List.nodup_nil (fun _ h => absurd h (Nat.not_lt_zero _))
    fun _ _ h => absurd h (Nat.not_lt_zero _)

/-- `(int)heap_.size()` is the size as long as it fits. -/
theorem size_eq (h : s.heap.length ≤ 2147483647) : s.size = s.heap.length :=
  wrap32_of_range (by omega) (by omega)

/-- The position of the last slot, as the removals compute it. -/
theorem wrap32_size_sub_one (hlen : s.heap.length = n + 1) (hmax : s.heap.length ≤ 2147483647) :
    wrap32 (s.size - 1) = (n : ℤ) := by
  rw [size_eq hmax, hlen, wrap32_of_range] <;> omega

/-! ### Taking an entry out -/

/-- The entry `a` of the heap of `s` has been moved to the last slot, `n`; all slots in front of
it know their positions. -/
structure Detached (n : ℕ) (a : Addr) (s t : TimerSched) : Prop where
  nextId : t.nextId = s.nextId
  ref : t.ref = s.ref
  perm : t.heap.Perm s.heap
  last : t.heap[n]? = some a
  payload : ∀ c, t.payload c = s.payload c
  off : ∀ c, c ∉ s.heap → t.mem c = s.mem c
  indexed : ∀ q < n, t.IndexedAt q

/-- `t` has exactly the timers of `s` in its heap, except for the one at `a`. -/
structure Removed (a : Addr) (s t : TimerSched) : Prop where
  nextId : t.nextId = s.nextId
  inv : t.HeapInvariant
  perm : s.heap.Perm (a :: t.heap)
  payload : ∀ c, c ≠ a → t.payload c = s.payload c
  off : ∀ c, c ∉ s.heap → t.mem c = s.mem c

theorem Detached.distinct (h : Detached n a s t) (hs : s.Distinct) : t.Distinct where
  nodup := h.perm.nodup_iff.mpr hs.nodup
  live c hc := by
    rw [exists_mem_iff_payload, h.payload, ← exists_mem_iff_payload]
    exact hs.live c (h.perm.mem_iff.mp hc)

/-- Repairing the heap in front of the last slot keeps the entry detached. -/
theorem Detached.rearranged (h : Detached n a s t) (hr : Rearranged n t u) :
    Detached n a s u where
  nextId := hr.nextId.trans h.nextId
  ref := hr.ref.trans h.ref
  perm := hr.perm.trans h.perm
  last := (hr.above n le_rfl).trans h.last
  payload c := (hr.payload c).trans (h.payload c)
  off c hc := (hr.off c (fun hm => hc (h.perm.mem_iff.mp hm))).trans (h.off c hc)
  indexed q hq := hr.indexed q (Or.inl (h.indexed q hq))

/-- An entry in the last slot is detached. -/
theorem HeapInvariant.detached (h : s.HeapInvariant) (hp : s.heap[n]? = some a) :
    Detached n a s s :=
  ⟨rfl, rfl, .refl _, hp, fun _ => rfl, fun _ _ => rfl, fun q _ => h.indexedAt q⟩

/-- Exchanging a position with the last slot, and rewriting the back-pointer of the entry that
came from there, detaches the entry and leaves a heap except at that position. -/
theorem HeapInvariant.detach (h : s.HeapInvariant) (hlen : s.heap.length = n + 1)
    (hp : s.heap[p]? = some a) :
    ∃ t t', s.swapSlots p n = some t ∧ t.setIndex p p = some t' ∧ Detached n a s t' ∧
      (p < n → ExceptAt t'.key n p) := by
  have hs := h.distinct
  obtain ⟨b, y, hb, hy⟩ := hs.exists_slot (p := n) (by omega)
  have hslot := getElem?_swap hp hb
  have hpn : p ≤ n := by
    have := (List.getElem?_eq_some_iff.mp hp).1
    omega
  let t : TimerSched := { s with heap := (s.heap.set p b).set n a }
  let t' : TimerSched := { t with mem := update s.mem b (some { y with index := p }) }
  have htp : t.heap[p]? = some b := by
    rcases hpn.eq_or_lt with rfl | hlt
    · exact (hslot p).trans (by rw [if_pos rfl, ← hp, hb])
    · exact (hslot p).trans (by rw [if_neg hlt.ne, if_pos rfl])
  have hset : t.setIndex p p = some t' := setIndex_eq (s := t) htp hy p
  have hpay : ∀ c, t'.payload c = s.payload c := payload_setIndex (s := t) hy p
  have hbelow : ∀ q, q < n → q ≠ p → t'.heap[q]? = s.heap[q]? := fun q hq hqp =>
    (hslot q).trans (by rw [if_neg hq.ne, if_neg hqp])
  refine ⟨t, t', swapSlots_eq hp hb, hset,
    ⟨rfl, rfl, perm_swap hp hb, (hslot n).trans (if_pos rfl), hpay, ?_, ?_⟩, ?_⟩
  · intro c hc
    have hcb : c ≠ b := fun hcb => hc (hcb ▸ List.mem_of_getElem? hb)
    simp [t', hcb]
  · intro q hq c hc
    by_cases hqp : q = p
    · subst hqp
      obtain rfl : b = c := Option.some.inj (htp.symm.trans hc)
      exact ⟨{ y with index := q }, by simp [t'], rfl⟩
    · rw [hbelow q hq hqp] at hc
      have hcb : c ≠ b := fun hcb => hq.ne (hs.slot_inj hc (hcb ▸ hb))
      obtain ⟨z, hz, hzi⟩ := h.indexedAt q c hc
      exact ⟨z, by simp [t', hcb, hz], hzi⟩
  · intro hlt
    refine (h.ordered_key.mono (by omega)).exceptAt_of_eq hlt fun q hq hqp => ?_
    rw [key_eq_payload, key_eq_payload, hbelow q hq hqp, funext hpay]

/-- Dropping the last slot once the slots in front of it are a heap. -/
theorem Detached.popBack (h : Detached n a s t) (hs : s.Distinct)
    (hlen : s.heap.length = n + 1) (hord : Ordered t.key n) :
    ∃ v, t.popBack = some v ∧ v.mem = t.mem ∧ v.ref = s.ref ∧ Removed a s v := by
  have htlen : t.heap.length = n + 1 := h.perm.length_eq.trans hlen
  have hsplit : t.heap = t.heap.dropLast ++ [a] := by
    obtain ⟨hn, ha⟩ := List.getElem?_eq_some_iff.mp h.last
    have hne : t.heap ≠ [] := List.ne_nil_of_length_pos (by omega)
    have hlast : t.heap.getLast hne = a := by
      rw [List.getLast_eq_getElem, ← ha]
      simp [htlen]
    conv_lhs => rw [← List.dropLast_append_getLast hne, hlast]
  have hdl : t.heap.dropLast.length = n := by simp [htlen]
  have hget : ∀ q, q < n → t.heap.dropLast[q]? = t.heap[q]? := by
    intro q hq
    conv_rhs => rw [hsplit]
    rw [List.getElem?_append_left (by omega)]
  let v : TimerSched := { t with heap := t.heap.dropLast }
  refine ⟨v, if_neg (List.ne_nil_of_length_pos (by omega)), rfl, h.ref, h.nextId, ?_, ?_,
    fun c _ => h.payload c, h.off⟩
  · refine .of_key ?_ (fun q hq => ?_) (fun i hi hn => ?_)
    · have hnd : t.heap.Nodup := h.perm.nodup_iff.mpr hs.nodup
      exact hnd.sublist (List.dropLast_sublist _)
    · intro c hc
      rw [show v.heap = t.heap.dropLast from rfl, hget q (hdl ▸ hq)] at hc
      exact h.indexed q (hdl ▸ hq) c hc
    · have hi' : i < n := hdl ▸ hn
      have hkey : ∀ q, q < n → v.key q = t.key q := by
        intro q hq
        rw [key_eq_payload, key_eq_payload, show v.heap = t.heap.dropLast from rfl, hget q hq]
        rfl
      rw [hkey i hi', hkey _ ((parent_lt hi).trans hi')]
      exact hord i hi hi'
  · have hperm : (t.heap.dropLast ++ [a]).Perm s.heap := hsplit ▸ h.perm
    exact hperm.symm.trans (List.perm_append_singleton a _)

/-- An entry taken out of the heap is not in it any more. -/
theorem Removed.not_mem (h : Removed a s t) (hs : s.HeapInvariant) : a ∉ t.heap :=
  (List.nodup_cons.mp (h.perm.nodup_iff.mp hs.nodup)).1

/-- The invariant does not depend on entries outside the heap. -/
theorem HeapInvariant.update_off (h : s.HeapInvariant) (ha : a ∉ s.heap) (x : Option TimerEntry) :
    HeapInvariant { s with mem := update s.mem a x } := by
  have hmem : ∀ p c, s.heap[p]? = some c → update s.mem a x c = s.mem c := fun p c hc =>
    update_of_ne (fun hca : c = a => ha (hca ▸ List.mem_of_getElem? hc)) x s.mem
  refine .of_key h.nodup (fun p _ c hc => ?_) (h.ordered_key.congr fun p hp => ?_)
  · obtain ⟨e, he, hei⟩ := h.indexedAt p c hc
    exact ⟨e, (hmem p c hc).trans he, hei⟩
  · have hp' := List.getElem?_eq_getElem hp
    simp only [key, item_natCast, hp', Option.bind_some, hmem p _ hp']

/-- Deleting an entry that has been taken out. -/
theorem Removed.delete (h : Removed a s t) (hs : s.HeapInvariant) (ha : a ∈ s.heap) :
    Removed a s { t with mem := update t.mem a none } where
  nextId := h.nextId
  inv := h.inv.update_off (h.not_mem hs) none
  perm := h.perm
  payload c hc := by
    rw [← h.payload c hc]
    simp [TimerSched.payload, hc]
  off c hc := by
    have hca : c ≠ a := fun hca => hc (hca ▸ ha)
    rw [← h.off c hc]
    simp [hca]

/-- Dropping the last slot and deleting its entry. -/
theorem Detached.popDelete (h : Detached n a s t) (hs : s.HeapInvariant) (ha : a ∈ s.heap)
    (hlen : s.heap.length = n + 1) (hord : Ordered t.key n) :
    ∃ v, (t.popBack.bind fun t => t.delete a) = some v ∧ Removed a s v ∧ v.ref = s.ref ∧
      v.mem a = none := by
  obtain ⟨v, hpop, hmem, href, hrem⟩ := h.popBack hs.distinct hlen hord
  obtain ⟨x, hx⟩ : ∃ x, t.mem a = some x :=
    (h.distinct hs.distinct).live a (List.mem_of_getElem? h.last)
  exact ⟨{ v with mem := update v.mem a none }, by simp [hpop, TimerSched.delete, hmem, hx],
    hrem.delete hs ha, href, by simp⟩

/-! ### CancelTimer -/

/-- **Specification of `CancelTimer`** for an id whose entry is in the heap: exactly this entry
is taken out, and deleted. -/
theorem cancelTimer_spec (h : s.HeapInvariant) (hmax : s.heap.length ≤ 2147483647) {id : ℤ}
    (hid : s.ref id = some a) (ha : a ∈ s.heap) :
    ∃ v, s.cancelTimer id = some v ∧ Removed a s v ∧ v.ref = s.ref ∧ v.mem a = none := by
  obtain ⟨p, hp⟩ := List.mem_iff_getElem?.mp ha
  obtain ⟨e, he, hep⟩ := h.indexedAt p a hp
  obtain ⟨n, hlen⟩ : ∃ n, s.heap.length = n + 1 :=
    Nat.exists_eq_succ_of_ne_zero (List.length_pos_of_mem ha).ne'
  have hpn : p ≤ n := by
    have := (List.getElem?_eq_some_iff.mp hp).1
    omega
  -- in each case the repaired heap is popped and the entry deleted
  have hfinish : ∀ t, Detached n a s t → Ordered t.key n →
      ∃ v, (t.popBack.bind fun t => t.delete a) = some v ∧
        Removed a s v ∧ v.ref = s.ref ∧ v.mem a = none :=
    fun t hd hord => hd.popDelete h ha hlen hord
  have hm := wrap32_size_sub_one hlen hmax
  unfold cancelTimer
  generalize wrap32 (s.size - 1) = m at hm ⊢
  subst hm
  simp only [hid, he, hep, Option.bind_eq_bind, Option.bind_some]
  by_cases hpn' : p = n
  · subst hpn'
    simp only [ne_eq, not_true_eq_false, if_false, Option.pure_def, Option.bind_some]
    exact hfinish s (h.detached hp) (h.ordered_key.mono (by omega))
  · have hlt : p < n := lt_of_le_of_ne hpn hpn'
    obtain ⟨t, t', hswap, hset, hd, hexc⟩ := h.detach hlen hp
    have hd' := hd.distinct h.distinct
    have hnt : n ≤ t'.heap.length := by
      rw [hd.perm.length_eq]
      omega
    obtain ⟨u, moved, hdown, hre, hmoved, hstill⟩ :=
      siftdown_spec (by omega) hd' hnt hlt (hexc hlt)
    have hne : (p : ℤ) ≠ n := by omega
    rw [if_pos hne, hswap, Option.bind_some, hset, Option.bind_some, hdown, Option.bind_some]
    simp only [Option.pure_def, Option.bind_some]
    cases moved with
    | true => exact hfinish u (hd.rearranged hre) (hmoved rfl)
    | false =>
      -- `siftdown` moved nothing, so only the pair of `p` and its parent can be out of order
      obtain ⟨rfl, hc⟩ := hstill rfl
      obtain ⟨w, hup, hre', hord⟩ := siftup_spec (by omega) hd' hnt hlt (hexc hlt) hc
      simp only [Bool.not_false, if_true, hup, Option.bind_some]
      exact hfinish w (hd.rearranged hre') hord

/-! ### UpdateTimer -/

/-- Taking the root out of a heap with `n + 1` entries. -/
theorem HeapInvariant.popRoot (h : s.HeapInvariant) (hlen : s.heap.length = n + 1)
    (hmax : s.heap.length ≤ 2147483647) (hp : s.heap[0]? = some a) :
    ∃ t t' u moved v, s.swapSlots 0 n = some t ∧ t.setIndex 0 0 = some t' ∧
      t'.siftdown 0 n = some (u, moved) ∧ u.popBack = some v ∧ v.ref = s.ref ∧ Removed a s v ∧
      v.payload a = s.payload a := by
  obtain ⟨t, t', hswap, hset, hd, hexc⟩ := h.detach hlen hp
  have hd' := hd.distinct h.distinct
  have hnt : n ≤ t'.heap.length := by
    rw [hd.perm.length_eq]
    omega
  obtain ⟨u, hre, moved, hdown, hord⟩ : ∃ u, Rearranged n t' u ∧ ∃ moved,
      t'.siftdown 0 n = some (u, moved) ∧ Ordered u.key n := by
    rcases Nat.eq_zero_or_pos n with rfl | hn
    · -- the root was the last entry: `siftdown(0, 0)` finds a leaf at once
      exact ⟨t', .refl 0 t', false, rfl, fun i _ hi => absurd hi (Nat.not_lt_zero i)⟩
    · obtain ⟨u, moved, hdown, hre, hmoved, hstill⟩ :=
        siftdown_spec (by omega) hd' hnt hn (hexc hn)
      refine ⟨u, hre, moved, hdown, ?_⟩
      cases moved with
      | true => exact hmoved rfl
      | false =>
        -- the root has no parent it could be out of order with
        obtain ⟨rfl, hc⟩ := hstill rfl
        exact (hexc hn).ordered (fun h0 => absurd h0 (lt_irrefl 0)) hc
  obtain ⟨v, hpop, hmem, href, hrem⟩ := (hd.rearranged hre).popBack h.distinct hlen hord
  have hpay : v.payload a = s.payload a := by
    rw [payload, hmem]
    exact (hd.rearranged hre).payload a
  exact ⟨t, t', u, moved, v, hswap, hset, hdown, hpop, href, hrem, hpay⟩

/-- **Specification of a round of `UpdateTimer`.**  The loop is left on an empty heap or when the
root is not due; the round is skipped when the root was created by a time event of this pass; in
all other cases exactly the root is taken out, and its id leaves the map. -/
theorem updateRound_cases (h : s.HeapInvariant) (hmax : s.heap.length ≤ 2147483647)
    (now lastId : ℤ) :
    (s.heap = [] ∧ s.updateRound now lastId = some (s, .done)) ∨
    ∃ a e, s.heap[0]? = some a ∧ s.mem a = some e ∧
      ((now < e.expire ∧ s.updateRound now lastId = some (s, .done)) ∨
       (e.expire ≤ now ∧ lastId < e.id ∧ s.updateRound now lastId = some (s, .skip)) ∨
       (e.expire ≤ now ∧ e.id ≤ lastId ∧ ∃ v e', s.updateRound now lastId = some (v, .popped a e') ∧
         Removed a s v ∧ v.ref = update s.ref e.id none ∧ v.mem a = some e' ∧
         e'.id = e.id ∧ e'.expire = e.expire ∧ e'.sink = e.sink)) := by
  cases hheap : s.heap with
  | nil => exact Or.inl ⟨rfl, by simp [updateRound, hheap]⟩
  | cons a rest =>
    right
    have hp : s.heap[0]? = some a := by simp [hheap]
    obtain ⟨e, he, -⟩ := h.indexedAt 0 a hp
    refine ⟨a, e, rfl, he, ?_⟩
    unfold updateRound
    simp only [hheap, he, Option.bind_eq_bind, Option.bind_some]
    by_cases hdue : now < e.expire
    · exact Or.inl ⟨hdue, by simp [hdue]⟩
    · right
      by_cases hskip : e.id > lastId
      · exact Or.inl ⟨not_lt.mp hdue, hskip, by simp [hdue, hskip]⟩
      · refine Or.inr ⟨not_lt.mp hdue, not_lt.mp hskip, ?_⟩
        have hlen : s.heap.length = rest.length + 1 := by simp [hheap]
        generalize rest.length = n at hlen
        obtain ⟨t, t', u, moved, v, hswap, hset, hdown, hpop, href, hrem, hpay⟩ :=
          h.popRoot hlen hmax hp
        simp only [payload, he, Option.map_some, Option.map_eq_some_iff, Prod.mk.injEq] at hpay
        obtain ⟨e', he', hid, hexp, hsink⟩ := hpay
        refine ⟨{ v with ref := update v.ref e'.id none }, e', ?_,
          ⟨hrem.nextId, ⟨hrem.inv.ordered, hrem.inv.indexed, hrem.inv.nodup⟩, hrem.perm,
            hrem.payload, hrem.off⟩, by rw [href, hid], he', hid, hexp, hsink⟩
        simp only [hdue, hskip, if_false, wrap32_size_sub_one hlen hmax, hswap, hset, hdown, hpop,
          he', Option.bind_some, Option.pure_def]

/-! ### AddTimer -/

/-- `t` arises from `s` by adding the timer `x` at the free address `a`. -/
structure Inserted (a : Addr) (x : ℤ × ℤ × Option Sink) (s t : TimerSched) : Prop where
  nextId : t.nextId = wrap32 (s.nextId + 1)
  ref : t.ref = update s.ref x.1 (some a)
  inv : t.HeapInvariant
  perm : t.heap.Perm (a :: s.heap)
  new : t.payload a = some x
  payload : ∀ c, c ≠ a → t.payload c = s.payload c
  off : ∀ c, c ≠ a → c ∉ s.heap → t.mem c = s.mem c

/-- `t` arises from `s` by appending the entry `x` at the address `a` to the heap. -/
structure Appended (a : Addr) (x : TimerEntry) (s t : TimerSched) : Prop where
  heap : t.heap = s.heap ++ [a]
  mem : t.mem = update s.mem a (some x)

section

variable {x : TimerEntry}

theorem Appended.mem_of_ne (h : Appended a x s t) {c : Addr} (hc : c ≠ a) : t.mem c = s.mem c := by
  rw [h.mem, update_of_ne hc]

theorem Appended.mem_self (h : Appended a x s t) : t.mem a = some x := by
  rw [h.mem, update_self]

theorem Appended.getElem? (h : Appended a x s t) {q : ℕ} (hq : q < s.heap.length) :
    t.heap[q]? = s.heap[q]? := by
  rw [h.heap, List.getElem?_append_left hq]

theorem Appended.distinct (h : Appended a x s t) (hs : s.HeapInvariant) (ha : a ∉ s.heap) :
    t.Distinct where
  nodup := by
    rw [h.heap]
    exact (List.perm_append_singleton a s.heap).nodup_iff.mpr (List.nodup_cons.mpr ⟨ha, hs.nodup⟩)
  live c hc := by
    rw [h.heap] at hc
    rcases List.mem_append.mp hc with hc | hc
    · rw [h.mem_of_ne fun hca => ha (hca ▸ hc)]
      exact hs.distinct.live c hc
    · obtain rfl := List.mem_singleton.mp hc
      exact ⟨x, h.mem_self⟩

/-- The new entry knows its position, and the others still do. -/
theorem Appended.indexedAt (h : Appended a x s t) (hs : s.HeapInvariant) (ha : a ∉ s.heap)
    (hx : x.index = s.heap.length) (q : ℕ) : t.IndexedAt q := by
  intro c hc
  by_cases hq : q < s.heap.length
  · rw [h.getElem? hq] at hc
    obtain ⟨e, he, hei⟩ := hs.indexedAt q c hc
    exact ⟨e, by rw [h.mem_of_ne fun hca => ha (hca ▸ List.mem_of_getElem? hc), he], hei⟩
  · have hq' : q = s.heap.length := by
      have := (List.getElem?_eq_some_iff.mp hc).1
      rw [h.heap, List.length_append, List.length_singleton] at this
      omega
    subst hq'
    obtain rfl : a = c := by simpa [h.heap] using hc
    exact ⟨x, h.mem_self, hx⟩

/-- The new entry is a leaf in the last slot, so it is the only exception to the order. -/
theorem Appended.exceptAt (h : Appended a x s t) (hs : s.HeapInvariant) (ha : a ∉ s.heap) :
    ExceptAt t.key t.heap.length s.heap.length := by
  have hlen : t.heap.length = s.heap.length + 1 := by simp [h.heap]
  have hkey : ∀ q, q < s.heap.length → t.key q = s.key q := by
    intro q hq
    rw [key, key, item_natCast, item_natCast, h.getElem? hq]
    rw [List.getElem?_eq_getElem hq, Option.bind_some, Option.bind_some,
      h.mem_of_ne fun hca => ha (hca ▸ List.getElem_mem hq)]
  refine ⟨fun i hi hn hix _ => ?_, fun _ i hi hn hp => ?_⟩
  · have hi' : i < s.heap.length := by omega
    rw [hkey i hi', hkey _ ((parent_lt hi).trans hi')]
    exact hs.ordered_key i hi hi'
  · have := hp ▸ parent_lt hi
    omega

end

/-- **Specification of `AddTimer`.**  It returns the next id, and adds exactly one entry. -/
theorem addTimer_spec (h : s.HeapInvariant) (hmax : s.heap.length < 2147483647)
    (hfree : s.mem a = none) (tick : ℕ) (millsec : ℤ) (event : Option Sink) :
    ∃ t, s.addTimer a tick millsec event = some (t, s.nextId) ∧
      Inserted a (s.nextId, wrap64 (tick + millsec), event) s t := by
  let entry : TimerEntry :=
    { index := s.size, id := s.nextId, expire := wrap64 (tick + millsec), sink := event }
  let t : TimerSched :=
    { nextId := wrap32 (s.nextId + 1)
      heap := s.heap ++ [a]
      ref := update s.ref entry.id (some a)
      mem := update s.mem a (some entry) }
  have ha : a ∉ s.heap := by
    intro hm
    obtain ⟨e, he⟩ := h.distinct.live a hm
    simp [hfree] at he
  have happ : Appended a entry s t := ⟨rfl, rfl⟩
  have hlen : t.heap.length = s.heap.length + 1 := by simp [t]
  have hdist : t.Distinct := happ.distinct h ha
  have hidx : ∀ q, t.IndexedAt q := happ.indexedAt h ha (size_eq hmax.le)
  have hexc : ExceptAt t.key t.heap.length s.heap.length := happ.exceptAt h ha
  obtain ⟨u, hup, hre, hord⟩ := siftup_spec (n := t.heap.length) (j := s.heap.length) (by omega)
    hdist le_rfl (by omega) hexc (leChildren_of_leaf (by omega))
  have hnew : u.payload a = some (s.nextId, wrap64 (tick + millsec), event) := by
    rw [hre.payload]
    simp [payload, t, entry]
  obtain ⟨e, he, hid⟩ : ∃ e, u.mem a = some e ∧ e.id = s.nextId := by
    simp only [payload, Option.map_eq_some_iff, Prod.mk.injEq] at hnew
    obtain ⟨e, he, hid, -⟩ := hnew
    exact ⟨e, he, hid⟩
  refine ⟨u, ?_, hre.nextId, hre.ref, ?_, ?_, hnew, ?_, ?_⟩
  · have hsize : wrap32 (t.size - 1) = (s.heap.length : ℤ) := wrap32_size_sub_one hlen (by omega)
    have hrun : t.siftup (wrap32 (t.size - 1)) = some u := hsize ▸ hup
    unfold addTimer
    simp only [hfree]
    rw [show siftup _ _ = some u from hrun]
    simp [he, hid]
  · exact .of_key (hre.distinct hdist).nodup (fun p _ => hre.indexed p (Or.inl (hidx p)))
      (hre.length_eq.symm ▸ hord)
  · exact hre.perm.trans (List.perm_append_singleton a _)
  · intro c hc
    rw [hre.payload, payload, payload, happ.mem_of_ne hc]
  · intro c hc hm
    rw [hre.off c (by simp [t, hm, hc]), happ.mem_of_ne hc]

end TimerSched

end WinsockTut
