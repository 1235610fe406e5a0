import Mathlib.Data.Nat.Basic
import Mathlib.Order.Lattice
import Mathlib.Order.Nat
import Mathlib.Tactic.Common

/-!
# Heap order on an array of keys

A binary heap stored in an array is seen here as a function `k : ℕ → α` from positions to keys,
of which the first `n` positions are in use; the children of `i` are `2 * i + 1` and `2 * i + 2`.

Both sifting directions work on an array that is in order except around one position `x`
(`ExceptAt`): the pairs away from `x` are in order, and the parent of `x` is at most the children
of `x`.  Exchanging `x` with its least child, or with its parent, moves the exception there
(`ExceptAt.swap_down`, `ExceptAt.swap_up`), and an exception that is in order with its parent and
with its children is none (`ExceptAt.ordered`).
-/

namespace BinHeap

variable {α : Type*} [LinearOrder α] {k k' : ℕ → α} {n x j i : ℕ}

/-- The parent of position `i`. -/
def parent (i : ℕ) : ℕ := (i - 1) / 2

/-- The first `n` keys are in heap order. -/
def Ordered (k : ℕ → α) (n : ℕ) : Prop := ∀ i, 0 < i → i < n → k (parent i) ≤ k i

/-- The first `n` keys are in heap order except between `x` and its neighbours, and the parent of
`x` is at most the children of `x`. -/
structure ExceptAt (k : ℕ → α) (n x : ℕ) : Prop where
  /-- Pairs that `x` does not belong to are in order. -/
  away : ∀ i, 0 < i → i < n → i ≠ x → parent i ≠ x → k (parent i) ≤ k i
  /-- The parent of `x` is in order with the children of `x`. -/
  bridge : 0 < x → ∀ i, 0 < i → i < n → parent i = x → k (parent x) ≤ k i

/-- Position `x` is in order with its parent, if it has one. -/
def ParentLe (k : ℕ → α) (x : ℕ) : Prop := 0 < x → k (parent x) ≤ k x

/-- Position `x` is in order with its children below `n`. -/
def LeChildren (k : ℕ → α) (n x : ℕ) : Prop := ∀ i, 0 < i → i < n → parent i = x → k x ≤ k i

/-- `k'` arises from `k` by exchanging the keys at `x` and `j`. -/
structure Swapped (k k' : ℕ → α) (x j : ℕ) : Prop where
  left : k' x = k j
  right : k' j = k x
  other : ∀ i, i ≠ x → i ≠ j → k' i = k i

/-! ### Parents and children -/

theorem parent_lt (h : 0 < i) : parent i < i := by
  unfold parent; omega

theorem parent_ne (h : 0 < i) : parent i ≠ i := (parent_lt h).ne

/-- The positions with parent `x` are its two children. -/
theorem parent_eq_iff (h : 0 < i) : parent i = x ↔ i = 2 * x + 1 ∨ i = 2 * x + 2 := by
  unfold parent; omega

@[simp] theorem parent_left (x : ℕ) : parent (2 * x + 1) = x := by
  unfold parent; omega

@[simp] theorem parent_right (x : ℕ) : parent (2 * x + 1 + 1) = x := by
  unfold parent; omega

/-! ### Order and exceptions -/

/-- An exception in order with its parent and its children is none. -/
theorem ExceptAt.ordered (h : ExceptAt k n x) (hp : ParentLe k x) (hc : LeChildren k n x) :
    Ordered k n := by
  intro i hi hn
  by_cases hix : i = x
  · subst hix
    exact hp hi
  · by_cases hpx : parent i = x
    · rw [hpx]
      exact hc i hi hn hpx
    · exact h.away i hi hn hix hpx

/-- A position without children below `n` is in order with its children. -/
theorem leChildren_of_leaf (h : n ≤ 2 * x + 1) : LeChildren k n x := by
  intro i hi hn hp
  rcases (parent_eq_iff hi).mp hp with rfl | rfl <;> omega

/-- A shorter array of keys of a heap is a heap. -/
theorem Ordered.mono {m : ℕ} (h : Ordered k n) (hm : m ≤ n) : Ordered k m :=
  fun i hi hn => h i hi (hn.trans_le hm)

/-- Heap order only depends on the keys in use. -/
theorem Ordered.congr (h : Ordered k n) (heq : ∀ i, i < n → k' i = k i) : Ordered k' n := by
  intro i hi hn
  rw [heq i hn, heq _ ((parent_lt hi).trans hn)]
  exact h i hi hn

/-- So does an exception to it. -/
theorem ExceptAt.congr (h : ExceptAt k n x) (hx : x < n) (heq : ∀ i, i < n → k' i = k i) :
    ExceptAt k' n x where
  away i hi hn hix hpx := by
    rw [heq i hn, heq _ ((parent_lt hi).trans hn)]
    exact h.away i hi hn hix hpx
  bridge hx0 i hi hn hp := by
    rw [heq i hn, heq _ ((parent_lt hx0).trans hx)]
    exact h.bridge hx0 i hi hn hp

theorem LeChildren.congr (h : LeChildren k n x) (hx : x < n) (heq : ∀ i, i < n → k' i = k i) :
    LeChildren k' n x := by
  intro i hi hn hp
  rw [heq x hx, heq i hn]
  exact h i hi hn hp

/-- The root of a heap has the least key. -/
theorem Ordered.root_le (h : Ordered k n) (hn : i < n) : k 0 ≤ k i := by
  -- the path from `i` to the root
  induction i using Nat.strong_induction_on with
  | _ i ih =>
    rcases Nat.eq_zero_or_pos i with rfl | hi
    · exact le_rfl
    · have hlt : parent i < i := parent_lt hi
      exact (ih (parent i) hlt (hlt.trans hn)).trans (h i hi hn)

/-- Overwriting the key at `x` of a heap gives a heap except at `x`. -/
theorem Ordered.exceptAt_of_eq (h : Ordered k n) (hx : x < n)
    (heq : ∀ i, i < n → i ≠ x → k' i = k i) : ExceptAt k' n x where
  away i hi hn hix hpx := by
    rw [heq i hn hix, heq _ ((parent_lt hi).trans hn) hpx]
    exact h i hi hn
  bridge hx0 i hi hn hp := by
    have hxi : x < i := hp ▸ parent_lt hi
    rw [heq i hn hxi.ne', heq _ ((parent_lt hx0).trans hx) (parent_ne hx0)]
    exact (h x hx0 hx).trans (hp ▸ h i hi hn)

/-! ### Exchanging neighbours -/

/-- Exchanging the exception with its least child, when the child is smaller, moves the exception
to the child, which is then in order with its parent. -/
theorem ExceptAt.swap_down (h : ExceptAt k n x) (hs : Swapped k k' x j) (hj : 0 < j) (hjn : j < n)
    (hpj : parent j = x) (hmin : ∀ i, 0 < i → i < n → parent i = x → k j ≤ k i)
    (hlt : k j < k x) : ExceptAt k' n j ∧ ParentLe k' j := by
  have hxj : x < j := hpj ▸ parent_lt hj
  refine ⟨⟨fun i hi hn hij hpi => ?_, fun _ i hi hn hpi => ?_⟩, fun _ => ?_⟩
  · by_cases hix : i = x
    · -- the pair of `x` and its parent: the new key at `x` is the one of the child `j`
      subst hix
      rw [hs.left, hs.other _ (parent_ne hi) hpi]
      exact h.bridge hi j hj hjn hpj
    · rw [hs.other i hix hij]
      by_cases hpx : parent i = x
      · rw [hpx, hs.left]
        exact hmin i hi hn hpx
      · rw [hs.other _ hpx hpi]
        exact h.away i hi hn hix hpx
  · have hji : j < i := hpi ▸ parent_lt hi
    rw [hpj, hs.left, hs.other i (hxj.trans hji).ne' hji.ne']
    have := h.away i hi hn (hxj.trans hji).ne' (by rw [hpi]; exact hxj.ne')
    rwa [hpi] at this
  · rw [hpj, hs.left, hs.right]
    exact hlt.le

/-- Exchanging the exception with its parent, when the parent is larger, moves the exception to
the parent, which is then in order with its children. -/
theorem ExceptAt.swap_up (h : ExceptAt k n j) (hs : Swapped k k' (parent j) j) (hj : 0 < j)
    (hjn : j < n) (hlt : k j < k (parent j)) :
    ExceptAt k' n (parent j) ∧ LeChildren k' n (parent j) := by
  have hpj : parent j < j := parent_lt hj
  have hchild : ∀ i, 0 < i → i < n → i ≠ j → parent i = parent j → k (parent j) ≤ k i := by
    intro i hi hn hij hpi
    have := h.away i hi hn hij (by rw [hpi]; exact hpj.ne)
    rwa [hpi] at this
  refine ⟨⟨fun i hi hn hip hpi => ?_, fun hp0 i hi hn hpi => ?_⟩, fun i hi hn hpi => ?_⟩
  · by_cases hij : i = j
    · exact absurd (congrArg parent hij) hpi
    · rw [hs.other i hip hij]
      by_cases hpij : parent i = j
      · rw [hpij, hs.right]
        exact h.bridge hj i hi hn hpij
      · rw [hs.other _ hpi hpij]
        exact h.away i hi hn hij hpij
  · have hpp : parent (parent j) < parent j := parent_lt hp0
    have hup : k (parent (parent j)) ≤ k (parent j) :=
      h.away (parent j) hp0 (hpj.trans hjn) hpj.ne (hpp.trans hpj).ne
    rw [hs.other _ hpp.ne (hpp.trans hpj).ne]
    by_cases hij : i = j
    · subst hij
      rw [hs.right]
      exact hup
    · have hip : i ≠ parent j := by
        rintro rfl
        exact hpp.ne hpi
      rw [hs.other i hip hij]
      exact hup.trans (hchild i hi hn hij hpi)
  · rw [hs.left]
    by_cases hij : i = j
    · subst hij
      rw [hs.right]
      exact hlt.le
    · have hip : i ≠ parent j := by
        rintro rfl
        exact (parent_lt hi).ne hpi
      rw [hs.other i hip hij]
      exact hlt.le.trans (hchild i hi hn hij hpi)

end BinHeap
