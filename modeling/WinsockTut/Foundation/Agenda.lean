import Mathlib.Data.Multiset.UnionInter
import Mathlib.Order.Basic

/-!
# Working off an agenda up to a bound

An agenda is a multiset of items with keys.  It is worked off by taking out, one after another, an
item with the least key, as long as this key does not exceed the bound; meanwhile items with keys
above the bound may be added, and items may be dropped.  `WorkedOff` is the account of the items
that such a pass has come by, with one rule for each thing that can happen; when nothing below the
bound is left, it determines exactly what has been taken and what remains.
-/

namespace Agenda

variable {α β : Type*} [Preorder β] {key : α → β} {bound : β}
variable {start added dropped rest rest' : Multiset α} {taken : List α} {x : α}

/-- The account of a pass that began with the items `start`: the items `added` have come since, the
items `dropped` were taken back, the items `taken` were taken out in this order, and the items
`rest` are left. -/
structure WorkedOff (key : α → β) (bound : β) (start added dropped : Multiset α) (taken : List α)
    (rest : Multiset α) : Prop where
  /-- No item is lost, and none comes from nowhere. -/
  account : start + added = (taken : Multiset α) + dropped + rest
  /-- The items were taken in the order of their keys. -/
  sorted : taken.Pairwise fun x y => key x ≤ key y
  /-- What was taken comes before what is left. -/
  least : ∀ x ∈ taken, ∀ y ∈ rest, key x ≤ key y
  /-- Nothing above the bound was taken. -/
  due : ∀ x ∈ taken, key x ≤ bound
  /-- Nothing below the bound was added. -/
  late : ∀ x ∈ added, bound < key x

/-! ### What can happen -/

/-- At the beginning everything is left. -/
theorem WorkedOff.begin (key : α → β) (bound : β) (start : Multiset α) :
    WorkedOff key bound start 0 0 [] start where
  account := by simp
  sorted := List.Pairwise.nil
  least _ hx := absurd hx List.not_mem_nil
  due _ hx := absurd hx List.not_mem_nil
  late _ hx := absurd hx (Multiset.notMem_zero _)

/-- An item is added. -/
theorem WorkedOff.add (h : WorkedOff key bound start added dropped taken rest)
    (hx : bound < key x) :
    WorkedOff key bound start (x ::ₘ added) dropped taken (x ::ₘ rest) where
  account := by rw [Multiset.add_cons, Multiset.add_cons, h.account]
  sorted := h.sorted
  least y hy z hz := by
    rcases Multiset.mem_cons.mp hz with rfl | hz
    · exact ((h.due y hy).trans_lt hx).le
    · exact h.least y hy z hz
  due := h.due
  late y hy := by
    rcases Multiset.mem_cons.mp hy with rfl | hy
    · exact hx
    · exact h.late y hy

/-- An item is dropped. -/
theorem WorkedOff.drop (h : WorkedOff key bound start added dropped taken rest)
    (hrest : rest = x ::ₘ rest') :
    WorkedOff key bound start added (x ::ₘ dropped) taken rest' where
  account := by
    rw [h.account, hrest, Multiset.add_cons, Multiset.add_cons, Multiset.cons_add]
  sorted := h.sorted
  least y hy z hz := h.least y hy z (hrest ▸ Multiset.mem_cons_of_mem hz)
  due := h.due
  late := h.late

/-- An item with the least key is taken. -/
theorem WorkedOff.take (h : WorkedOff key bound start added dropped taken rest)
    (hrest : rest = x ::ₘ rest') (hdue : key x ≤ bound) (hmin : ∀ y ∈ rest', key x ≤ key y) :
    WorkedOff key bound start added dropped (taken ++ [x]) rest' where
  account := by
    have hmove : ((taken ++ [x] : List α) : Multiset α) = x ::ₘ (taken : Multiset α) := by
      rw [← Multiset.coe_add, Multiset.coe_singleton, Multiset.add_comm,
        Multiset.singleton_add]
    rw [h.account, hrest, hmove, Multiset.add_cons, Multiset.cons_add, Multiset.cons_add]
  sorted := by
    refine List.pairwise_append.mpr ⟨h.sorted, List.pairwise_singleton _ x, fun y hy z hz => ?_⟩
    obtain rfl := List.mem_singleton.mp hz
    exact h.least y hy z (hrest ▸ Multiset.mem_cons_self z rest')
  least y hy z hz := by
    rcases List.mem_append.mp hy with hy | hy
    · exact h.least y hy z (hrest ▸ Multiset.mem_cons_of_mem hz)
    · exact List.mem_singleton.mp hy ▸ hmin z hz
  due y hy := by
    rcases List.mem_append.mp hy with hy | hy
    · exact h.due y hy
    · exact List.mem_singleton.mp hy ▸ hdue
  late := h.late

/-! ### What has been taken -/

/-- Everything that was taken was there at the beginning. -/
theorem WorkedOff.mem_start (h : WorkedOff key bound start added dropped taken rest)
    (hx : x ∈ taken) : x ∈ start := by
  have hmem : x ∈ start + added := by
    rw [h.account]
    exact Multiset.mem_add.mpr (Or.inl (Multiset.mem_add.mpr (Or.inl hx)))
  rcases Multiset.mem_add.mp hmem with hs | ha
  · exact hs
  · exact absurd (h.late x ha) (h.due x hx).not_gt

section

variable (h : WorkedOff key bound start added dropped taken rest) (hnd : (start + added).Nodup)

include h hnd

/-- If the items are distinct, none is taken twice. -/
theorem WorkedOff.nodup_taken : taken.Nodup := by
  rw [h.account, Multiset.nodup_add, Multiset.nodup_add] at hnd
  exact Multiset.coe_nodup.mp hnd.1.1

/-- If the items are distinct, what is left was neither taken nor dropped. -/
theorem WorkedOff.not_mem_of_mem_rest (hx : x ∈ rest) : x ∉ taken ∧ x ∉ dropped := by
  rw [h.account, Multiset.nodup_add] at hnd
  have hdisj : x ∉ (taken : Multiset α) + dropped := fun hmem =>
    Multiset.disjoint_left.mp hnd.2.2 hmem hx
  rw [Multiset.mem_add, not_or] at hdisj
  exact hdisj

/-- If the items are distinct, what was taken was not dropped. -/
theorem WorkedOff.not_mem_dropped (hx : x ∈ taken) : x ∉ dropped := by
  rw [h.account, Multiset.nodup_add, Multiset.nodup_add] at hnd
  exact fun hmem => Multiset.disjoint_left.mp hnd.1.2.2 hx hmem

/-- If the items are distinct, what is left is what was there or was added, and was neither taken
nor dropped. -/
theorem WorkedOff.mem_rest_iff :
    x ∈ rest ↔ (x ∈ start ∧ x ∉ taken ∧ x ∉ dropped) ∨ (x ∈ added ∧ x ∉ dropped) := by
  have hmem : x ∈ start + added ↔ x ∈ (taken : Multiset α) + dropped + rest := by rw [h.account]
  simp only [Multiset.mem_add, Multiset.mem_coe] at hmem
  constructor
  · intro hx
    obtain ⟨htaken, hdropped⟩ := h.not_mem_of_mem_rest hnd hx
    exact (hmem.mpr (Or.inr hx)).imp (fun hs => ⟨hs, htaken, hdropped⟩) fun ha => ⟨ha, hdropped⟩
  · rintro (⟨hs, htaken, hdropped⟩ | ⟨ha, hdropped⟩)
    · rcases hmem.mp (Or.inl hs) with (ht | hd) | hr
      · exact absurd ht htaken
      · exact absurd hd hdropped
      · exact hr
    · rcases hmem.mp (Or.inr ha) with (ht | hd) | hr
      · exact absurd (h.late x ha) (h.due x ht).not_gt
      · exact absurd hd hdropped
      · exact hr

/-- **When nothing below the bound is left**, exactly the items below the bound have been taken that
were there at the beginning and were not dropped. -/
theorem WorkedOff.mem_taken_iff (hrest : ∀ y ∈ rest, bound < key y) :
    x ∈ taken ↔ x ∈ start ∧ key x ≤ bound ∧ x ∉ dropped := by
  constructor
  · intro hx
    exact ⟨h.mem_start hx, h.due x hx, h.not_mem_dropped hnd hx⟩
  · rintro ⟨hs, hdue, hdropped⟩
    by_contra htaken
    have hx : x ∈ rest := (h.mem_rest_iff hnd).mpr (Or.inl ⟨hs, htaken, hdropped⟩)
    exact absurd (hrest x hx) hdue.not_gt

end

end Agenda
