import Mathlib.Order.Basic

/-!
# Sweeps

A sweep goes through the positions of an order, from the first on, and visits a position if it
is due at the moment it comes there.  Meanwhile positions may cease to be due, and others that are
still ahead may become so.  `Swept` is the account of a sweep, with one rule for each thing that can
happen; at the end it says that every position that is still due has been visited, and none twice.
-/

namespace Sweep

variable {P : Type*} [PartialOrder P] {due due' passed : P → Prop} {visited : List P} {p q : P}

/-- The account of a sweep that has gone through the positions `passed`. -/
structure Swept (due passed : P → Prop) (visited : List P) : Prop where
  /-- The positions were visited in order, each once. -/
  sorted : visited.Pairwise (· < ·)
  /-- Only positions that have been passed were visited. -/
  behind : ∀ p ∈ visited, passed p
  /-- None that is still due was left out. -/
  complete : ∀ p, passed p → due p → p ∈ visited

theorem Swept.begin (due : P → Prop) : Swept due (fun _ => False) [] where
  sorted := List.Pairwise.nil
  behind _ hp := absurd hp List.not_mem_nil
  complete _ hp := hp.elim

/-- The next position that is due is visited. -/
theorem Swept.visit (h : Swept due passed visited) (hahead : ∀ q, passed q → q < p)
    (hskip : ∀ q < p, ¬ passed q → ¬ due q) : Swept due (· ≤ p) (visited ++ [p]) where
  sorted := by
    refine List.pairwise_append.mpr ⟨h.sorted, List.pairwise_singleton _ p, fun q hq r hr => ?_⟩
    obtain rfl := List.mem_singleton.mp hr
    exact hahead q (h.behind q hq)
  behind q hq := by
    rcases List.mem_append.mp hq with hq | hq
    · exact (hahead q (h.behind q hq)).le
    · exact (List.mem_singleton.mp hq).le
  complete q hle hdue := by
    rcases hle.lt_or_eq with hlt | rfl
    · by_cases hpassed : passed q
      · exact List.mem_append_left [p] (h.complete q hpassed hdue)
      · exact absurd hdue (hskip q hlt hpassed)
    · exact List.mem_append_right visited (List.mem_singleton_self q)

/-- Nothing behind the cursor becomes due. -/
theorem Swept.of_imp (h : Swept due passed visited) (himp : ∀ p, passed p → due' p → due p) :
    Swept due' passed visited where
  sorted := h.sorted
  behind := h.behind
  complete p hp hdue := h.complete p hp (himp p hp hdue)

/-- Nothing ahead is due: the sweep is over. -/
theorem Swept.finish (h : Swept due passed visited) (hskip : ∀ p, ¬ passed p → ¬ due p) (p : P)
    (hdue : due p) : p ∈ visited := by
  by_cases hp : passed p
  · exact h.complete p hp hdue
  · exact absurd hdue (hskip p hp)

end Sweep
