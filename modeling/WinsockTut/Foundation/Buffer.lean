import Mathlib.Data.List.Basic

/-!
# Writing into a buffer

A buffer is a list of cells of a fixed length.  `overwrite l n bs` is the buffer `l` after `bs` has
been written from position `n` on; a buffer that is filled by consecutive writes holds their
concatenation in front (`take_overwrite`).
-/

namespace Buffer

variable {α : Type*} {l bs : List α} {n : ℕ}

/-- The buffer `l` with `bs` written from position `n` on. -/
def overwrite (l : List α) (n : ℕ) (bs : List α) : List α :=
  l.take n ++ bs ++ l.drop (n + bs.length)

/-- The front of a buffer that has been written up to position `n + bs.length`. -/
theorem take_overwrite (h : n + bs.length ≤ l.length) :
    (overwrite l n bs).take (n + bs.length) = l.take n ++ bs := by
  have hlen : (l.take n ++ bs).length = n + bs.length := by
    rw [List.length_append, List.length_take, Nat.min_eq_left (by omega)]
  rw [overwrite, ← hlen, List.take_left]

@[simp] theorem length_overwrite (h : n + bs.length ≤ l.length) :
    (overwrite l n bs).length = l.length := by
  simp only [overwrite, List.length_append, List.length_take, List.length_drop]
  omega

end Buffer
