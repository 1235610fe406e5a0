import Mathlib.Data.Int.Basic

/-!
# Fixed-width integers

The signed 32-bit and 64-bit integers of the machine are represented by the integers in their
range; `wrap32` and `wrap64` bring the result of an operation back into it (two's complement).
-/

namespace Word

/-- Two's complement wrap-around of a signed 32-bit integer. -/
def wrap32 (z : ℤ) : ℤ := (z + 2147483648) % 4294967296 - 2147483648

/-- Two's complement wrap-around of a signed 64-bit integer. -/
def wrap64 (z : ℤ) : ℤ := (z + 9223372036854775808) % 18446744073709551616 - 9223372036854775808

/-- Values in the range of a signed 32-bit integer are not changed. -/
theorem wrap32_of_range {z : ℤ} (h : -2147483648 ≤ z) (h' : z < 2147483648) : wrap32 z = z := by
  unfold wrap32; omega

end Word
