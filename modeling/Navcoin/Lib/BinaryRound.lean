import Mathlib.Data.Int.Log
import Mathlib.Data.Rat.Floor

/-!
# Rounding to binary floating point

The value of a rational number in a binary format with `p` significant bits, rounded to the
nearest and to even on ties.  Exponents are not bounded.
-/

namespace BinaryRound

/-- The nearest integer; halves go to the even one. -/
def nearestEven (x : ℚ) : ℤ :=
  let f := ⌊x⌋
  if x - f < 1 / 2 then f
  else if 1 / 2 < x - f then f + 1
  else if f % 2 = 0 then f else f + 1

/-- The nearest value with `p` significant bits. -/
def roundTo (p : ℕ) (x : ℚ) : ℚ :=
  if x = 0 then 0
  else
    let unit : ℚ := 2 ^ (Int.log 2 |x| + 1 - p)
    nearestEven (x / unit) * unit

/-- `float` -/
def float32 (x : ℚ) : ℚ := roundTo 24 x

/-- `double` -/
def float64 (x : ℚ) : ℚ := roundTo 53 x

example : float32 (2 / 5) = 13421773 / 33554432 := by decide +kernel
example : float32 16777217 = 16777216 := by decide +kernel
example : float32 (-3) = -3 := by decide +kernel

end BinaryRound
