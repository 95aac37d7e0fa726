import Mathlib.Data.Int.Log
import Mathlib.Data.Rat.Floor

/-!
# Rounding to binary64

A finite IEEE 754 binary64 number is `n * 2^k` with `|n| < 2^53` and `k ≥ -1074`: between
`2^e` and `2^(e+1)` the numbers are spaced `2^(e-52)` apart, and below the least normal
number `2^-1022` they are spaced `2^-1074` apart. In the default rounding mode an operation,
and `strtod` reading a decimal, give the number nearest the exact result, the one with an even
`n` on a tie. `round q` is that number for a rational `q ≥ 0` below the overflow threshold.
-/

namespace Binary64

/-- The integer nearest `x`, the even one on a tie. -/
def roundHalfEven (x : ℚ) : ℤ :=
  if 1 < 2 * (x - ⌊x⌋) ∨ (2 * (x - ⌊x⌋) = 1 ∧ ⌊x⌋ % 2 = 1) then ⌊x⌋ + 1 else ⌊x⌋

/-- The exponent of the spacing of the binary64 numbers around `q > 0`: `e - 52` for
`2^e ≤ q < 2^(e+1)`, and `-1074` in the subnormal range. -/
def spacingExp (q : ℚ) : ℤ := max (Int.log 2 q) (-1022) - 52

/-- The binary64 number nearest `q ≥ 0`. -/
def round (q : ℚ) : ℚ := roundHalfEven (q / 2 ^ spacingExp q) * 2 ^ spacingExp q

/-- Whether reading `q ≥ 0` underflows, which glibc's `strtod` reports with `ERANGE`: `q` is
not zero, below the least normal number (tininess detected before rounding) and not a binary64
number. -/
def underflows (q : ℚ) : Bool := decide (0 < q ∧ q < 2 ^ (-1022 : ℤ) ∧ round q ≠ q)

end Binary64
