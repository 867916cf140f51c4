import CssMedia.Binary64

/-! # Rounding to the nearest magnitude -/

namespace CssMedia.Binary64

/-- The whole number nearest to `n / d`; a tie goes to the even one. -/
def roundHalfEven (n d : Nat) : Nat :=
  let q := n / d
  let r := n % d
  if 2 * r < d then q else if d < 2 * r then q + 1 else q + q % 2

/--
The number of the magnitude nearest to `n / d`. A significand has 53 bits, fewer
near zero, and one that rounds up to 54 bits is the next magnitude in the count.
-/
def nearest (n d : Nat) : Nat :=
  let e := (n * unitsPerOne / d).log2 - 52
  e * Nat.pow 2 52 + roundHalfEven (n * unitsPerOne) (d * Nat.pow 2 e)

/-- The decimal number `coefficient · 10 ^ exponent`. -/
structure Decimal where
  coefficient : Nat
  exponent : Int
deriving DecidableEq, Repr

/--
The number of the magnitude nearest to a decimal number. From `10 ^ 309` on all are
past the finite ones, and up to `10 ^ (-324)` all are nearest to zero; neither power is
written out.
-/
def Decimal.nearest (d : Decimal) : Nat :=
  let digits := (Nat.toDigits 10 d.coefficient).length
  if d.coefficient = 0 then 0
  else if 309 ≤ d.exponent then finiteCount
  else if d.exponent + digits ≤ -324 then 0
  else if 0 ≤ d.exponent then Binary64.nearest (d.coefficient * Nat.pow 10 d.exponent.toNat) 1
  else Binary64.nearest d.coefficient (Nat.pow 10 (-d.exponent).toNat)

end CssMedia.Binary64
