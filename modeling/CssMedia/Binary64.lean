/-!
# Binary floating point numbers of 64 bits

The finite magnitudes are numbered upward from zero. Counted in the smallest
magnitude, the one with number `i` is `units i`, and numbers past the last
finite one go on in the same pattern.
-/

namespace CssMedia

namespace Binary64

def finiteCount : Nat := 2047 * Nat.pow 2 52

end Binary64

inductive Binary64 where
  | finite (negative : Bool) (index : Fin Binary64.finiteCount)
  | infinity (negative : Bool)
  | nan
deriving DecidableEq

namespace Binary64

def unitsPerOne : Nat := Nat.pow 2 1074

def significand (index : Nat) : Nat :=
  if index < Nat.pow 2 52 then index else Nat.pow 2 52 + index % Nat.pow 2 52

def scale (index : Nat) : Nat := index / Nat.pow 2 52 - 1

def units (index : Nat) : Nat := significand index * Nat.pow 2 (scale index)

theorem finiteCount_pos : 0 < finiteCount := by decide

def zero : Binary64 := .finite false ⟨0, finiteCount_pos⟩

/-- The magnitude numbered `index`, cut off at the largest finite one; a zero has no sign. -/
def clamped (negative : Bool) (index : Nat) : Binary64 :=
  .finite (negative && index != 0) ⟨min index (finiteCount - 1), by have := finiteCount_pos; omega⟩

/-- The magnitude numbered `index`, or infinity past the last finite one. -/
def ofIndex (negative : Bool) (index : Nat) : Binary64 :=
  if h : index < finiteCount then .finite negative ⟨index, h⟩ else .infinity negative

/-- Reads the interchange form: a sign bit, then the number of the magnitude. -/
def ofBits (bits : UInt64) : Binary64 :=
  let index := bits.toNat % Nat.pow 2 63
  if index ≤ finiteCount then ofIndex (Nat.pow 2 63 ≤ bits.toNat) index else .nan

/-! ## Tests -/

def isPositive : Binary64 → Bool
  | .finite negative index => !negative && index.val != 0
  | .infinity negative => !negative
  | .nan => false

def isWhole : Binary64 → Bool
  | .finite _ index => units index.val % unitsPerOne == 0
  | _ => false

/-- Equality of numbers: both zeros are one number, and NaN equals nothing. -/
def equals : Binary64 → Binary64 → Bool
  | .finite s i, .finite t j => i == j && (s == t || i.val == 0)
  | .infinity s, .infinity t => s == t
  | _, _ => false

end Binary64

end CssMedia
