import CssMedia.Binary64.Shortest

/-! # Decimal texts of numbers -/

namespace CssMedia.Binary64

namespace Decimal

/-- The digits before the point, at least one, and those after it. -/
def digitsAroundPoint (d : Decimal) : List Char × List Char :=
  let whole := Nat.toDigits 10 d.coefficient ++ List.replicate d.exponent.toNat '0'
  let places := (-d.exponent).toNat
  let padded := List.replicate (places + 1 - whole.length) '0' ++ whole
  padded.splitAt (padded.length - places)

def positional (d : Decimal) : String :=
  match d.digitsAroundPoint with
  | (whole, []) => String.ofList whole
  | (whole, fraction) => String.ofList (whole ++ '.' :: fraction)

/-- Positional, with a fraction of zero where there is none. -/
def positionalWithPoint (d : Decimal) : String :=
  match d.digitsAroundPoint with
  | (whole, []) => String.ofList whole ++ ".0"
  | (whole, fraction) => String.ofList (whole ++ '.' :: fraction)

/-- The power of ten of the first digit. -/
def magnitude (d : Decimal) : Int :=
  d.exponent + ((Nat.toDigits 10 d.coefficient).length - 1 : Nat)

/-- The first digit, a point before any others, and `e`. -/
def leadingDigits (d : Decimal) : String :=
  match Nat.toDigits 10 d.coefficient with
  | first :: second :: rest => String.ofList (first :: '.' :: second :: rest) ++ "e"
  | digits => String.ofList digits ++ "e"

/-- A positive exponent has no sign. -/
def scientific (d : Decimal) : String := d.leadingDigits ++ toString d.magnitude

/-- Every exponent has a sign. -/
def scientificSigned (d : Decimal) : String :=
  d.leadingDigits ++ (if 0 ≤ d.magnitude then "+" else "") ++ toString d.magnitude

end Decimal

def withSign (negative : Bool) (text : String) : String :=
  if negative then "-" ++ text else text

/-- Positional, with no fraction for a whole number. -/
def text : Binary64 → String
  | .finite negative index => withSign negative (shortest .up index.val).positional
  | .infinity negative => withSign negative "inf"
  | .nan => "NaN"

/-- Whole numbers keep a mark: `.0` below `10 ^ 16`, from there on an exponent. -/
def markedText : Binary64 → String
  | .finite negative index =>
    if units index.val % unitsPerOne != 0 then
      withSign negative (shortest .up index.val).positional
    else if units index.val < Nat.pow 10 16 * unitsPerOne then
      withSign negative (shortest .up index.val).positionalWithPoint
    else withSign negative (shortest .up index.val).scientific
  | v => v.text

/-- Always with a point or an exponent: positional from `10 ^ (-5)` up to `10 ^ 16`. -/
def jsonText : Binary64 → String
  | .finite negative index =>
    let d := shortest .even index.val
    withSign negative
      (if -5 ≤ d.magnitude ∧ d.magnitude < 16 then d.positionalWithPoint else d.scientificSigned)
  | _ => "null"

end CssMedia.Binary64
