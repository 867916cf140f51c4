import CssMedia.Binary64.Round

/-!
# Shortest decimals

`shortest` gives the decimal with the fewest digits among those that round to a
magnitude, and of these the one nearest to it. It walks down the grids of the powers
of ten: a grid with a point in the rounding interval has one beside the magnitude.
-/

namespace CssMedia.Binary64

/-- Where a magnitude in the middle of two decimals goes. -/
inductive Tie where
  | up
  | even
deriving DecidableEq, Repr

def Tie.roundsUp : Tie → Nat → Bool
  | .up, _ => true
  | .even, digits => digits % 2 == 1

/-- A magnitude and the ends of its rounding interval, counted in `1 / unit` of a grid step. -/
structure Interval where
  low : Nat
  value : Nat
  high : Nat
  unit : Nat
  closed : Bool

namespace Interval

/-- The ends are halfway to the neighbours. They round to the even one of two magnitudes. -/
def around (index top : Nat) : Interval where
  low := units (index - 1) + units index
  value := 2 * units index
  high := units index + units (index + 1)
  unit := 2 * unitsPerOne * Nat.pow 10 top
  closed := index % 2 == 0

def holds (i : Interval) (digits : Nat) : Bool :=
  let x := digits * i.unit
  (i.low < x && x < i.high) || (i.closed && (x == i.low || x == i.high))

def finer (i : Interval) : Interval :=
  { i with low := 10 * i.low, value := 10 * i.value, high := 10 * i.high }

/-- The grid point of the interval that is nearest to the value, if there is one. -/
def nearestPoint (tie : Tie) (i : Interval) : Option Nat :=
  let below := i.value / i.unit
  let middle := (2 * below + 1) * i.unit
  match i.holds below, i.holds (below + 1) with
  | true, true =>
    if 2 * i.value < middle then some below
    else if middle < 2 * i.value then some (below + 1)
    else some (if tie.roundsUp below then below + 1 else below)
  | true, false => some below
  | false, true => some (below + 1)
  | false, false => none

/-- On the last grid, `10 ^ (-1074)`, every magnitude is a grid point. -/
def search (tie : Tie) : Nat → Interval → Decimal
  | 0, i => ⟨i.value / i.unit, -1074⟩
  | steps + 1, i =>
    match i.nearestPoint tie with
    | some digits => ⟨digits, steps + 1 - 1074⟩
    | none => search tie steps i.finer

end Interval

def shortest (tie : Tie) (index : Nat) : Decimal :=
  if index = 0 then ⟨0, 0⟩
  else
    let top := (Nat.toDigits 10 (units (index + 1) / unitsPerOne)).length
    (Interval.around index top).search tie (1074 + top)

end CssMedia.Binary64
