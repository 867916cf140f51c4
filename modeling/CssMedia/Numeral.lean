import CssMedia.CodePoint
import CssMedia.Binary64.Round
import CssMedia.Binary64.Text

/-!
# Numerals

A numeral is an optional sign, digits with an optional fraction, and an optional
exponent. `Numeral.scan` reads the longest one at the start of a text.
-/

namespace CssMedia

/-- Whether a number was written with a fraction or an exponent. -/
inductive NumberFlag where
  | integer
  | number
deriving DecidableEq, Repr

namespace NumberFlag

def name : NumberFlag → String
  | .integer => "integer"
  | .number => "number"

/-- A text that reads back with the same value and flag. -/
def write : NumberFlag → Binary64 → String
  | .integer, v => v.text
  | .number, v => v.markedText

end NumberFlag

structure Numeral where
  sign : List Char
  whole : List Char
  fraction : List Char
  /-- The letter `e` and the sign of the exponent. -/
  exponentMark : List Char
  exponent : List Char
deriving DecidableEq, Repr

namespace Numeral

/-! ## Reading -/

def scanSign : List Char → List Char
  | '+' :: _ => ['+']
  | '-' :: _ => ['-']
  | _ => []

/-- The digits after a point; a point with none is not part of the numeral. -/
def scanFraction : List Char → List Char
  | '.' :: rest => rest.takeWhile Char.isDigit
  | _ => []

/-- The mark and the digits; both are empty unless there is a digit. -/
def scanExponent : List Char → List Char × List Char
  | c :: rest =>
    let sign := scanSign rest
    let digits := (rest.drop sign.length).takeWhile Char.isDigit
    if (c == 'e' || c == 'E') && digits != [] then (c :: sign, digits) else ([], [])
  | [] => ([], [])

def pointed (fraction : List Char) : List Char :=
  if fraction = [] then [] else '.' :: fraction

def scan (s : List Char) : Numeral :=
  let sign := scanSign s
  let s := s.drop sign.length
  let whole := s.takeWhile Char.isDigit
  let s := s.drop whole.length
  let fraction := scanFraction s
  let (mark, exponent) := scanExponent (s.drop (pointed fraction).length)
  ⟨sign, whole, fraction, mark, exponent⟩

/-! ## What a numeral says -/

def chars (n : Numeral) : List Char :=
  n.sign ++ n.whole ++ pointed n.fraction ++ n.exponentMark ++ n.exponent

def length (n : Numeral) : Nat := n.chars.length

def flag (n : Numeral) : NumberFlag :=
  if n.fraction = [] ∧ n.exponent = [] then .integer else .number

def isNegative (n : Numeral) : Bool := n.sign == ['-']

def decimal (n : Numeral) : Binary64.Decimal where
  coefficient := Nat.ofDigitChars 10 (n.whole ++ n.fraction) 0
  exponent :=
    let e : Nat := Nat.ofDigitChars 10 n.exponent 0
    (if n.exponentMark.contains '-' then -e else e : Int) - n.fraction.length

/-- The nearest finite number; never a negative zero. -/
def value (n : Numeral) : Binary64 := .clamped n.isNegative n.decimal.nearest

end Numeral

/-! ## Numbers written by themselves -/

/-- Reads a whole text as a number; one that is too large is infinite. -/
def Binary64.ofText? (text : String) : Option Binary64 :=
  match text with
  | "inf" => some (.infinity false)
  | "-inf" => some (.infinity true)
  | "NaN" => some .nan
  | _ =>
    let n := Numeral.scan text.toList
    if n.chars = text.toList ∧ n.whole ++ n.fraction ≠ [] then
      some (.ofIndex n.isNegative n.decimal.nearest)
    else none

end CssMedia
