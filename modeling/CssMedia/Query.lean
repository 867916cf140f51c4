import CssMedia.Numeral

/-!
# Media queries

A condition holds operands: features and nested conditions. One run of an operator
is one node, so `(a) and (b) and (c)` has three operands and no nesting.
-/

namespace CssMedia

/-! ## Features -/

inductive Value where
  | number (value : Binary64) (flag : NumberFlag)
  | dimension (value : Binary64) (unit : String) (flag : NumberFlag)
  | ratio (numerator denominator : Binary64)
  | ident (name : String)
deriving DecidableEq

/-- Written `min-` or `max-` before the name of a feature. -/
inductive Extremum where
  | min
  | max
deriving DecidableEq, Repr

def Extremum.name : Extremum → String
  | .min => "min"
  | .max => "max"

inductive Direction where
  | less
  | greater
  | equal
deriving DecidableEq, Repr

def Direction.name : Direction → String
  | .less => "less"
  | .greater => "greater"
  | .equal => "equal"

inductive Comparison where
  | less
  | lessOrEqual
  | greater
  | greaterOrEqual
  | equal
deriving DecidableEq, Repr

namespace Comparison

def text : Comparison → String
  | .less => "<"
  | .lessOrEqual => "<="
  | .greater => ">"
  | .greaterOrEqual => ">="
  | .equal => "="

def ofText? : String → Option Comparison
  | "<" => some .less
  | "<=" => some .lessOrEqual
  | ">" => some .greater
  | ">=" => some .greaterOrEqual
  | "=" => some .equal
  | _ => none

def direction : Comparison → Direction
  | .less | .lessOrEqual => .less
  | .greater | .greaterOrEqual => .greater
  | .equal => .equal

end Comparison

structure Bound where
  value : Value
  comparison : Comparison
deriving DecidableEq

inductive Feature where
  /-- The form `(name)`. -/
  | boolean (name : String)
  /-- The form `(name: value)`. -/
  | plain (name : String) (extremum : Option Extremum) (value : Value)
  /-- The form `(value < name < value)`, with either end or both. -/
  | range (name : String) (left right : Option Bound)
deriving DecidableEq

def Feature.name : Feature → String
  | .boolean name | .plain name _ _ | .range name _ _ => name

/-! ## Conditions -/

inductive Operator where
  | and
  | or
  | not
deriving DecidableEq, Repr

namespace Operator

def name : Operator → String
  | .and => "and"
  | .or => "or"
  | .not => "not"

def ofName? : String → Option Operator
  | "and" => some .and
  | "or" => some .or
  | "not" => some .not
  | _ => none

/-- Nested runs of such an operator are one run. -/
def isAssociative : Operator → Bool
  | .and | .or => true
  | .not => false

end Operator

inductive Operand where
  | feature (feature : Feature)
  /-- A condition in parentheses. -/
  | group (operator : Option Operator) (operands : List Operand)

/-- Without an operator it stands for its one operand. -/
structure Condition where
  operator : Option Operator
  operands : List Operand

namespace Condition

def toOperand (c : Condition) : Operand := .group c.operator c.operands

def negation (operand : Operand) : Condition := ⟨some .not, [operand]⟩

def only (operand : Operand) : Condition := ⟨none, [operand]⟩

/-- The one operand, if it is a condition. -/
def single? (c : Condition) : Option Condition :=
  match c.operands with
  | [.group operator operands] => some ⟨operator, operands⟩
  | _ => none

end Condition

/-! ## Queries -/

inductive Modifier where
  | not
  | only
deriving DecidableEq, Repr

def Modifier.name : Modifier → String
  | .not => "not"
  | .only => "only"

inductive MediaType where
  | all
  | screen
  | print
deriving DecidableEq, Repr

namespace MediaType

def name : MediaType → String
  | .all => "all"
  | .screen => "screen"
  | .print => "print"

def ofName? : String → Option MediaType
  | "all" => some .all
  | "screen" => some .screen
  | "print" => some .print
  | _ => none

/-- Old media types that no device has. -/
def neverMatching : List String :=
  ["tty", "tv", "projection", "handheld", "braille", "embossed", "aural", "speech"]

end MediaType

structure Query where
  modifier : Option Modifier
  mediaType : MediaType
  condition : Option Condition

namespace Query

/-- Matches every device. -/
def all : Query := ⟨none, .all, none⟩

/-- Matches no device. -/
def never : Query := ⟨some .not, .all, none⟩

end Query

/-- An invalid member is kept in its place as `none`. -/
structure QueryList where
  members : List (Option Query)

namespace QueryList

def valid (l : QueryList) : List Query := l.members.filterMap id

def hasInvalid (l : QueryList) : Bool := l.members.any Option.isNone

end QueryList

end CssMedia
