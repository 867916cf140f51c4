import CssMedia.Query
import CssMedia.Text.Name

/-!
# Canonical text

The text of a tree reads back as that tree, but for invalid members of a list, which
read back as the query that matches no device.
-/

namespace CssMedia

namespace Value

def chars : Value → List Char
  | .number v flag => (flag.write v).toList
  | .dimension v unit _ => v.text.toList ++ Text.unit unit.toList
  | .ratio n d => n.text.toList ++ '/' :: d.text.toList
  | .ident name => Text.name name.toList

def text (v : Value) : String := String.ofList v.chars

end Value

/-! ## Features -/

def Bound.leftChars (b : Bound) : List Char :=
  b.value.chars ++ ' ' :: b.comparison.text.toList ++ [' ']

def Bound.rightChars (b : Bound) : List Char :=
  ' ' :: b.comparison.text.toList ++ ' ' :: b.value.chars

def Extremum.chars (e : Extremum) : List Char := e.name.toList ++ ['-']

namespace Feature

def interior : Feature → List Char
  | .boolean name => Text.name name.toList
  | .plain name extremum value =>
    extremum.elim [] Extremum.chars ++ Text.name name.toList ++ ": ".toList ++ value.chars
  | .range name left right =>
    left.elim [] Bound.leftChars ++ Text.name name.toList ++ right.elim [] Bound.rightChars

def chars (f : Feature) : List Char := '(' :: f.interior ++ [')']

def text (f : Feature) : String := String.ofList f.chars

end Feature

/-! ## Conditions -/

namespace Text

/-- Between two operands. No text gives two operands to `not` or to no operator. -/
def separator : Option Operator → List Char
  | some .and => " and ".toList
  | some .or => " or ".toList
  | some .not | none => " ".toList

def opening : Option Operator → List Char
  | some .not => "not ".toList
  | _ => []

end Text

namespace Operand

open Text (opening separator)

mutual

def chars : Operand → List Char
  | .feature f => f.chars
  | .group operator operands =>
    '(' :: (opening operator ++ run (separator operator) operands) ++ [')']

def run (separator : List Char) : List Operand → List Char
  | [] => []
  | [operand] => operand.chars
  | operand :: rest => operand.chars ++ separator ++ run separator rest

end

end Operand

namespace Condition

def chars (c : Condition) : List Char :=
  Text.opening c.operator ++ Operand.run (Text.separator c.operator) c.operands

def text (c : Condition) : String := String.ofList c.chars

end Condition

/-! ## Queries -/

namespace Query

/-- A query that is a condition alone has no type in its text. -/
def showsType (q : Query) : Bool :=
  q.modifier.isSome || q.mediaType != .all || q.condition.isNone

/-- A condition after `and`, where an `or` needs parentheses around it. -/
def conditionAfterType (c : Condition) : List Char :=
  if c.operator = some .or then '(' :: c.chars ++ [')'] else c.chars

def typeChars (q : Query) : List Char :=
  q.modifier.elim [] (fun m => m.name.toList ++ [' ']) ++ q.mediaType.name.toList

def chars (q : Query) : List Char :=
  match q.condition with
  | none => q.typeChars
  | some c =>
    if q.showsType then q.typeChars ++ " and ".toList ++ conditionAfterType c else c.chars

def text (q : Query) : String := String.ofList q.chars

end Query

namespace QueryList

def memberChars : Option Query → List Char
  | some q => q.chars
  | none => "not all".toList

def chars (l : QueryList) : List Char := List.intercalate ", ".toList (l.members.map memberChars)

def text (l : QueryList) : String := String.ofList l.chars

end QueryList

end CssMedia
