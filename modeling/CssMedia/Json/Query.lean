import CssMedia.Json
import CssMedia.Query

/-! # Trees as JSON: what is missing from a tree has no field -/

namespace CssMedia

namespace Json

def field? (key : String) (value : Option Json) : List (String × Json) :=
  value.elim [] fun value => [(key, value)]

end Json

open Json (field?)

def Value.toJson : Value → Json
  | .number v flag =>
    .object [("type", .string "number"), ("value", .number v), ("flag", .string flag.name)]
  | .dimension v unit flag =>
    .object [("type", .string "dimension"), ("value", .number v), ("unit", .string unit),
      ("flag", .string flag.name)]
  | .ratio n d =>
    .object [("type", .string "ratio"), ("numerator", .number n), ("denominator", .number d)]
  | .ident name => .object [("type", .string "ident"), ("value", .string name)]

def Bound.toJson (b : Bound) : Json :=
  .object [("value", b.value.toJson), ("op", .string b.comparison.text)]

def Feature.toJson : Feature → Json
  | .boolean name => .object [("context", .string "boolean"), ("feature", .string name)]
  | .plain name extremum value =>
    .object ([("context", .string "value"), ("feature", .string name)] ++
      field? "prefix" (extremum.map (.string ·.name)) ++ [("value", value.toJson)])
  | .range name left right =>
    .object [("context", .string "range"), ("feature", .string name),
      ("range",
        .object (field? "left" (left.map (·.toJson)) ++ field? "right" (right.map (·.toJson))))]

def Json.condition (operator : Option Operator) (operands : List Json) : Json :=
  .object (field? "operator" (operator.map (.string ·.name)) ++ [("children", .array operands)])

mutual

def Operand.toJson : Operand → Json
  | .feature f => f.toJson
  | .group operator operands => .condition operator (Operand.allToJson operands)

def Operand.allToJson : List Operand → List Json
  | [] => []
  | o :: os => o.toJson :: Operand.allToJson os

end

def Condition.toJson (c : Condition) : Json := .condition c.operator (Operand.allToJson c.operands)

def Query.toJson (q : Query) : Json :=
  .object (field? "prefix" (q.modifier.map (.string ·.name)) ++
    [("type", .string q.mediaType.name)] ++ field? "condition" (q.condition.map (·.toJson)))

/-- An invalid member is `null`. -/
def QueryList.toJson (l : QueryList) : Json :=
  .array (l.members.map fun q => q.elim .null (·.toJson))

end CssMedia
