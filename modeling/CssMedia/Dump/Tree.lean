import CssMedia.Dump.Lines
import CssMedia.Query

/-!
# Dumps of trees

A line for each node, two blanks deeper than its parent. Names and units stand as they
are, without escapes.
-/

namespace CssMedia.Dump

/-- The text of a number, and its flag where flags are shown. -/
def flagged (flags : Bool) (text : String) (flag : NumberFlag) : String :=
  if flags then text ++ ":" ++ flag.name else text

def value (flags : Bool) : Value → String
  | .number v flag => flagged flags v.text flag
  | .dimension v unit flag => flagged flags (v.text ++ unit) flag
  | .ratio n d => n.text ++ "/" ++ d.text
  | .ident name => name

/-! ## Lines -/

def line (depth : Nat) (words : List String) : String :=
  "".pushn ' ' (2 * depth) ++ " ".intercalate words

def feature (flags : Bool) : Feature → List String
  | .boolean name => ["Boolean", name]
  | .plain name extremum v => ["Value", name] ++ (extremum.map (·.name)).toList ++ [value flags v]
  | .range name left right =>
    ["Range"] ++ left.elim [] (fun b => [value flags b.value, b.comparison.text]) ++ [name] ++
      right.elim [] (fun b => [b.comparison.text, value flags b.value])

def conditionHead (operator : Option Operator) : List String :=
  "Condition" :: (operator.map (·.name)).toList

mutual

def operandLines (flags : Bool) (depth : Nat) : Operand → List String
  | .feature f => [line depth (feature flags f)]
  | .group operator operands =>
    line depth (conditionHead operator) :: operandsLines flags (depth + 1) operands

def operandsLines (flags : Bool) (depth : Nat) : List Operand → List String
  | [] => []
  | o :: os => operandLines flags depth o ++ operandsLines flags depth os

end

def conditionLines (flags : Bool) (depth : Nat) (c : Condition) : List String :=
  operandLines flags depth c.toOperand

def queryLines (flags : Bool) (depth : Nat) (q : Query) : List String :=
  line depth ("Query" :: (q.modifier.map (·.name)).toList ++ [q.mediaType.name]) ::
    q.condition.elim [] (conditionLines flags (depth + 1))

def memberLines (flags : Bool) : Option Query → List String
  | some q => queryLines flags 1 q
  | none => [line 1 ["Invalid"]]

def listLines (flags : Bool) (l : QueryList) : List String :=
  "QueryList" :: l.members.flatMap (memberLines flags)

end CssMedia.Dump
