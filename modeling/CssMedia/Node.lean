import CssMedia.Dump.Tree
import CssMedia.Json.Query
import CssMedia.Parse
import CssMedia.Query.Agree
import CssMedia.Text

/-! # Nodes: the trees of every kind -/

namespace CssMedia

/-- What a text is read as. -/
inductive EntryPoint where
  | list
  | query
  | condition
  | feature
deriving DecidableEq, Repr

namespace EntryPoint

def name : EntryPoint → String
  | .list => "list"
  | .query => "query"
  | .condition => "condition"
  | .feature => "feature"

def ofName? : String → Option EntryPoint
  | "list" => some .list
  | "query" => some .query
  | "condition" => some .condition
  | "feature" => some .feature
  | _ => none

end EntryPoint

inductive Node where
  | list (list : QueryList)
  | query (query : Query)
  | condition (condition : Condition)
  | feature (feature : Feature)
  | value (value : Value)

namespace Node

/-- The node, and the errors of invalid members where it is a list. -/
def parse (settings : Settings) (entry : EntryPoint) (text : String) :
    Except ParseError (Node × List ParseError) :=
  match entry with
  | .list => (QueryList.parse settings text).map fun (l, errors) => (.list l, errors)
  | .query => (Query.parse settings text).map fun q => (.query q, [])
  | .condition => (Condition.parse settings text).map fun c => (.condition c, [])
  | .feature => (Feature.parse text).map fun f => (.feature f, [])

/-- The entry point that reads the text of a node; a value has none. -/
def entryPoint? : Node → Option EntryPoint
  | .list _ => some .list
  | .query _ => some .query
  | .condition _ => some .condition
  | .feature _ => some .feature
  | .value _ => none

/-- Only a list, a query and a condition can be simplified. -/
def simplify? : Node → Option Node
  | .list l => some (.list l.simplify)
  | .query q => some (.query q.simplify)
  | .condition c => some (.condition c.simplify)
  | .feature _ | .value _ => none

/-- The operand that a condition or a feature is inside another condition. -/
def operand? : Node → Option Operand
  | .condition c => some c.toOperand
  | .feature f => some (.feature f)
  | .list _ | .query _ | .value _ => none

def ofOperand : Operand → Node
  | .feature f => .feature f
  | .group operator operands => .condition ⟨operator, operands⟩

def agrees : Node → Node → Bool
  | .list l, .list m => l.agrees m
  | .query q, .query r => q.agrees r
  | .condition c, .condition d => c.agrees d
  | .feature f, .feature g => f.agrees g
  | .value v, .value w => v.agrees w
  | _, _ => false

def text : Node → String
  | .list l => l.text
  | .query q => q.text
  | .condition c => c.text
  | .feature f => f.text
  | .value v => v.text

def dump (flags : Bool) : Node → String
  | .list l => Dump.ofLines (Dump.listLines flags l)
  | .query q => Dump.ofLines (Dump.queryLines flags 0 q)
  | .condition c => Dump.ofLines (Dump.conditionLines flags 0 c)
  | .feature f => Dump.ofLines [Dump.line 0 (Dump.feature flags f)]
  | .value v => Dump.ofLines [Dump.value flags v]

def toJson : Node → Json
  | .list l => l.toJson
  | .query q => q.toJson
  | .condition c => c.toJson
  | .feature f => f.toJson
  | .value v => v.toJson

end Node

end CssMedia
