import CssMedia.Query

/-!
# Simplification

Three rewrites that keep what a condition matches: a double negation is undone, a
group of one operand is that operand, and a run inside a run of the same operator
becomes part of it. A root stays a condition, so only a condition takes its place.
-/

namespace CssMedia

namespace Condition

/-- `not (not x)` is `x`. -/
def collapse (c : Condition) : Condition :=
  match c.operator, c.operands with
  | some .not, [.group (some .not) operands] => ⟨none, operands⟩
  | _, _ => c

/-- The operand that a condition is inside another condition. -/
def unwrap (c : Condition) : Operand :=
  match c.operator, c.operands with
  | none, [operand] => operand
  | operator, operands => .group operator operands

/-- The condition that a root is, where it is a group of one condition. -/
def hoist (c : Condition) : Condition :=
  match c.operator, c.operands with
  | none, [.group operator operands] => ⟨operator, operands⟩
  | _, _ => c

end Condition

namespace Operand

/-- The operands that an operand adds to a run of `outer`. -/
def splice (outer : Option Operator) : Operand → List Operand
  | .group (some op) operands =>
    if op.isAssociative ∧ outer = some op then operands else [.group (some op) operands]
  | operand => [operand]

mutual

/-- What one operand of a run of `outer` becomes. -/
def simplify (outer : Option Operator) : Operand → List Operand
  | .feature f => [.feature f]
  | .group operator operands =>
    (Condition.mk operator (simplifyAll operator operands)).collapse.unwrap.splice outer

def simplifyAll (outer : Option Operator) : List Operand → List Operand
  | [] => []
  | operand :: rest => operand.simplify outer ++ simplifyAll outer rest

end

end Operand

def Condition.simplify (c : Condition) : Condition :=
  (Condition.mk c.operator (Operand.simplifyAll c.operator c.operands)).collapse.hoist

def Query.simplify (q : Query) : Query := ⟨q.modifier, q.mediaType, q.condition.map (·.simplify)⟩

def QueryList.simplify (l : QueryList) : QueryList := ⟨l.members.map (·.map (·.simplify))⟩

end CssMedia
