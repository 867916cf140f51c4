import CssMedia.Proofs.Truth
import CssMedia.Simplify
import Mathlib.Data.List.Forall2
import Mathlib.Data.Option.Defs

/-!
# Simplification keeps the meaning

Each rewrite keeps the value of a condition, and so does the pass that applies them.
-/

namespace CssMedia

open Truth (combine)

variable (v : Feature → Truth)

namespace Condition

theorem truth_collapse (c : Condition) : c.collapse.truth v = c.truth v := by
  unfold collapse
  split
  · next operands h₁ h₂ => simp [truth, h₁, h₂, Operand.truths, Operand.truth, combine]
  · rfl

theorem truth_unwrap (c : Condition) : c.unwrap.truth v = c.truth v := by
  unfold unwrap
  split
  · next operand h₁ h₂ => simp [truth, h₁, h₂, Operand.truths, combine]
  · rfl

theorem truth_hoist (c : Condition) : c.hoist.truth v = c.truth v := by
  unfold hoist
  split
  · next operator operands h₁ h₂ =>
    simp [truth, h₁, h₂, Operand.truths, Operand.truth, combine]
  · rfl

end Condition

namespace Operand

/-- What the operands of a run of `outer` come to before its `not`, if it has one. -/
def gather (outer : Option Operator) (operands : List Operand) : Truth :=
  if outer = some .or then Truth.any (truths v operands) else Truth.all (truths v operands)

theorem gather_append (outer : Option Operator) (as bs : List Operand) :
    gather v outer (as ++ bs) =
      if outer = some .or then (gather v outer as).or (gather v outer bs)
      else (gather v outer as).and (gather v outer bs) := by
  unfold gather
  rw [truths_append]
  split
  · exact Truth.any_append _ _
  · exact Truth.all_append _ _

theorem gather_singleton (outer : Option Operator) (operand : Operand) :
    gather v outer [operand] = operand.truth v := by
  unfold gather
  split <;> simp [truths]

theorem combine_truths (outer : Option Operator) (operands : List Operand) :
    combine outer (truths v operands) =
      if outer = some .not then (gather v outer operands).not else gather v outer operands := by
  rcases outer with _ | _ | _ | _ <;> rfl

theorem gather_splice (outer : Option Operator) (operand : Operand) :
    gather v outer (operand.splice outer) = operand.truth v := by
  unfold splice
  split
  · next op operands =>
    split
    · next h =>
      obtain ⟨hop, rfl⟩ := h
      unfold truth
      rw [combine_truths, if_neg]
      rintro ⟨⟩
      exact absurd hop (by decide)
    · exact gather_singleton v outer _
  · exact gather_singleton v outer _

mutual

theorem gather_simplify (outer : Option Operator) :
    ∀ operand : Operand, gather v outer (operand.simplify outer) = operand.truth v
  | .feature f => by
    rw [simplify]
    exact gather_singleton v outer _
  | .group operator operands => by
    rw [simplify, gather_splice, Condition.truth_unwrap, Condition.truth_collapse,
      Condition.truth, truth, combine_truths, combine_truths, gather_simplifyAll operator operands]

theorem gather_simplifyAll (outer : Option Operator) :
    ∀ operands : List Operand,
      gather v outer (simplifyAll outer operands) = gather v outer operands
  | [] => by rw [simplifyAll]
  | operand :: rest => by
    rw [simplifyAll, ← List.singleton_append (l := rest), gather_append, gather_append,
      gather_simplify outer operand, gather_singleton, gather_simplifyAll outer rest]

end

end Operand

theorem Condition.truth_simplify (c : Condition) : c.simplify.truth v = c.truth v := by
  rw [Condition.simplify, truth_hoist, truth_collapse, truth, truth, Operand.combine_truths,
    Operand.combine_truths, Operand.gather_simplifyAll]

theorem Query.conditionTruth_simplify (q : Query) :
    q.simplify.conditionTruth v = q.conditionTruth v := by
  rcases q with ⟨modifier, type, _ | c⟩
  · rfl
  · exact c.truth_simplify v

theorem Query.truth_simplify (device : String) (q : Query) :
    q.simplify.truth v device = q.truth v device := by
  unfold Query.truth
  rw [Query.conditionTruth_simplify]
  rfl

/-! ## All trees -/

/-- Two queries with the same modifier and media type, whose conditions have the same value. -/
def Query.Alike (q r : Query) : Prop :=
  q.modifier = r.modifier ∧ q.mediaType = r.mediaType ∧
    q.condition.map (·.truth v) = r.condition.map (·.truth v) ∧
    ∀ device, q.truth v device = r.truth v device

theorem Query.alike_simplify (q : Query) : q.simplify.Alike v q := by
  refine ⟨rfl, rfl, ?_, fun device => q.truth_simplify v device⟩
  rcases q with ⟨modifier, type, _ | c⟩
  · rfl
  · exact congrArg some (c.truth_simplify v)

/-- No condition changes its value, and a query or a list nothing but its conditions. -/
theorem simplify_keeps_meaning :
    (∀ c : Condition, c.simplify.truth v = c.truth v) ∧
    (∀ q : Query, q.simplify.Alike v q) ∧
    (∀ l : QueryList, List.Forall₂ (Option.Rel (Query.Alike v)) l.simplify.members l.members) := by
  refine ⟨fun c => c.truth_simplify v, fun q => q.alike_simplify v, fun l => ?_⟩
  rw [QueryList.simplify, List.forall₂_map_left_iff, List.forall₂_same]
  rintro (_ | q) -
  · exact .none
  · exact .some (q.alike_simplify v)

end CssMedia
