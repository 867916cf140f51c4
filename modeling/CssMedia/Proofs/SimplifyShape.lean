import CssMedia.Proofs.SimplifyNormal
import Mathlib.Logic.Relation

/-!
# What simplification does to the shape of trees

Runs keep as many operands as their operator takes. Beyond that simplification only opens
parentheses, so the features stay the same in the same order and no tree gets larger or deeper.
-/

namespace CssMedia

open Operand (featuresAll conditionsAll maxDepth simplifyAll)

/-! ## Operands of a run -/

theorem Operator.Takes.splice {op : Operator} (hop : op.isAssociative) {m n : Nat}
    (hm : Takes (some op) m) (hn : Takes (some op) (n + 1)) : Takes (some op) (m + n) := by
  cases op <;> simp only [Takes, isAssociative, Bool.false_eq_true] at hm hn hop ⊢ <;> omega

theorem Condition.IsShaped.collapse {c : Condition} (h : c.IsShaped) : c.collapse.IsShaped := by
  unfold Condition.collapse
  split
  · next inner _ hone =>
    obtain ⟨-, hall⟩ := h
    rw [hone] at hall
    exact ⟨hall.1.1, hall.1.2⟩
  · exact h

theorem Condition.IsShaped.unwrap {c : Condition} (h : c.IsShaped) : c.unwrap.IsShaped := by
  unfold Condition.unwrap
  split
  · next operand _ hone =>
    obtain ⟨-, hall⟩ := h
    rw [hone] at hall
    exact hall.1
  · exact h

theorem Condition.IsShaped.hoist {c : Condition} (h : c.IsShaped) : c.hoist.IsShaped := by
  unfold Condition.hoist
  split
  · next operator operands _ hone =>
    obtain ⟨-, hall⟩ := h
    rw [hone] at hall
    exact hall.1
  · exact h

theorem Operand.IsShaped.splice {outer : Option Operator} {operand : Operand} (h : operand.IsShaped)
    {n : Nat} (hn : Operator.Takes outer (n + 1)) :
    Operator.Takes outer ((operand.splice outer).length + n) ∧
      AllShaped (operand.splice outer) := by
  rcases splice_cases outer operand with ⟨op, inner, hop, rfl, rfl⟩ | ⟨-, heq⟩
  · rw [splice_same hop]
    exact ⟨Operator.Takes.splice hop h.1 hn, h.2⟩
  · rw [heq, List.length_singleton, Nat.add_comm]
    exact ⟨hn, h, trivial⟩

namespace Operand

mutual

theorem IsShaped.core : ∀ {operand : Operand}, operand.IsShaped → operand.core.IsShaped
  | .feature _, _ => trivial
  | .group operator operands, h => by
    rw [Operand.core]
    have hrun := AllShaped.simplifyAll (n := 0) h.2 h.1
    exact (Condition.IsShaped.collapse ⟨hrun.1, hrun.2⟩).unwrap

/-- Here `n` more operands of the run are not looked at. -/
theorem AllShaped.simplifyAll {outer : Option Operator} :
    ∀ {operands : List Operand} {n : Nat}, AllShaped operands →
      Operator.Takes outer (operands.length + n) →
      Operator.Takes outer ((simplifyAll outer operands).length + n) ∧
        AllShaped (simplifyAll outer operands)
  | [], _, h, hn => by
    rw [Operand.simplifyAll]
    exact ⟨hn, h⟩
  | operand :: rest, n, h, hn => by
    rw [Operand.simplifyAll, simplify_eq_splice_core, allShaped_append, List.length_append]
    have hhead := (IsShaped.core h.1).splice (n := rest.length + n)
      (by rwa [List.length_cons, Nat.add_right_comm] at hn)
    have hrest := AllShaped.simplifyAll (n := (operand.core.splice outer).length + n) h.2
      (by rw [Nat.add_left_comm]; exact hhead.1)
    refine ⟨?_, hhead.2, hrest.2⟩
    rw [Nat.add_assoc, Nat.add_left_comm]
    exact hrest.1

end

end Operand

theorem Condition.IsShaped.simplify {c : Condition} (h : c.IsShaped) : c.simplify.IsShaped := by
  have hrun := Operand.AllShaped.simplifyAll (n := 0) h.2 h.1
  exact (Condition.IsShaped.collapse ⟨hrun.1, hrun.2⟩).hoist

/-! ## Parentheses -/

namespace Operand

/-- One pair of parentheses is opened, or another operator is written inside of one. -/
inductive Opening : List Operand → List Operand → Prop
  | opened (operator : Option Operator) (as inner bs : List Operand) :
    Opening (as ++ .group operator inner :: bs) (as ++ inner ++ bs)
  | renamed (operator operator' : Option Operator) (as inner bs : List Operand) :
    Opening (as ++ .group operator inner :: bs) (as ++ .group operator' inner :: bs)
  | inside {inner inner' : List Operand} (h : Opening inner inner') (operator : Option Operator)
    (as bs : List Operand) :
    Opening (as ++ .group operator inner :: bs) (as ++ .group operator inner' :: bs)

/-- One opening after another. -/
abbrev Opens : List Operand → List Operand → Prop := Relation.ReflTransGen Opening

/-- What an opening does to a tree: it keeps the features and makes nothing larger or deeper. -/
structure Shrinks (xs ys : List Operand) : Prop where
  features : featuresAll ys = featuresAll xs
  conditions : (conditionsAll ys).length ≤ (conditionsAll xs).length
  depth : maxDepth ys ≤ maxDepth xs

theorem Opening.shrinks {xs ys : List Operand} (h : Opening xs ys) : Shrinks xs ys := by
  induction h with
  | opened operator as inner bs =>
    constructor
    · simp
    · simp
    · simp only [maxDepth_append, maxDepth_cons, depth_group]
      omega
  | renamed operator operator' as inner bs => constructor <;> simp
  | inside h operator as bs ih =>
    obtain ⟨hfeatures, hconditions, hdepth⟩ := ih
    constructor
    · simp [hfeatures]
    · simp [hconditions]
    · simp only [maxDepth_append, maxDepth_cons, depth_group]
      omega

theorem Opens.shrinks {xs ys : List Operand} (h : Opens xs ys) : Shrinks xs ys := by
  induction h with
  | refl => exact ⟨rfl, Nat.le_refl _, Nat.le_refl _⟩
  | tail _ hstep ih =>
    have hlast := hstep.shrinks
    exact ⟨hlast.features.trans ih.features, Nat.le_trans hlast.conditions ih.conditions,
      Nat.le_trans hlast.depth ih.depth⟩

theorem Opens.group {inner inner' : List Operand} (h : Opens inner inner')
    (operator : Option Operator) : Opens [.group operator inner] [.group operator inner'] :=
  h.lift (fun inner => [Operand.group operator inner]) fun _ _ hstep => hstep.inside operator [] []

theorem Opening.beside {xs ys : List Operand} (h : Opening xs ys) (before behind : List Operand) :
    Opening (before ++ xs ++ behind) (before ++ ys ++ behind) := by
  cases h with
  | opened operator as inner bs =>
    simpa using Opening.opened operator (before ++ as) inner (bs ++ behind)
  | renamed operator operator' as inner bs =>
    simpa using Opening.renamed operator operator' (before ++ as) inner (bs ++ behind)
  | inside h operator as bs => simpa using h.inside operator (before ++ as) (bs ++ behind)

theorem Opens.append {as as' bs bs' : List Operand} (ha : Opens as as') (hb : Opens bs bs') :
    Opens (as ++ bs) (as' ++ bs') := by
  have hleft : Opens (as ++ bs) (as' ++ bs) :=
    ha.lift (· ++ bs) fun _ _ hstep => hstep.beside [] bs
  have hright : Opens (as' ++ bs) (as' ++ bs') :=
    hb.lift (as' ++ ·) fun _ _ hstep => by simpa using hstep.beside as' []
  exact hleft.trans hright

theorem opens_group (operator : Option Operator) (inner : List Operand) :
    Opens [.group operator inner] inner := by
  have hstep := Opening.opened operator [] inner []
  simp only [List.nil_append, List.append_nil] at hstep
  exact .single hstep

theorem opens_collapse (c : Condition) : Opens [c.toOperand] [c.collapse.toOperand] := by
  unfold Condition.collapse
  split
  · next inner hop hone =>
    have houter : Opens [c.toOperand] [.group (some .not) inner] := by
      rw [Condition.toOperand, hone]
      exact opens_group _ _
    exact houter.tail (.renamed (some .not) none [] inner [])
  · exact .refl

theorem opens_unwrap (c : Condition) : Opens [c.toOperand] [c.unwrap] := by
  unfold Condition.unwrap
  split
  · next operand hop hone =>
    rw [Condition.toOperand, hone]
    exact opens_group _ _
  · exact .refl

theorem opens_hoist (c : Condition) : Opens [c.toOperand] [c.hoist.toOperand] := by
  unfold Condition.hoist
  split
  · next operator operands hop hone =>
    rw [Condition.toOperand, hone]
    exact opens_group _ _
  · exact .refl

theorem opens_splice (outer : Option Operator) (operand : Operand) :
    Opens [operand] (operand.splice outer) := by
  rcases splice_cases outer operand with ⟨op, inner, hop, rfl, rfl⟩ | ⟨-, heq⟩
  · rw [splice_same hop]
    exact opens_group _ _
  · rw [heq]

mutual

theorem opens_simplify (outer : Option Operator) :
    ∀ operand : Operand, Opens [operand] (operand.simplify outer)
  | .feature f => by rw [simplify]
  | .group operator operands => by
    rw [simplify]
    have hinner := (opens_simplifyAll operator operands).group operator
    have hcollapse := opens_collapse ⟨operator, simplifyAll operator operands⟩
    exact ((hinner.trans hcollapse).trans (opens_unwrap _)).trans (opens_splice outer _)

theorem opens_simplifyAll (outer : Option Operator) :
    ∀ operands : List Operand, Opens operands (simplifyAll outer operands)
  | [] => by rw [simplifyAll]
  | operand :: rest => by
    rw [simplifyAll]
    exact (opens_simplify outer operand).append (opens_simplifyAll outer rest)

end

end Operand

namespace Condition

open Operand (Opens)

theorem opens_collapse_simplifyAll (c : Condition) : Opens [c.toOperand]
    [(Condition.mk c.operator (simplifyAll c.operator c.operands)).collapse.toOperand] :=
  ((Operand.opens_simplifyAll c.operator c.operands).group c.operator).trans
    (Operand.opens_collapse ⟨c.operator, simplifyAll c.operator c.operands⟩)

theorem opens_simplify (c : Condition) : Opens [c.toOperand] [c.simplify.toOperand] :=
  c.opens_collapse_simplifyAll.trans (Operand.opens_hoist _)

theorem shrinks_of_opens {c d : Condition} (h : Opens [c.toOperand] [d.toOperand]) :
    d.features = c.features ∧ d.conditions.length ≤ c.conditions.length ∧ d.depth ≤ c.depth := by
  obtain ⟨hfeatures, hconditions, hdepth⟩ := h.shrinks
  simp only [toOperand, Operand.featuresAll_cons, Operand.features_group, Operand.featuresAll_nil,
    List.append_nil] at hfeatures
  simp only [toOperand, Operand.conditionsAll_cons, Operand.conditions_group,
    Operand.conditionsAll_nil, List.append_nil] at hconditions
  simp only [toOperand, Operand.maxDepth_cons, Operand.depth_group, Operand.maxDepth_nil,
    Nat.max_zero] at hdepth
  exact ⟨hfeatures, hconditions, hdepth⟩

theorem features_simplify (c : Condition) : c.simplify.features = c.features :=
  (shrinks_of_opens c.opens_simplify).1

theorem depth_simplify_le (c : Condition) : c.simplify.depth ≤ c.depth :=
  (shrinks_of_opens c.opens_simplify).2.2

/-- No feature is lost, doubled or moved, and no condition is added or nested deeper. -/
theorem simplify_keeps_features (c : Condition) :
    c.simplify.features = c.features ∧ c.simplify.conditions.length ≤ c.conditions.length ∧
      c.simplify.depth ≤ c.depth :=
  shrinks_of_opens c.opens_simplify

/-! ## Roots -/

theorem operator_collapse (c : Condition) :
    c.collapse.operator = none ∨ c.collapse.operator = c.operator := by
  unfold collapse
  split
  · exact .inl rfl
  · exact .inr rfl

theorem depth_simplify_lt {c : Condition} {op : Operator} (hc : c.operator ≠ some op)
    (hs : c.simplify.operator = some op) : c.simplify.depth < c.depth := by
  have hle : (Condition.mk c.operator (simplifyAll c.operator c.operands)).collapse.depth ≤ c.depth :=
    (shrinks_of_opens c.opens_collapse_simplifyAll).2.2
  have hop := operator_collapse ⟨c.operator, simplifyAll c.operator c.operands⟩
  rw [simplify] at hs ⊢
  generalize (Condition.mk c.operator (simplifyAll c.operator c.operands)).collapse = d at hle hop hs ⊢
  unfold hoist at hs ⊢
  split at hs
  · next operator operands _ hone =>
    simp only [depth, hone, Operand.maxDepth_cons, Operand.depth_group, Operand.maxDepth_nil] at hle ⊢
    omega
  · rcases hop with hop | hop <;> rw [hop] at hs
    · simp at hs
    · exact absurd hs hc

end Condition

end CssMedia
