import CssMedia.Proofs.SimplifyShape
import Mathlib.Logic.Relation

/-!
# Trees that simplify alike

The rewrites as a relation, apart from the pass that applies them: two trees are congruent
if rewrites in either direction lead from one to the other. Congruent trees are those that
simplify to the same tree.
-/

namespace CssMedia

open Operand (simplifyAll core)

/-! ## The rewrites -/

namespace Operand

mutual

/-- One rewrite in an operand of a run. -/
inductive Step : Operand → Operand → Prop
  | group (operand : Operand) : Step (.group none [operand]) operand
  | doubleNot (operand : Operand) :
    Step (.group (some .not) [.group (some .not) [operand]]) operand
  | run {operator : Option Operator} {as bs : List Operand} (h : RunStep operator as bs) :
    Step (.group operator as) (.group operator bs)

inductive RunStep : Option Operator → List Operand → List Operand → Prop
  | splice {op : Operator} (h : op.isAssociative) (as inner bs : List Operand) :
    RunStep (some op) (as ++ .group (some op) inner :: bs) (as ++ inner ++ bs)
  | operand {operator : Option Operator} {a b : Operand} (h : Step a b) (as bs : List Operand) :
    RunStep operator (as ++ a :: bs) (as ++ b :: bs)

end

end Operand

namespace Condition

/-- One rewrite in a condition. At the root there are rules of their own. -/
inductive Step : Condition → Condition → Prop
  | group (c : Condition) : Step (.only c.toOperand) c
  | doubleNot (operand : Operand) :
    Step (.negation (Condition.negation operand).toOperand) (.only operand)
  | run {operator : Option Operator} {as bs : List Operand} (h : Operand.RunStep operator as bs) :
    Step ⟨operator, as⟩ ⟨operator, bs⟩

/-- The least congruence with the rewrites in it, on trees of the shape that texts have. -/
def Congruent : Condition → Condition → Prop :=
  Relation.EqvGen fun c d => c.IsShaped ∧ d.IsShaped ∧ c.Step d

end Condition

/-! ## A rewrite does not change the simple tree -/

theorem Operand.simplifyAll_append (outer : Option Operator) (as bs : List Operand) :
    simplifyAll outer (as ++ bs) = simplifyAll outer as ++ simplifyAll outer bs := by
  induction as with
  | nil => rw [simplifyAll]; rfl
  | cons a as ih => rw [List.cons_append, simplifyAll, simplifyAll, ih, List.append_assoc]

theorem Operand.simplifyAll_singleton {outer : Option Operator}
    (h : ∀ op, outer = some op → op.isAssociative = false) (operand : Operand) :
    simplifyAll outer [operand] = [operand.core] := by
  rw [simplifyAll, simplifyAll, simplify_eq_splice_core, splice_eq_singleton h, List.append_nil]

theorem Operand.core_group (operand : Operand) :
    (Operand.group none [operand]).core = operand.core := by
  rw [core, simplifyAll_singleton (by rintro op ⟨⟩)]
  rfl

theorem Operand.core_not (operand : Operand) :
    (Operand.group (some .not) [operand]).core =
      (Condition.negation operand.core).collapse.unwrap := by
  rw [core, simplifyAll_singleton (by rintro op ⟨⟩; rfl)]
  rfl

theorem Condition.collapse_negation {operand : Operand}
    (h : ∀ inner, operand ≠ .group (some .not) inner) :
    (negation operand).collapse = negation operand := by
  unfold collapse
  split
  · next inner _ hone =>
    obtain ⟨⟩ := hone
    exact absurd rfl (h inner)
  · rfl

/-- A double negation ends up where its operand does: the inner `not` is undone only by a `not`
in the operand, and then the outer one is left. -/
theorem Condition.collapse_doubleNot {a : Operand} (hs : a.IsShaped) (h : a.IsSimple) :
    (negation (negation a).collapse.unwrap).collapse = only a ∨
      ∃ b, a = (negation b).toOperand ∧
        (negation (negation a).collapse.unwrap).collapse = negation b := by
  by_cases hnot : ∃ inner, a = .group (some .not) inner
  · obtain ⟨inner, rfl⟩ := hnot
    obtain ⟨b, rfl⟩ := List.length_eq_one_iff.mp hs.1
    refine .inr ⟨b, rfl, ?_⟩
    -- The inner pair is undone, so the outer `not` stays around `b`.
    exact collapse_negation fun inner hb => h.2.1 inner (congrArg (fun b => [b]) hb)
  · left
    rw [collapse_negation fun inner ha => hnot ⟨inner, ha⟩]
    rfl

theorem Operand.core_doubleNot {operand : Operand} (h : operand.IsShaped) :
    (Operand.group (some .not) [.group (some .not) [operand]]).core = operand.core := by
  rw [core_not, core_not]
  rcases Condition.collapse_doubleNot h.core (isSimple_core operand) with heq | ⟨b, hb, heq⟩
  · rw [heq]; rfl
  · rw [heq, hb]; rfl

theorem Operand.simplify_splice {op : Operator} (hop : op.isAssociative) (inner : List Operand) :
    (Operand.group (some op) inner).simplify (some op) = simplifyAll (some op) inner := by
  cases op <;> first | rfl | cases hop

namespace Operand

mutual

theorem Step.core_eq : ∀ {a b : Operand}, Step a b → a.IsShaped → b.IsShaped → a.core = b.core
  | _, _, .group operand, _, _ => core_group operand
  | _, _, .doubleNot _, _, hb => core_doubleNot hb
  | _, _, .run h, ha, hb => by rw [core, core, RunStep.simplifyAll_eq h ha.2 hb.2]

theorem RunStep.simplifyAll_eq : ∀ {outer : Option Operator} {as bs : List Operand},
    RunStep outer as bs → AllShaped as → AllShaped bs → simplifyAll outer as = simplifyAll outer bs
  | _, _, _, .splice hop as inner bs, _, _ => by
    rw [simplifyAll_append, simplifyAll, simplify_splice hop, simplifyAll_append,
      simplifyAll_append, List.append_assoc]
  | _, _, _, .operand h as bs, ha, hb => by
    rw [allShaped_append, allShaped_cons] at ha hb
    rw [simplifyAll_append, simplifyAll_append, simplifyAll, simplifyAll, simplify_eq_splice_core,
      simplify_eq_splice_core, Step.core_eq h ha.2.1 hb.2.1]

end

end Operand

namespace Condition

theorem hoist_only_unwrap (c : Condition) : (only c.unwrap).hoist = c.hoist := by
  unfold unwrap
  split
  · next operand hnone hone =>
    obtain ⟨operator, operands⟩ := c
    cases hnone
    cases hone
    rfl
  · next hne =>
    have hc : c.hoist = c := by
      unfold hoist
      split
      · next operator operands hnone hone => exact (hne _ hnone hone).elim
      · rfl
    rw [hc]
    rfl

theorem simplify_only (operand : Operand) : (only operand).simplify = (only operand.core).hoist := by
  rw [simplify, only, Operand.simplifyAll_singleton (by rintro op ⟨⟩)]
  rfl

theorem simplify_negation (operand : Operand) :
    (negation operand).simplify = (negation operand.core).collapse.hoist := by
  rw [simplify, negation, Operand.simplifyAll_singleton (by rintro op ⟨⟩; rfl)]
  rfl

theorem Step.simplify_eq {c d : Condition} (h : Step c d) (hc : c.IsShaped) (hd : d.IsShaped) :
    c.simplify = d.simplify := by
  cases h with
  | group => rw [simplify_only, toOperand, Operand.core, hoist_only_unwrap, simplify]
  | doubleNot operand =>
    have hcore : (negation operand).toOperand.core = (negation operand.core).collapse.unwrap :=
      Operand.core_not operand
    have hoperand : operand.core.IsShaped := hd.2.1.core
    rw [simplify_negation, hcore, simplify_only]
    rcases collapse_doubleNot hoperand (Operand.isSimple_core operand) with heq | ⟨b, hb, heq⟩
    · rw [heq]
    · rw [heq, hb]; rfl
  | run h => rw [simplify, simplify, h.simplifyAll_eq hc.2 hd.2]

theorem Congruent.simplify_eq {c d : Condition} (h : Congruent c d) : c.simplify = d.simplify := by
  induction h with
  | rel _ _ h => exact h.2.2.simplify_eq h.1 h.2.1
  | refl => rfl
  | symm _ _ _ ih => exact ih.symm
  | trans _ _ _ _ _ ih₁ ih₂ => exact ih₁.trans ih₂

end Condition

/-! ## Rewrites lead to the simple tree -/

namespace Operand

/-- Operands that rewrites lead to from each other, through shaped ones only. -/
def Congruent : Operand → Operand → Prop :=
  Relation.EqvGen fun a b => a.IsShaped ∧ b.IsShaped ∧ a.Step b

/-- The same for the runs of an operator. -/
def RunCongruent (outer : Option Operator) : List Operand → List Operand → Prop :=
  Relation.EqvGen fun as bs =>
    (Operand.group outer as).IsShaped ∧ (Operand.group outer bs).IsShaped ∧ RunStep outer as bs

end Operand

theorem eqvGen_image {α β : Type} {r : α → α → Prop} {s : β → β → Prop} (f : α → β)
    (hf : ∀ a b, r a b → s (f a) (f b)) {a b : α} (h : Relation.EqvGen r a b) :
    Relation.EqvGen s (f a) (f b) := by
  induction h with
  | rel _ _ h => exact .rel _ _ (hf _ _ h)
  | refl => exact .refl _
  | symm _ _ _ ih => exact .symm _ _ ih
  | trans _ _ _ _ _ ih₁ ih₂ => exact .trans _ _ _ ih₁ ih₂

namespace Operand

theorem RunCongruent.group {outer : Option Operator} {as bs : List Operand}
    (h : RunCongruent outer as bs) : Congruent (.group outer as) (.group outer bs) := by
  refine eqvGen_image (Operand.group outer) ?_ h
  rintro as bs ⟨ha, hb, h⟩
  exact ⟨ha, hb, .run h⟩

theorem RunCongruent.condition {outer : Option Operator} {as bs : List Operand}
    (h : RunCongruent outer as bs) : Condition.Congruent ⟨outer, as⟩ ⟨outer, bs⟩ := by
  refine eqvGen_image (Condition.mk outer) ?_ h
  rintro as bs ⟨ha, hb, h⟩
  exact ⟨ha, hb, .run h⟩

theorem isShaped_run {outer : Option Operator} {pre post : List Operand} {a : Operand} :
    (Operand.group outer (pre ++ a :: post)).IsShaped ↔
      Operator.Takes outer (pre.length + post.length + 1) ∧
        AllShaped pre ∧ a.IsShaped ∧ AllShaped post := by
  rw [isShaped_group, allShaped_append, allShaped_cons, List.length_append, List.length_cons]
  exact .rfl

theorem Congruent.run {outer : Option Operator} {pre post : List Operand} {a b : Operand}
    (h : Congruent a b) (hshape : (Operand.group outer (pre ++ a :: post)).IsShaped) :
    RunCongruent outer (pre ++ a :: post) (pre ++ b :: post) := by
  obtain ⟨hlen, hpre, -, hpost⟩ := isShaped_run.mp hshape
  refine eqvGen_image (fun a => pre ++ a :: post) ?_ h
  rintro a b ⟨ha, hb, h⟩
  exact ⟨isShaped_run.mpr ⟨hlen, hpre, ha, hpost⟩, isShaped_run.mpr ⟨hlen, hpre, hb, hpost⟩,
    .operand h pre post⟩

theorem runCongruent_splice {outer : Option Operator} {pre post : List Operand} {a : Operand}
    (h : (Operand.group outer (pre ++ a :: post)).IsShaped) :
    (Operand.group outer (pre ++ a.splice outer ++ post)).IsShaped ∧
      RunCongruent outer (pre ++ a :: post) (pre ++ a.splice outer ++ post) := by
  obtain ⟨hlen, hpre, ha, hpost⟩ := isShaped_run.mp h
  have hsplice := ha.splice hlen
  have hshape : (Operand.group outer (pre ++ a.splice outer ++ post)).IsShaped := by
    rw [isShaped_group, allShaped_append, allShaped_append, List.length_append, List.length_append,
      Nat.add_right_comm, Nat.add_comm]
    exact ⟨hsplice.1, ⟨hpre, hsplice.2⟩, hpost⟩
  refine ⟨hshape, ?_⟩
  rcases splice_cases outer a with ⟨op, inner, hop, rfl, rfl⟩ | ⟨-, heq⟩
  · rw [splice_same hop] at hshape ⊢
    exact .rel _ _ ⟨h, hshape, .splice hop pre inner post⟩
  · rw [heq, List.append_assoc]
    exact .refl _

theorem congruent_collapse_unwrap {operator : Option Operator} {operands : List Operand}
    (h : (Operand.group operator operands).IsShaped) :
    Congruent (.group operator operands) (Condition.mk operator operands).collapse.unwrap := by
  unfold Condition.collapse
  split
  · next inner hop hone =>
    cases hop
    cases hone
    obtain ⟨operand, rfl⟩ := List.length_eq_one_iff.mp h.2.1.1
    exact .rel _ _ ⟨h, h.2.1.2.1, .doubleNot operand⟩
  · unfold Condition.unwrap
    split
    · next operand hnone hone =>
      cases hnone
      cases hone
      exact .rel _ _ ⟨h, h.2.1, .group operand⟩
    · exact .refl _

mutual

theorem congruent_core : ∀ a : Operand, a.IsShaped → Congruent a a.core
  | .feature _, _ => .refl _
  | .group operator operands, h => by
    obtain ⟨hshape, hrun⟩ := runCongruent_simplifyAll operands [] h
    rw [core]
    exact .trans _ _ _ hrun.group (congruent_collapse_unwrap hshape)

theorem runCongruent_simplifyAll {outer : Option Operator} :
    ∀ operands pre : List Operand, (Operand.group outer (pre ++ operands)).IsShaped →
      (Operand.group outer (pre ++ simplifyAll outer operands)).IsShaped ∧
        RunCongruent outer (pre ++ operands) (pre ++ simplifyAll outer operands)
  | [], pre, h => by
    rw [simplifyAll]
    exact ⟨h, .refl _⟩
  | a :: rest, pre, h => by
    obtain ⟨hlen, hpre, ha, hrest⟩ := isShaped_run.mp h
    have hcore : RunCongruent outer (pre ++ a :: rest) (pre ++ a.core :: rest) :=
      (congruent_core a ha).run h
    obtain ⟨hshape, hsplice⟩ :=
      runCongruent_splice (isShaped_run.mpr ⟨hlen, hpre, ha.core, hrest⟩)
    obtain ⟨hshape', htail⟩ := runCongruent_simplifyAll rest (pre ++ a.core.splice outer) hshape
    rw [simplifyAll, simplify_eq_splice_core, ← List.append_assoc]
    exact ⟨hshape', .trans _ _ _ hcore (.trans _ _ _ hsplice htail)⟩

end

end Operand

namespace Condition

theorem IsShaped.congruent_hoist {c : Condition} (h : c.IsShaped) : Congruent c c.hoist := by
  unfold Condition.hoist
  split
  · next operator operands hnone hone =>
    obtain ⟨outer, run⟩ := c
    cases hnone
    cases hone
    exact .rel _ _ ⟨h, h.2.1, .group ⟨operator, operands⟩⟩
  · exact .refl _

theorem IsShaped.congruent_collapse {c : Condition} (h : c.IsShaped) : Congruent c c.collapse := by
  unfold Condition.collapse
  split
  · next inner hop hone =>
    obtain ⟨outer, run⟩ := c
    cases hop
    cases hone
    obtain ⟨operand, rfl⟩ := List.length_eq_one_iff.mp h.2.1.1
    exact .rel _ _ ⟨h, ⟨rfl, h.2.1.2⟩, .doubleNot operand⟩
  · exact .refl _

theorem IsShaped.congruent_simplify {c : Condition} (h : c.IsShaped) : Congruent c c.simplify := by
  obtain ⟨hshape, hrun⟩ := Operand.runCongruent_simplifyAll c.operands [] h
  have hshape' : (Condition.mk c.operator (simplifyAll c.operator c.operands)).IsShaped := hshape
  exact .trans _ _ _ hrun.condition
    (.trans _ _ _ hshape'.congruent_collapse hshape'.collapse.congruent_hoist)

/-- Simplification is a complete normal form for the rewrites. -/
theorem simplify_eq_iff_congruent {c d : Condition} (hc : c.IsShaped) (hd : d.IsShaped) :
    (c.simplify = d.simplify ↔ c.Congruent d) ∧ c.Congruent c.simplify := by
  refine ⟨⟨fun h => ?_, Congruent.simplify_eq⟩, hc.congruent_simplify⟩
  have hright : Congruent c.simplify d := h ▸ .symm _ _ hd.congruent_simplify
  exact .trans _ _ _ hc.congruent_simplify hright

/-- `not (not ((a) and (b)))` and `((a)) and (not (not (b)))` are congruent. -/
theorem congruent_doubleNot_group :
    let a : Operand := .feature (.boolean "a")
    let b : Operand := .feature (.boolean "b")
    let c : Condition := .negation (.group (some .not) [.group (some .and) [a, b]])
    let d : Condition := ⟨some .and, [.group none [a], .group (some .not) [.group (some .not) [b]]]⟩
    c.IsShaped ∧ d.IsShaped ∧ c.Congruent d ∧ c.Congruent c.simplify := by
  intro a b c d
  have hc : c.IsShaped := ⟨rfl, ⟨rfl, ⟨Nat.le_refl 2, trivial, trivial, trivial⟩, trivial⟩, trivial⟩
  have hd : d.IsShaped :=
    ⟨Nat.le_refl 2, ⟨rfl, trivial, trivial⟩, ⟨rfl, ⟨rfl, trivial, trivial⟩, trivial⟩, trivial⟩
  have h := simplify_eq_iff_congruent hc hd
  exact ⟨hc, hd, h.1.mp rfl, h.2⟩

end Condition

end CssMedia
