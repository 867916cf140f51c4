import CssMedia.Proofs.Shape
import CssMedia.Simplify

/-!
# Simple trees

A tree is simple if no rewrite applies anywhere in it. Simplification gives a simple tree
and leaves a simple tree as it is.
-/

namespace CssMedia

namespace Operand

/-- No operand of a run of `outer` can be undone or spliced there. -/
def Settled (outer : Option Operator) (operands : List Operand) : Prop :=
  match outer with
  | none => True
  | some .not => ∀ inner, operands ≠ [.group (some .not) inner]
  | some op => ∀ inner, .group (some op) inner ∉ operands

mutual

def IsSimple : Operand → Prop
  | .feature _ => True
  | .group operator operands =>
    (operator = none → operands.length ≠ 1) ∧ Settled operator operands ∧ AllSimple operands

def AllSimple : List Operand → Prop
  | [] => True
  | operand :: rest => operand.IsSimple ∧ AllSimple rest

end

@[simp] theorem allSimple_nil : AllSimple [] := trivial

@[simp] theorem allSimple_cons {operand : Operand} {rest : List Operand} :
    AllSimple (operand :: rest) ↔ operand.IsSimple ∧ AllSimple rest := .rfl

@[simp] theorem isSimple_feature {f : Feature} : (Operand.feature f).IsSimple := trivial

@[simp] theorem allSimple_append {as bs : List Operand} :
    AllSimple (as ++ bs) ↔ AllSimple as ∧ AllSimple bs := by
  induction as with
  | nil => simp
  | cons a as ih => simp [ih, and_assoc]

/-- A run without runs of its own operator among its operands. -/
def Unspliced (outer : Option Operator) (operands : List Operand) : Prop :=
  ∀ op, outer = some op → op.isAssociative → ∀ inner, .group (some op) inner ∉ operands

theorem Settled.unspliced {outer : Option Operator} {operands : List Operand}
    (h : Settled outer operands) : Unspliced outer operands := by
  rintro op rfl hop
  cases op <;> first | exact h | cases hop

/-! ## Splicing -/

theorem splice_same {op : Operator} (hop : op.isAssociative) (inner : List Operand) :
    (Operand.group (some op) inner).splice (some op) = inner := by
  rw [splice, if_pos ⟨hop, rfl⟩]

theorem splice_cases (outer : Option Operator) (operand : Operand) :
    (∃ op inner, op.isAssociative ∧ outer = some op ∧ operand = .group (some op) inner) ∨
      Unspliced outer [operand] ∧ operand.splice outer = [operand] := by
  by_cases h : ∃ op inner, op.isAssociative ∧ outer = some op ∧ operand = .group (some op) inner
  · exact .inl h
  · refine .inr ⟨?_, ?_⟩
    · intro op hop hassoc inner hmem
      exact h ⟨op, inner, hassoc, hop, (List.mem_singleton.mp hmem).symm⟩
    · unfold splice
      split
      · next op inner => exact if_neg fun hsame => h ⟨op, inner, hsame.1, hsame.2, rfl⟩
      · rfl

theorem splice_of_unspliced {outer : Option Operator} {operand : Operand}
    (h : Unspliced outer [operand]) : operand.splice outer = [operand] := by
  rcases splice_cases outer operand with ⟨op, inner, hop, rfl, rfl⟩ | ⟨-, heq⟩
  · exact absurd (List.mem_singleton_self _) (h op rfl hop inner)
  · exact heq

theorem splice_eq_singleton {outer : Option Operator}
    (h : ∀ op, outer = some op → op.isAssociative = false) (operand : Operand) :
    operand.splice outer = [operand] :=
  splice_of_unspliced fun op hop hassoc => absurd hassoc (by simp [h op hop])

theorem allSimple_splice {outer : Option Operator} {operand : Operand} (h : operand.IsSimple) :
    AllSimple (operand.splice outer) := by
  rcases splice_cases outer operand with ⟨op, inner, hop, rfl, rfl⟩ | ⟨-, heq⟩
  · rw [splice_same hop]
    exact h.2.2
  · rw [heq]
    exact ⟨h, trivial⟩

theorem unspliced_splice {outer : Option Operator} {operand : Operand} (h : operand.IsSimple) :
    Unspliced outer (operand.splice outer) := by
  rcases splice_cases outer operand with ⟨op, inner, hop, rfl, rfl⟩ | ⟨hne, heq⟩
  · rw [splice_same hop]
    exact h.2.1.unspliced
  · rw [heq]
    exact hne

/-! ## One operand -/

/-- What an operand becomes before it is spliced. -/
def core : Operand → Operand
  | .feature f => .feature f
  | .group operator operands => (Condition.mk operator (simplifyAll operator operands)).collapse.unwrap

theorem simplify_eq_splice_core (outer : Option Operator) (operand : Operand) :
    operand.simplify outer = operand.core.splice outer := by
  cases operand with
  | feature f => rw [simplify, core, splice]; rintro op operands ⟨⟩
  | group operator operands => rw [simplify, core]

end Operand

open Operand (Settled Unspliced AllSimple)

theorem Condition.settled_collapse {c : Condition} (h : Unspliced c.operator c.operands) :
    Settled c.collapse.operator c.collapse.operands := by
  obtain ⟨operator, operands⟩ := c
  unfold collapse
  split
  · trivial
  · next hne =>
    rcases operator with _ | _ | _ | _
    · trivial
    · exact h .and rfl rfl
    · exact h .or rfl rfl
    · exact fun inner hinner => hne inner rfl hinner

theorem Condition.allSimple_collapse {c : Condition} (h : AllSimple c.operands) :
    AllSimple c.collapse.operands := by
  unfold collapse
  split
  · next operands _ hop =>
    rw [hop] at h
    exact h.1.2.2
  · exact h

theorem Condition.isSimple_unwrap {c : Condition} (hs : Settled c.operator c.operands)
    (h : AllSimple c.operands) : c.unwrap.IsSimple := by
  unfold unwrap
  split
  · next operand hnone hone =>
    rw [hone] at h
    exact h.1
  · next hne =>
    refine ⟨fun hnone hlen => ?_, hs, h⟩
    obtain ⟨operand, hone⟩ := List.length_eq_one_iff.mp hlen
    exact hne operand hnone hone

namespace Operand

mutual

theorem isSimple_core : ∀ operand : Operand, operand.core.IsSimple
  | .feature _ => trivial
  | .group operator operands => by
    rw [core]
    exact Condition.isSimple_unwrap
      (Condition.settled_collapse (unspliced_simplifyAll operator operands))
      (Condition.allSimple_collapse (allSimple_simplifyAll operator operands))

theorem allSimple_simplifyAll (outer : Option Operator) :
    ∀ operands : List Operand, AllSimple (simplifyAll outer operands)
  | [] => trivial
  | operand :: rest => by
    rw [simplifyAll, simplify_eq_splice_core, allSimple_append]
    exact ⟨allSimple_splice (isSimple_core operand), allSimple_simplifyAll outer rest⟩

theorem unspliced_simplifyAll (outer : Option Operator) :
    ∀ operands : List Operand, Unspliced outer (simplifyAll outer operands)
  | [] => fun _ _ _ _ => List.not_mem_nil
  | operand :: rest => by
    intro op hop hassoc inner
    rw [simplifyAll, simplify_eq_splice_core, List.mem_append]
    rintro (h | h)
    · exact unspliced_splice (isSimple_core operand) op hop hassoc inner h
    · exact unspliced_simplifyAll outer rest op hop hassoc inner h

end

/-! ## Simple trees stay -/

theorem Settled.collapse {operator : Option Operator} {operands : List Operand}
    (h : Settled operator operands) :
    (Condition.mk operator operands).collapse = ⟨operator, operands⟩ := by
  unfold Condition.collapse
  split
  · next inner hop hone =>
    cases hop
    exact absurd hone (h inner)
  · rfl

mutual

theorem IsSimple.core_eq : ∀ {operand : Operand}, operand.IsSimple → operand.core = operand
  | .feature _, _ => rfl
  | .group operator operands, h => by
    rw [core, AllSimple.simplifyAll_eq h.2.2 h.2.1.unspliced, h.2.1.collapse, Condition.unwrap]
    split
    · next operand hnone hone =>
      cases hnone
      cases hone
      exact absurd rfl (h.1 rfl)
    · rfl

theorem AllSimple.simplifyAll_eq {outer : Option Operator} :
    ∀ {operands : List Operand}, AllSimple operands → Unspliced outer operands →
      simplifyAll outer operands = operands
  | [], _, _ => by rw [simplifyAll]
  | operand :: rest, h, hu => by
    rw [simplifyAll, simplify_eq_splice_core, IsSimple.core_eq h.1, splice_of_unspliced,
      AllSimple.simplifyAll_eq h.2, List.singleton_append]
    · exact fun op hop hassoc inner hmem => hu op hop hassoc inner (List.mem_cons_of_mem _ hmem)
    · intro op hop hassoc inner hmem
      rw [List.mem_singleton] at hmem
      exact hu op hop hassoc inner (hmem ▸ List.mem_cons_self ..)

end

end Operand

/-! ## Roots -/

namespace Condition

/-- A root without an operator is no group of one condition; it may hold one feature. -/
def IsSimple (c : Condition) : Prop :=
  (c.operator = none → ∀ operator operands, c.operands ≠ [.group operator operands]) ∧
    Settled c.operator c.operands ∧ AllSimple c.operands

theorem isSimple_hoist {c : Condition} (hs : Settled c.operator c.operands)
    (h : AllSimple c.operands) : c.hoist.IsSimple := by
  unfold hoist
  split
  · next operator operands hnone hone =>
    rw [hone] at h
    obtain ⟨⟨hlen, hinner, hall⟩, -⟩ := h
    exact ⟨fun hop _ _ hone => hlen hop (List.length_eq_one_iff.mpr ⟨_, hone⟩), hinner, hall⟩
  · next hne => exact ⟨fun hnone operator operands => hne operator operands hnone, hs, h⟩

theorem isSimple_simplify (c : Condition) : c.simplify.IsSimple :=
  isSimple_hoist (settled_collapse (Operand.unspliced_simplifyAll _ _))
    (allSimple_collapse (Operand.allSimple_simplifyAll _ _))

theorem IsSimple.hoist_eq {c : Condition} (h : c.IsSimple) : c.hoist = c := by
  unfold hoist
  split
  · next operator operands hnone hone => exact absurd hone (h.1 hnone operator operands)
  · rfl

theorem IsSimple.simplify_eq {c : Condition} (h : c.IsSimple) : c.simplify = c := by
  rw [simplify, h.2.2.simplifyAll_eq h.2.1.unspliced, h.2.1.collapse, h.hoist_eq]

theorem simplify_simplify (c : Condition) : c.simplify.simplify = c.simplify :=
  (isSimple_simplify c).simplify_eq

theorem simplify_eq_self_iff {c : Condition} : c.simplify = c ↔ c.IsSimple :=
  ⟨fun h => h ▸ isSimple_simplify c, IsSimple.simplify_eq⟩

end Condition

theorem Query.simplify_simplify (q : Query) : q.simplify.simplify = q.simplify := by
  obtain ⟨modifier, type, condition⟩ := q
  cases condition with
  | none => rfl
  | some c => simp [simplify, Condition.simplify_simplify]

theorem QueryList.simplify_simplify (l : QueryList) : l.simplify.simplify = l.simplify := by
  unfold simplify
  rw [List.map_map]
  congr 1
  apply List.map_congr_left
  intro m _
  cases m with
  | none => rfl
  | some q => exact congrArg some q.simplify_simplify

/-- A second pass has nothing left to do, whatever the operators and the numbers of operands are:
the first one leaves no rewrite, and without a rewrite a condition stays as it is. -/
theorem simplify_idempotent :
    (∀ c : Condition, c.simplify.simplify = c.simplify ∧ c.simplify.IsSimple ∧
      (c.simplify = c ↔ c.IsSimple)) ∧
    (∀ q : Query, q.simplify.simplify = q.simplify) ∧
    ∀ l : QueryList, l.simplify.simplify = l.simplify := by
  refine ⟨fun c => ?_, Query.simplify_simplify, QueryList.simplify_simplify⟩
  exact ⟨c.simplify_simplify, c.isSimple_simplify, Condition.simplify_eq_self_iff⟩

end CssMedia
