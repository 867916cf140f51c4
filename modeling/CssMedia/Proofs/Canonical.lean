import CssMedia.Proofs.RoundTrip

/-!
# Canonical trees

What a simplified tree looks like, condition by condition. Of the trees with the shape that texts
have, the canonical ones are those that simplification leaves as they are.
-/

namespace CssMedia

/-- As many operands as the operator takes, none of them a run of the same operator. -/
def Operator.Fits (op : Operator) (operands : List Operand) : Prop :=
  match op with
  | .not => ∃ operand, operands = [operand] ∧ ∀ inner, operand ≠ .group (some .not) inner
  | op => 2 ≤ operands.length ∧ ∀ inner, .group (some op) inner ∉ operands

/-- It has an operator that fits its operands. -/
def Condition.Fits (c : Condition) : Prop := ∃ op, c.operator = some op ∧ op.Fits c.operands

/-- Only a root has no operator, and then it holds one feature. -/
structure Condition.IsCanonical (c : Condition) : Prop where
  root : (c.operator = none ∧ ∃ f, c.operands = [.feature f]) ∨ c.Fits
  below : ∀ d ∈ Operand.conditionsAll c.operands, d.Fits

/-! ## Shaped and simple trees by their conditions -/

open Operand (Settled)

theorem Operator.fits_iff {op : Operator} {operands : List Operand} : op.Fits operands ↔
    Takes (some op) operands.length ∧ Settled (some op) operands := by
  cases op with
  | and | or => exact .rfl
  | not =>
    constructor
    · rintro ⟨operand, rfl, hne⟩
      exact ⟨rfl, fun inner heq => hne inner (List.singleton_injective heq)⟩
    · rintro ⟨hone, hsettled⟩
      obtain ⟨operand, rfl⟩ := List.length_eq_one_iff.mp hone
      exact ⟨operand, rfl, fun inner heq => hsettled inner (by rw [heq])⟩

namespace Condition

theorem fits_iff {c : Condition} : c.Fits ↔ Operator.Takes c.operator c.operands.length ∧
    (c.operator = none → c.operands.length ≠ 1) ∧ Settled c.operator c.operands := by
  obtain ⟨operator, operands⟩ := c
  cases operator with
  | none =>
    constructor
    · rintro ⟨op, hop, -⟩
      cases hop
    · rintro ⟨hone, hne, -⟩
      exact absurd hone (hne rfl)
  | some op =>
    constructor
    · rintro ⟨op, ⟨⟩, hfits⟩
      obtain ⟨htakes, hsettled⟩ := Operator.fits_iff.mp hfits
      exact ⟨htakes, nofun, hsettled⟩
    · rintro ⟨htakes, -, hsettled⟩
      exact ⟨op, rfl, Operator.fits_iff.mpr ⟨htakes, hsettled⟩⟩

theorem root_iff {c : Condition} : ((c.operator = none ∧ ∃ f, c.operands = [.feature f]) ∨
      c.Fits) ↔
    Operator.Takes c.operator c.operands.length ∧
      (c.operator = none → ∀ operator operands, c.operands ≠ [.group operator operands]) ∧
      Settled c.operator c.operands := by
  obtain ⟨operator, operands⟩ := c
  cases operator with
  | none =>
    constructor
    · rintro (⟨-, f, hf⟩ | ⟨op, hop, -⟩)
      · obtain rfl : operands = [.feature f] := hf
        exact ⟨rfl, fun _ _ _ h => (by cases h), trivial⟩
      · cases hop
    · rintro ⟨hone, hgroup, -⟩
      obtain ⟨operand, rfl⟩ := List.length_eq_one_iff.mp hone
      cases operand with
      | feature f => exact .inl ⟨rfl, f, rfl⟩
      | group operator operands => exact absurd rfl (hgroup rfl operator operands)
  | some op =>
    rw [or_iff_right (by rintro ⟨⟨⟩, -⟩), fits_iff]
    simp

end Condition

namespace Operand

mutual

theorem isShaped_isSimple_iff : ∀ operand : Operand,
    operand.IsShaped ∧ operand.IsSimple ↔ ∀ d ∈ operand.conditions, d.Fits
  | .feature _ => by simp
  | .group operator operands => by
    rw [conditions_group, List.forall_mem_cons, ← allShaped_allSimple_iff operands,
      Condition.fits_iff, isShaped_group, IsSimple]
    tauto

theorem allShaped_allSimple_iff : ∀ operands : List Operand,
    AllShaped operands ∧ AllSimple operands ↔ ∀ d ∈ conditionsAll operands, d.Fits
  | [] => by simp
  | operand :: rest => by
    rw [conditionsAll_cons, List.forall_mem_append, ← isShaped_isSimple_iff operand,
      ← allShaped_allSimple_iff rest, allShaped_cons, allSimple_cons]
    tauto

end

end Operand

namespace Condition

theorem isCanonical_iff {c : Condition} : c.IsCanonical ↔ c.IsShaped ∧ c.IsSimple := by
  have hbelow := Operand.allShaped_allSimple_iff c.operands
  constructor
  · rintro ⟨hroot, hrest⟩
    obtain ⟨htakes, hgroup, hsettled⟩ := root_iff.mp hroot
    obtain ⟨hshaped, hsimple⟩ := hbelow.mpr hrest
    exact ⟨⟨htakes, hshaped⟩, hgroup, hsettled, hsimple⟩
  · rintro ⟨⟨htakes, hshaped⟩, hgroup, hsettled, hsimple⟩
    exact ⟨root_iff.mpr ⟨htakes, hgroup, hsettled⟩, hbelow.mp ⟨hshaped, hsimple⟩⟩

theorem IsShaped.isCanonical_simplify {c : Condition} (h : c.IsShaped) : c.simplify.IsCanonical :=
  isCanonical_iff.mpr ⟨h.simplify, isSimple_simplify c⟩

theorem Readable.isCanonical {levels : Option Nat} {c : Condition} (h : c.Readable levels) :
    c.IsCanonical :=
  isCanonical_iff.mpr ⟨h.wellFormed.shaped, simplify_eq_self_iff.mp h.simple⟩

end Condition

/-! ## Nodes -/

namespace Node

/-- The conditions of a node that are not inside of others. -/
def roots : Node → List Condition
  | .list l => l.valid.filterMap (·.condition)
  | .query q => q.condition.toList
  | .condition c => [c]
  | .feature _ | .value _ => []

theorem mem_roots_list {l : QueryList} {c : Condition} :
    c ∈ (Node.list l).roots ↔ ∃ q, some q ∈ l.members ∧ q.condition = some c := by
  simp [roots, QueryList.valid]

end Node

theorem Query.Readable.isCanonical {levels : Option Nat} {q : Query} (h : q.Readable levels)
    {c : Condition} (hc : q.condition = some c) : c.IsCanonical := by
  have hsimple : q.simplify.condition = q.condition := congrArg Query.condition h.simple
  rw [simplify, hc] at hsimple
  exact Condition.isCanonical_iff.mpr ⟨(h.wellFormed c hc).shaped,
    Condition.simplify_eq_self_iff.mp (Option.some.inj hsimple)⟩

theorem QueryList.valid_simplify (l : QueryList) :
    l.simplify.valid = l.valid.map fun q => q.simplify := by
  unfold valid simplify
  rw [List.filterMap_map, List.map_filterMap]
  rfl

namespace Node

theorem Readable.isCanonical {levels : Option Nat} {n : Node} (h : n.Readable levels) :
    ∀ c ∈ n.roots, c.IsCanonical := by
  intro c hc
  cases n with
  | list l =>
    obtain ⟨q, hq, hqc⟩ := mem_roots_list.mp hc
    exact (QueryList.Readable.members h q hq).isCanonical hqc
  | query q => exact Query.Readable.isCanonical h (Option.mem_toList.mp hc)
  | condition d =>
    rw [List.mem_singleton.mp hc]
    exact Condition.Readable.isCanonical h
  | feature f | value v => cases hc

theorem roots_simplify {n m : Node} (h : n.simplify? = some m) :
    m.roots = n.roots.map Condition.simplify := by
  cases n with
  | list l =>
    cases h
    simp only [roots, QueryList.valid_simplify, List.filterMap_map, List.map_filterMap]
    rfl
  | query q =>
    cases h
    rcases q with ⟨modifier, type, _ | c⟩ <;> rfl
  | condition c =>
    cases h
    rfl
  | feature f | value v => cases h

end Node

/-- Every condition that is read and simplified is canonical, and so is every simplified tree
whose runs have as many operands as those of a text. -/
theorem simplified_canonical :
    (∀ (levels : Option Nat) (entry : EntryPoint) (text : String) (n : Node)
      (errors : List ParseError), Node.parse ⟨true, levels⟩ entry text = .ok (n, errors) →
        ∀ c ∈ n.roots, c.IsCanonical) ∧
    ∀ n m : Node, n.simplify? = some m → (∀ c ∈ n.roots, c.IsShaped) →
      m.roots = n.roots.map Condition.simplify ∧ ∀ c ∈ m.roots, c.IsCanonical := by
  constructor
  · intro levels entry text n errors hparse
    exact (Node.parse_readable hparse).1.isCanonical
  · intro n m hsimplify hshaped
    have hroots := Node.roots_simplify hsimplify
    refine ⟨hroots, ?_⟩
    rw [hroots, List.forall_mem_map]
    exact fun c hc => (hshaped c hc).isCanonical_simplify

/-- Two negations leave the run inside of them, which the run around them takes in. -/
theorem simplified_canonical_spliced :
    let text := "(a) and (not (not ((b) and (c))))"
    let a : Operand := .feature (.boolean "a")
    let b : Operand := .feature (.boolean "b")
    let c : Operand := .feature (.boolean "c")
    let written : Condition :=
      ⟨some .and, [a, .group (some .not) [.group (some .not) [.group (some .and) [b, c]]]]⟩
    let flat : Condition := ⟨some .and, [a, b, c]⟩
    Node.parse ⟨true, some 4⟩ .condition text = .ok (.condition flat, []) ∧ flat.IsCanonical ∧
      (Node.condition written).simplify? = some (.condition flat) ∧
        (∀ d ∈ (Node.condition written).roots, d.IsShaped) ∧
          (Node.condition flat).roots = [written.simplify] ∧
            ∀ d ∈ (Node.condition flat).roots, d.IsCanonical := by
  intro text a b c written flat
  have hfeatures : ∀ f ∈ ["a", "b", "c"].map Feature.boolean, f.WellFormed :=
    wellFormed_map_boolean (by decide) (by decide)
  have hshaped : written.IsShaped := by
    simp [Condition.IsShaped, written, a, b, c, Operand.isShaped_group, Operator.Takes]
  have hsimplify : written.simplify = flat := rfl
  have hroots : ∀ d ∈ (Node.condition written).roots, d.IsShaped := by
    rintro d (_ | ⟨_, ⟨⟩⟩)
    exact hshaped
  have hparse : Node.parse ⟨true, some 4⟩ .condition text = .ok (.condition flat, []) := by
    have hwell : written.WellFormed := ⟨hshaped, hfeatures⟩
    have hdepth : Grammar.Allows (some 4) written.depth := by
      rintro _ ⟨⟩
      decide
    have htext : written.text ++ "" = text := by decide +kernel
    have hread : Condition.parse ⟨true, some 4⟩ (written.text ++ "") = .ok flat :=
      parse_conditionText hwell hdepth (.inl rfl)
    unfold Node.parse
    rw [← htext, hread]
    rfl
  have hmade : (Node.condition written).simplify? = some (.condition flat) := by
    rw [Node.simplify?, hsimplify]
  have hcanonical := simplified_canonical.1 (some 4) .condition text _ _ hparse
  exact ⟨hparse, hcanonical flat (List.mem_singleton_self flat), hmade, hroots,
    simplified_canonical.2 _ _ hmade hroots⟩

end CssMedia
