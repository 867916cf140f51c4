import CssMedia.Proofs.Grammar.ConditionForm

/-!
# Derivations of conditions

A derivation says which rule every lexeme of a condition belongs to. The lexemes determine
it, so the grammar is unambiguous, and `condition` gives the tree that it says.
-/

namespace CssMedia.Grammar

section

variable (eof : Nat)

mutual

/-- An operand: a group that is read as a feature, or a condition in parentheses. -/
inductive OperandDerivation where
  | feature (ts : List Lexeme) (f : Feature) (h : feature eof ts = .ok f)
  | group (first : Lexeme) (inner : ConditionDerivation) (close : Lexeme)
    (hfirst : first.kind = .openParen) (hclose : close.kind = .closeParen)

inductive ConditionDerivation where
  | negation (word : Lexeme) (x : OperandDerivation) (hword : word.kind = .ident "not")
  | only (x : OperandDerivation)
  | run (op : Operator) (x : OperandDerivation) (word : Lexeme) (rest : RunDerivation op)
    (hop : op.isAssociative) (hword : word.kind = .ident op.name)

/-- The operands of a run after its first one. -/
inductive RunDerivation : Operator → Type where
  | one {op : Operator} (x : OperandDerivation) : RunDerivation op
  | more {op : Operator} (x : OperandDerivation) (word : Lexeme) (rest : RunDerivation op)
    (hword : word.kind = .ident op.name) : RunDerivation op

end

end

variable {eof : Nat}

/-! ## What a derivation derives, and what it says -/

mutual

def OperandDerivation.lexemes : OperandDerivation eof → List Lexeme
  | .feature ts _ _ => ts
  | .group first inner close _ _ => first :: (inner.lexemes ++ [close])

def ConditionDerivation.lexemes : ConditionDerivation eof → List Lexeme
  | .negation word x _ => word :: x.lexemes
  | .only x => x.lexemes
  | .run _ x word rest _ _ => x.lexemes ++ word :: rest.lexemes

def RunDerivation.lexemes : {op : Operator} → RunDerivation eof op → List Lexeme
  | _, .one x => x.lexemes
  | _, .more x word rest _ => x.lexemes ++ word :: rest.lexemes

end

mutual

def OperandDerivation.tree : OperandDerivation eof → Operand
  | .feature _ f _ => .feature f
  | .group _ inner _ _ _ => inner.tree.toOperand

def ConditionDerivation.tree : ConditionDerivation eof → Condition
  | .negation _ x _ => .negation x.tree
  | .only x => .only x.tree
  | .run op x _ rest _ _ => ⟨some op, x.tree :: rest.trees⟩

def RunDerivation.trees : {op : Operator} → RunDerivation eof op → List Operand
  | _, .one x => [x.tree]
  | _, .more x _ rest _ => x.tree :: rest.trees

end

/-! ## Derivations and forms -/

theorem RunDerivation.length_trees_pos {op : Operator} (d : RunDerivation eof op) :
    0 < d.trees.length := by
  cases d <;> simp [trees]

mutual

theorem OperandDerivation.form : ∀ d : OperandDerivation eof, OperandForm d.lexemes d.tree
  | .feature ts f h => by
    obtain ⟨first, interior, close, rfl, hfirst, hclose, hform⟩ := feature_iff.mp h
    exact .feature hfirst hclose hform
  | .group first inner close hfirst hclose => .group hfirst hclose inner.form

theorem ConditionDerivation.form :
    ∀ d : ConditionDerivation eof, ConditionForm d.lexemes d.tree.operator d.tree.operands
  | .negation _ x hword => .negation hword x.form
  | .only x => .only x.form
  | .run _ x _ rest hop hword =>
    .run hop (.more x.form hword rest.form) (Nat.succ_le_succ rest.length_trees_pos)

theorem RunDerivation.form {op : Operator} :
    ∀ d : RunDerivation eof op, RunForm op d.lexemes d.trees
  | .one x => .one x.form
  | .more x _ rest hword => .more x.form hword rest.form

end

mutual

theorem OperandForm.exists_derivation (eof : Nat) : ∀ {ts : List Lexeme} {x : Operand},
    OperandForm ts x → ∃ d : OperandDerivation eof, d.lexemes = ts ∧ d.tree = x
  | _, _, @OperandForm.feature first close interior f hfirst hclose h => by
    exact ⟨.feature _ f (feature_iff.mpr ⟨first, interior, close, rfl, hfirst, hclose, h⟩), rfl, rfl⟩
  | _, _, @OperandForm.group first close _ _ _ hfirst hclose h => by
    obtain ⟨d, rfl, htree⟩ := h.exists_derivation eof
    refine ⟨.group first d close hfirst hclose, rfl, ?_⟩
    rw [OperandDerivation.tree, htree]
    rfl

theorem ConditionForm.exists_derivation (eof : Nat) : ∀ {ts : List Lexeme}
    {operator : Option Operator} {xs : List Operand}, ConditionForm ts operator xs →
      ∃ d : ConditionDerivation eof, d.lexemes = ts ∧ d.tree = ⟨operator, xs⟩
  | _, _, _, @ConditionForm.negation word _ _ hword h => by
    obtain ⟨d, rfl, rfl⟩ := h.exists_derivation eof
    exact ⟨.negation word d hword, rfl, rfl⟩
  | _, _, _, .only h => by
    obtain ⟨d, rfl, rfl⟩ := h.exists_derivation eof
    exact ⟨.only d, rfl, rfl⟩
  | _, _, _, @ConditionForm.run op _ _ hop h hmany => by
    obtain ⟨d, rfl, rfl⟩ := h.exists_derivation eof
    cases d with
    | one x => simp [RunDerivation.trees] at hmany
    | more x word rest hword => exact ⟨.run op x word rest hop hword, rfl, rfl⟩

theorem RunForm.exists_derivation (eof : Nat) : ∀ {op : Operator} {ts : List Lexeme}
    {xs : List Operand}, RunForm op ts xs →
      ∃ d : RunDerivation eof op, d.lexemes = ts ∧ d.trees = xs
  | _, _, _, .one h => by
    obtain ⟨d, rfl, rfl⟩ := h.exists_derivation eof
    exact ⟨.one d, rfl, rfl⟩
  | _, _, _, @RunForm.more _ word _ _ _ _ h hword hrest => by
    obtain ⟨d, rfl, rfl⟩ := h.exists_derivation eof
    obtain ⟨r, rfl, rfl⟩ := hrest.exists_derivation eof
    exact ⟨.more d word r hword, rfl, rfl⟩

end

/-! ## The lexemes determine the derivation -/

theorem OperandForm.exists_parens {ts : List Lexeme} {x : Operand} (h : OperandForm ts x) :
    ∃ first interior close, ts = first :: (interior ++ [close]) ∧ close.kind = .closeParen ∧
      Balanced interior := by
  cases h with
  | feature _ hclose h => exact ⟨_, _, _, rfl, hclose, balanced_inner h.inner⟩
  | group _ hclose h => exact ⟨_, _, _, rfl, hclose, h.balanced⟩

theorem OperandForm.append_inj {ts us as bs : List Lexeme} {x y : Operand} (hx : OperandForm ts x)
    (hy : OperandForm us y) (h : ts ++ as = us ++ bs) : ts = us ∧ as = bs := by
  obtain ⟨first, interior, close, rfl, hclose, hbalanced⟩ := hx.exists_parens
  obtain ⟨first', interior', close', rfl, hclose', hbalanced'⟩ := hy.exists_parens
  simp only [List.cons_append, List.append_assoc, List.nil_append] at h
  obtain ⟨rfl, htail⟩ := List.cons.inj h
  have hcut : cutAtClose 0 (interior ++ close :: as) = some (interior, close, as) :=
    hbalanced.cutAtClose hclose
  rw [htail, hbalanced'.cutAtClose hclose'] at hcut
  cases hcut
  exact ⟨rfl, rfl⟩

theorem toOperand_inj {c d : Condition} (h : c.toOperand = d.toOperand) : c = d := by
  cases c
  cases d
  cases h
  rfl

mutual

theorem OperandDerivation.eq_of_tree : ∀ (d : OperandDerivation eof) {e : OperandDerivation eof},
    d.lexemes = e.lexemes → d.tree = e.tree → d = e
  | .feature ts f _, e, hlexemes, htree => by
    cases e with
    | feature us g =>
      cases hlexemes
      cases htree
      rfl
    | group => cases htree
  | .group first inner close _ _, e, hlexemes, htree => by
    cases e with
    | feature => cases htree
    | group first' inner' close' =>
      obtain ⟨rfl, htail⟩ := List.cons.inj hlexemes
      obtain ⟨hinner, hlast⟩ := List.append_inj' htail rfl
      cases hlast
      obtain rfl := inner.eq_of_tree hinner (toOperand_inj htree)
      rfl

theorem ConditionDerivation.eq_of_tree : ∀ (d : ConditionDerivation eof)
    {e : ConditionDerivation eof}, d.lexemes = e.lexemes → d.tree = e.tree → d = e
  | .negation word x _, e, hlexemes, htree => by
    obtain ⟨hoperator, hoperands⟩ := Condition.mk.inj htree
    cases e with
    | negation word' y =>
      obtain ⟨rfl, hx⟩ := List.cons.inj hlexemes
      obtain rfl := x.eq_of_tree hx (List.singleton_inj.mp hoperands)
      rfl
    | only => cases hoperator
    | run op y word' rest hop =>
      cases hoperator
      cases hop
  | .only x, e, hlexemes, htree => by
    obtain ⟨hoperator, hoperands⟩ := Condition.mk.inj htree
    cases e with
    | negation => cases hoperator
    | only y =>
      obtain rfl := x.eq_of_tree hlexemes (List.singleton_inj.mp hoperands)
      rfl
    | run => cases hoperator
  | .run op x word rest hop _, e, hlexemes, htree => by
    obtain ⟨hoperator, hoperands⟩ := Condition.mk.inj htree
    cases e with
    | negation =>
      cases hoperator
      cases hop
    | only => cases hoperator
    | run op' y word' rest' =>
      -- Both first operands end where their parentheses close, so the words are one lexeme.
      obtain ⟨hx, htail⟩ := x.form.append_inj y.form hlexemes
      obtain ⟨rfl, hrest⟩ := List.cons.inj htail
      obtain ⟨hfirst, hmore⟩ := List.cons.inj hoperands
      cases hoperator
      obtain rfl := x.eq_of_tree hx hfirst
      obtain rfl := rest.eq_of_trees hrest hmore
      rfl

theorem RunDerivation.eq_of_trees {op : Operator} : ∀ (d : RunDerivation eof op)
    {e : RunDerivation eof op}, d.lexemes = e.lexemes → d.trees = e.trees → d = e
  | .one x, e, hlexemes, htrees => by
    cases e with
    | one y =>
      obtain rfl := x.eq_of_tree hlexemes (List.singleton_inj.mp htrees)
      rfl
    | more y word rest =>
      have hnil := (List.cons.inj htrees).2
      exact absurd hnil.symm (List.ne_nil_of_length_pos rest.length_trees_pos)
  | .more x word rest _, e, hlexemes, htrees => by
    cases e with
    | one y =>
      have hnil := (List.cons.inj htrees).2
      exact absurd hnil (List.ne_nil_of_length_pos rest.length_trees_pos)
    | more y word' rest' =>
      obtain ⟨hfirst, hmore⟩ := List.cons.inj htrees
      obtain ⟨hx, htail⟩ := x.form.append_inj y.form hlexemes
      obtain ⟨rfl, hrest⟩ := List.cons.inj htail
      obtain rfl := x.eq_of_tree hx hfirst
      obtain rfl := rest.eq_of_trees hrest hmore
      rfl

end

/-! ## Conditions and their derivations -/

theorem condition_eq_ok_iff_exists {eof : Nat} {ts : List Lexeme} {c : Condition} :
    condition eof none true ts = .ok c ↔
      ∃ d : ConditionDerivation eof, d.lexemes = ts ∧ d.tree = c := by
  rw [condition_iff]
  constructor
  · rintro ⟨hform, -, -⟩
    exact hform.exists_derivation eof
  · rintro ⟨d, rfl, rfl⟩
    exact ⟨d.form, nofun, fun _ => rfl⟩

theorem ConditionDerivation.lexemes_injective {d e : ConditionDerivation eof}
    (h : d.lexemes = e.lexemes) : d = e := by
  have hd : condition eof none true d.lexemes = .ok d.tree :=
    condition_eq_ok_iff_exists.mpr ⟨d, rfl, rfl⟩
  have he : condition eof none true d.lexemes = .ok e.tree :=
    condition_eq_ok_iff_exists.mpr ⟨e, h.symm, rfl⟩
  exact d.eq_of_tree h (Except.ok.inj (hd.symm.trans he))

/-- Without a limit exactly what has a derivation is read, as the tree of the one derivation it
has. Where no `or` is allowed, only the conditions with `or` for their own operator are lost. -/
theorem condition_derivations (eof : Nat) (ts : List Lexeme) :
    (∀ c, condition eof none true ts = .ok c ↔
      ∃ d : ConditionDerivation eof, d.lexemes = ts ∧ d.tree = c) ∧
    (∀ d e : ConditionDerivation eof, d.lexemes = ts → e.lexemes = ts → d = e) ∧
    (∀ levels c, condition eof levels false ts = .ok c ↔
      condition eof levels true ts = .ok c ∧ c.operator ≠ some .or) ∧
    ∀ levels current c, current ≠ some .or → (operands eof levels false current ts = .ok c ↔
      operands eof levels true current ts = .ok c ∧ c.operator ≠ some .or) := by
  refine ⟨fun c => condition_eq_ok_iff_exists, ?_, ?_, ?_⟩
  · intro d e hd he
    exact ConditionDerivation.lexemes_injective (hd.trans he.symm)
  · intro levels c
    rw [condition_iff, condition_iff]
    simp [and_assoc]
  · intro levels current c hcurrent
    rw [operands_iff, operands_iff, isRun_without_or hcurrent, and_right_comm]

/-- In `((a) or (b))` the `or` is inside of parentheses, and so it is read where none is allowed. -/
theorem condition_derivations_or_in_group :
    let ts : List Lexeme := [⟨.openParen, ⟨0, 0⟩, false⟩, ⟨.openParen, ⟨1, 1⟩, false⟩,
      ⟨.ident "a", ⟨2, 2⟩, false⟩, ⟨.closeParen, ⟨3, 3⟩, false⟩, ⟨.ident "or", ⟨5, 6⟩, true⟩,
      ⟨.openParen, ⟨8, 8⟩, true⟩, ⟨.ident "b", ⟨9, 9⟩, false⟩, ⟨.closeParen, ⟨10, 10⟩, false⟩,
      ⟨.closeParen, ⟨11, 11⟩, false⟩]
    let c : Condition := .only (.group (some .or) [.feature (.boolean "a"), .feature (.boolean "b")])
    (∃ d : ConditionDerivation 12, d.lexemes = ts ∧ d.tree = c ∧
      ∀ e : ConditionDerivation 12, e.lexemes = ts → e = d) ∧
    condition 12 none true ts = .ok c ∧ condition 12 none false ts = .ok c ∧
      none ≠ some Operator.or ∧ operands 12 none false none ts = .ok c := by
  intro ts c
  have ha : feature 12 [⟨.openParen, ⟨1, 1⟩, false⟩, ⟨.ident "a", ⟨2, 2⟩, false⟩,
      ⟨.closeParen, ⟨3, 3⟩, false⟩] = .ok (.boolean "a") :=
    feature_iff.mpr ⟨_, [_], _, rfl, rfl, rfl, .boolean rfl⟩
  have hb : feature 12 [⟨.openParen, ⟨8, 8⟩, true⟩, ⟨.ident "b", ⟨9, 9⟩, false⟩,
      ⟨.closeParen, ⟨10, 10⟩, false⟩] = .ok (.boolean "b") :=
    feature_iff.mpr ⟨_, [_], _, rfl, rfl, rfl, .boolean rfl⟩
  let run : ConditionDerivation 12 :=
    .run .or (.feature _ _ ha) ⟨.ident "or", ⟨5, 6⟩, true⟩ (.one (.feature _ _ hb)) rfl rfl
  let d : ConditionDerivation 12 :=
    .only (.group ⟨.openParen, ⟨0, 0⟩, false⟩ run ⟨.closeParen, ⟨11, 11⟩, false⟩ rfl rfl)
  have hlexemes : d.lexemes = ts := rfl
  obtain ⟨hderived, hunique, hcondition, hoperands⟩ := condition_derivations 12 ts
  have hread : condition 12 none true ts = .ok c := (hderived c).mpr ⟨d, hlexemes, rfl⟩
  have hrun : operands 12 none true none ts = .ok c := by
    rwa [condition_enter rfl] at hread
  exact ⟨⟨d, hlexemes, rfl, fun e he => hunique e d he hlexemes⟩, hread,
    (hcondition none c).mpr ⟨hread, nofun⟩, nofun, (hoperands none none c nofun).mpr ⟨hrun, nofun⟩⟩

end CssMedia.Grammar
