import CssMedia.Grammar.Condition
import CssMedia.Proofs.Grammar.Balanced
import CssMedia.Proofs.Grammar.FeatureForm
import CssMedia.Proofs.Shape

/-!
# The grammar of conditions

A derivation holds the parentheses of a text, a tree the operators between them. `condition`
reads the derivations of the trees that are not nested too deeply, and no others.
-/

namespace CssMedia.Grammar

open Operand (maxDepth)

mutual

inductive OperandForm : List Lexeme → Operand → Prop where
  | feature {first close : Lexeme} {interior : List Lexeme} {f : Feature}
    (hfirst : first.kind = .openParen) (hclose : close.kind = .closeParen)
    (h : FeatureForm interior f) : OperandForm (first :: (interior ++ [close])) (.feature f)
  | group {first close : Lexeme} {interior : List Lexeme} {operator : Option Operator}
    {xs : List Operand} (hfirst : first.kind = .openParen) (hclose : close.kind = .closeParen)
    (h : ConditionForm interior operator xs) :
    OperandForm (first :: (interior ++ [close])) (.group operator xs)

inductive ConditionForm : List Lexeme → Option Operator → List Operand → Prop where
  | negation {word : Lexeme} {ts : List Lexeme} {x : Operand} (hword : word.kind = .ident "not")
    (h : OperandForm ts x) : ConditionForm (word :: ts) (some .not) [x]
  | only {ts : List Lexeme} {x : Operand} (h : OperandForm ts x) : ConditionForm ts none [x]
  | run {op : Operator} {ts : List Lexeme} {xs : List Operand} (hop : op.isAssociative)
    (h : RunForm op ts xs) (hmany : 2 ≤ xs.length) : ConditionForm ts (some op) xs

/-- Operands with the word of an operator between them. -/
inductive RunForm : Operator → List Lexeme → List Operand → Prop where
  | one {op : Operator} {ts : List Lexeme} {x : Operand} (h : OperandForm ts x) : RunForm op ts [x]
  | more {op : Operator} {word : Lexeme} {ts rest : List Lexeme} {x : Operand} {xs : List Operand}
    (h : OperandForm ts x) (hword : word.kind = .ident op.name) (hrest : RunForm op rest xs) :
    RunForm op (ts ++ word :: rest) (x :: xs)

end

/-! ## Levels -/

def Allows (levels : Option Nat) (depth : Nat) : Prop := ∀ n, levels = some n → depth ≤ n

instance (levels : Option Nat) (depth : Nat) : Decidable (Allows levels depth) :=
  match levels with
  | none => .isTrue fun _ h => nomatch h
  | some n => decidable_of_iff (depth ≤ n) ⟨fun h _ hn => Option.some.inj hn ▸ h, fun h => h n rfl⟩

theorem Allows.mono {levels : Option Nat} {d e : Nat} (h : Allows levels e) (hle : d ≤ e) :
    Allows levels d := fun n hn => Nat.le_trans hle (h n hn)

theorem allows_zero (levels : Option Nat) : Allows levels 0 := fun _ _ => Nat.zero_le _

theorem allows_of_enter {levels inner : Option Nat} {d : Nat} (h : enter levels = some inner) :
    Allows inner d ↔ Allows levels (d + 1) := by
  rcases levels with _ | _ | n
  · cases h; simp [Allows]
  · cases h
  · cases h; simp [Allows]

theorem exists_enter {levels : Option Nat} {d : Nat} (h : Allows levels (d + 1)) :
    ∃ inner, enter levels = some inner := by
  rcases levels with _ | _ | n
  · exact ⟨none, rfl⟩
  · exact absurd (h 0 rfl) (by omega)
  · exact ⟨some n, rfl⟩

/-! ## Operators -/

theorem ident?_eq_some {t : Lexeme} {name : String} : t.ident? = some name ↔ t.kind = .ident name := by
  unfold Lexeme.ident?
  split
  · next h => simp [h]
  · next h => simp only [reduceCtorEq, false_iff]; exact h name

theorem operator_ofName? {name : String} {op : Operator} :
    Operator.ofName? name = some op ↔ name = op.name := by
  constructor
  · intro h
    unfold Operator.ofName? at h
    split at h <;> cases h <;> rfl
  · rintro rfl
    cases op <;> rfl

theorem associative_eq_some_iff {t : Lexeme} {op : Operator} :
    (t.ident?.bind Operator.ofName?).filter Operator.isAssociative = some op ↔
      t.kind = .ident op.name ∧ op.isAssociative := by
  rw [Option.filter_eq_some_iff, Option.bind_eq_some_iff]
  simp only [operator_ofName?, ident?_eq_some, exists_eq_right]

theorem any_ne_eq_false_iff {current : Option Operator} {op : Operator} :
    current.any (· != op) = false ↔ ∀ o, current = some o → o = op := by
  cases current <;> simp

theorem or_refused_eq_false_iff {orAllowed : Bool} {op : Operator} :
    (op == .or && !orAllowed) = false ↔ (op = .or → orAllowed) := by
  cases op <;> cases orAllowed <;> simp

theorem nextOperator_iff {orAllowed : Bool} {current : Option Operator} {t : Lexeme}
    {after : List Lexeme} {op : Operator} :
    nextOperator orAllowed current t after = .ok op ↔
      t.kind = .ident op.name ∧ op.isAssociative ∧ (∀ o, current = some o → o = op) ∧
        (op = .or → orAllowed) ∧ after ≠ [] := by
  constructor
  · intro h
    unfold nextOperator at h
    split at h
    · split at h <;> simp at h
    · next op' heq =>
      split at h
      · simp at h
      next hfits =>
      split at h
      · simp at h
      next hafter =>
      cases h
      simp only [Bool.or_eq_true, not_or, Bool.not_eq_true] at hfits
      obtain ⟨hkind, hassoc⟩ := associative_eq_some_iff.mp heq
      exact ⟨hkind, hassoc, any_ne_eq_false_iff.mp hfits.1, or_refused_eq_false_iff.mp hfits.2, hafter⟩
  · rintro ⟨hkind, hassoc, hfits, hallowed, hafter⟩
    unfold nextOperator
    rw [associative_eq_some_iff.mpr ⟨hkind, hassoc⟩]
    simp only [any_ne_eq_false_iff.mpr hfits, or_refused_eq_false_iff.mpr hallowed, Bool.or_self,
      Bool.false_eq_true, if_false, hafter]

/-! ## Brackets -/

theorem IsInner.opensParen {t : Lexeme} (h : IsInner t) : t.kind.opensParen = false := by
  obtain ⟨hopen, -, -⟩ := h
  cases hkind : t.kind <;> simp_all [TokenKind.opensParen, Bracket.openedBy?]

theorem balanced_inner {ts : List Lexeme} (h : ∀ t ∈ ts, IsInner t) : Balanced ts := by
  induction ts with
  | nil => exact .nil
  | cons t ts ih =>
    have hparen := (h t (List.mem_cons_self ..)).opensParen
    obtain ⟨hopen, hclose, hcomma⟩ := h t (List.mem_cons_self ..)
    refine .cons ?_ hparen hcomma ?_ (ih fun u hu => h u (List.mem_cons_of_mem _ hu))
    · intro heq
      rw [heq] at hclose
      cases hclose
    · intro stack
      simp [nest, hopen, hclose]

mutual

theorem OperandForm.balanced : ∀ {ts : List Lexeme} {x : Operand}, OperandForm ts x → Balanced ts
  | _, _, .feature hfirst hclose h => .parens hfirst hclose (balanced_inner h.inner)
  | _, _, .group hfirst hclose h => .parens hfirst hclose h.balanced

theorem ConditionForm.balanced : ∀ {ts : List Lexeme} {operator : Option Operator}
    {xs : List Operand}, ConditionForm ts operator xs → Balanced ts
  | _, _, _, .negation hword h => .ident hword h.balanced
  | _, _, _, .only h => h.balanced
  | _, _, _, .run _ h _ => h.balanced

theorem RunForm.balanced : ∀ {op : Operator} {ts : List Lexeme} {xs : List Operand},
    RunForm op ts xs → Balanced ts
  | _, _, _, .one h => h.balanced
  | _, _, _, .more h hword hrest => .append h.balanced (.ident hword hrest.balanced)

end

/-! ## Reading a derivation -/

theorem opensParen_eq_false {ts : List Lexeme} (h : ∀ t ∈ ts, IsInner t) :
    ts.any (·.kind.opensParen) = false := by
  rw [List.any_eq_false]
  intro t ht
  simp [(h t ht).opensParen]

theorem OperandForm.starts {ts : List Lexeme} {x : Operand} (h : OperandForm ts x) :
    ∃ first rest, ts = first :: rest ∧ first.kind = .openParen := by
  cases h with
  | feature hfirst | group hfirst => exact ⟨_, _, rfl, hfirst⟩

theorem OperandForm.ne_nil {ts : List Lexeme} {x : Operand} (h : OperandForm ts x) : ts ≠ [] := by
  obtain ⟨first, rest, rfl, -⟩ := h.starts
  exact List.cons_ne_nil _ _

theorem OperandForm.opens {ts : List Lexeme} {x : Operand} (h : OperandForm ts x) :
    ts.any (·.kind.opensParen) := by
  obtain ⟨first, rest, rfl, hfirst⟩ := h.starts
  simp [hfirst, TokenKind.opensParen]

theorem RunForm.starts {op : Operator} {ts : List Lexeme} {xs : List Operand}
    (h : RunForm op ts xs) : ∃ first rest, ts = first :: rest ∧ first.kind = .openParen := by
  cases h with
  | one h => exact h.starts
  | more h =>
    obtain ⟨first, rest, rfl, hfirst⟩ := h.starts
    exact ⟨first, _, rfl, hfirst⟩

theorem ConditionForm.opens {ts : List Lexeme} {operator : Option Operator} {xs : List Operand}
    (h : ConditionForm ts operator xs) : ts.any (·.kind.opensParen) := by
  cases h with
  | negation hword h => simp [h.opens]
  | only h => exact h.opens
  | run hop h =>
    obtain ⟨first, rest, rfl, hfirst⟩ := h.starts
    simp [hfirst, TokenKind.opensParen]

theorem ConditionForm.starts {ts : List Lexeme} {operator : Option Operator} {xs : List Operand}
    (h : ConditionForm ts operator xs) :
    ∃ first rest, ts = first :: rest ∧ (first.kind = .openParen ∨
      first.kind = .ident "not" ∧ ∃ next more, rest = next :: more ∧ next.kind = .openParen) := by
  cases h with
  | negation hword h => exact ⟨_, _, rfl, .inr ⟨hword, h.starts⟩⟩
  | only h =>
    obtain ⟨first, rest, rfl, hfirst⟩ := h.starts
    exact ⟨first, rest, rfl, .inl hfirst⟩
  | run _ h =>
    obtain ⟨first, rest, rfl, hfirst⟩ := h.starts
    exact ⟨first, rest, rfl, .inl hfirst⟩

theorem ConditionForm.ne_nil {ts : List Lexeme} {operator : Option Operator} {xs : List Operand}
    (h : ConditionForm ts operator xs) : ts ≠ [] := by
  obtain ⟨first, rest, rfl, -⟩ := h.starts
  exact List.cons_ne_nil _ _

section Operands

variable {eof : Nat} {levels : Option Nat} {orAllowed : Bool} {current : Option Operator}
  {first close : Lexeme} {interior : List Lexeme} {x : Operand}

theorem operands_one (hfirst : first.kind = .openParen) (hclose : close.kind = .closeParen)
    (hinterior : Balanced interior) (hx : group eof levels first interior close = .ok x) :
    operands eof levels orAllowed current (first :: (interior ++ [close])) =
      .ok ⟨current, [x]⟩ := by
  have hcut : cutAtClose 0 (interior ++ [close]) = some (interior, close, []) :=
    hinterior.cutAtClose hclose
  unfold operands
  rw [if_neg (by simp [hfirst])]
  split
  · next heq => simp [hcut] at heq
  · next heq =>
    rw [hcut] at heq
    cases heq
    rw [hx]

theorem operands_more (hfirst : first.kind = .openParen) (hclose : close.kind = .closeParen)
    (hinterior : Balanced interior) (hx : group eof levels first interior close = .ok x)
    {t : Lexeme} {after : List Lexeme} {op : Operator} {c : Condition}
    (hop : nextOperator orAllowed current t after = .ok op)
    (hc : operands eof levels orAllowed (some op) after = .ok c) :
    operands eof levels orAllowed current (first :: (interior ++ close :: t :: after)) =
      .ok ⟨c.operator, x :: c.operands⟩ := by
  have hcut : cutAtClose 0 (interior ++ close :: t :: after) =
      some (interior, close, t :: after) := hinterior.cutAtClose hclose
  unfold operands
  rw [if_neg (by simp [hfirst])]
  split
  · next heq => simp [hcut] at heq
  · next heq =>
    rw [hcut] at heq
    cases heq
    rw [hx]
    simp only [hop, hc]

theorem operands_eq_ok {ts : List Lexeme} {c : Condition}
    (h : operands eof levels orAllowed current ts = .ok c) :
    ∃ first interior close after x, ts = first :: (interior ++ close :: after) ∧
      first.kind = .openParen ∧ close.kind = .closeParen ∧
      group eof levels first interior close = .ok x ∧
      (after = [] ∧ c = ⟨current, [x]⟩ ∨
        ∃ t rest op c', after = t :: rest ∧ nextOperator orAllowed current t rest = .ok op ∧
          operands eof levels orAllowed (some op) rest = .ok c' ∧
          c = ⟨c'.operator, x :: c'.operands⟩) := by
  cases ts with
  | nil => simp [operands] at h
  | cons first rest =>
    unfold operands at h
    split at h
    · simp at h
    next hfirst =>
    split at h
    · simp at h
    next interior close after hcut =>
    obtain ⟨rfl, hclose⟩ := eq_of_cutAtClose hcut
    split at h
    · simp at h
    next x hx =>
    refine ⟨first, interior, close, after, x, rfl, Decidable.not_not.mp hfirst, hclose, hx, ?_⟩
    cases after with
    | nil =>
      cases h
      exact .inl ⟨rfl, rfl⟩
    | cons t after =>
      simp only at h
      split at h
      · simp at h
      next op hop =>
      split at h
      · simp at h
      next c' hc =>
      cases h
      exact .inr ⟨t, after, op, c', rfl, hop, hc, rfl⟩

theorem condition_enter {inner : Option Nat} (h : enter levels = some inner)
    (ts : List Lexeme) :
    condition eof levels orAllowed ts =
      operands eof inner orAllowed (leadingNot ts).1 (leadingNot ts).2 := by
  rw [condition, h]

end Operands

theorem leadingNot_not {word : Lexeme} (hword : word.kind = .ident "not") (ts : List Lexeme) :
    leadingNot (word :: ts) = (some .not, ts) := by
  simp [leadingNot, Lexeme.isIdent, hword]

theorem leadingNot_openParen {first : Lexeme} (hfirst : first.kind = .openParen)
    (rest : List Lexeme) : leadingNot (first :: rest) = (none, first :: rest) := by
  simp [leadingNot, Lexeme.isIdent, hfirst]

mutual

theorem OperandForm.group_eq (eof : Nat) : ∀ {levels : Option Nat} {ts : List Lexeme} {x : Operand},
    OperandForm ts x → Allows levels x.depth → ∃ first interior close,
      ts = first :: (interior ++ [close]) ∧ first.kind = .openParen ∧ close.kind = .closeParen ∧
        Balanced interior ∧ group eof levels first interior close = .ok x
  | levels, _, _, @OperandForm.feature first close interior f hfirst hclose h, _ => by
    refine ⟨first, interior, close, rfl, hfirst, hclose, balanced_inner h.inner, ?_⟩
    have hfeature : feature eof (first :: (interior ++ [close])) = .ok f :=
      feature_iff.mpr ⟨first, interior, close, rfl, hfirst, hclose, h⟩
    rw [group, if_neg (by simp [opensParen_eq_false h.inner]), List.cons_append, hfeature]
    rfl
  | levels, _, _, @OperandForm.group first close interior _ _ hfirst hclose h, hdepth => by
    refine ⟨first, interior, close, rfl, hfirst, hclose, h.balanced, ?_⟩
    rw [group, if_pos h.opens, h.condition_eq eof hdepth fun _ => rfl]
    rfl

theorem ConditionForm.condition_eq (eof : Nat) : ∀ {levels : Option Nat} {orAllowed : Bool}
    {ts : List Lexeme} {operator : Option Operator} {xs : List Operand},
    ConditionForm ts operator xs → Allows levels (maxDepth xs + 1) →
      (operator = some .or → orAllowed) →
      condition eof levels orAllowed ts = .ok ⟨operator, xs⟩
  | _, _, _, _, _, .negation hword h, hdepth, _ => by
    obtain ⟨inner, hinner⟩ := exists_enter hdepth
    have hx := (allows_of_enter hinner).mpr hdepth
    rw [Operand.maxDepth_cons, Operand.maxDepth_nil, Nat.max_zero] at hx
    obtain ⟨first, interior, close, rfl, hfirst, hclose, hbalanced, hgroup⟩ := h.group_eq eof hx
    rw [condition_enter hinner, leadingNot_not hword]
    exact operands_one hfirst hclose hbalanced hgroup
  | _, _, _, _, _, .only h, hdepth, _ => by
    obtain ⟨inner, hinner⟩ := exists_enter hdepth
    have hx := (allows_of_enter hinner).mpr hdepth
    rw [Operand.maxDepth_cons, Operand.maxDepth_nil, Nat.max_zero] at hx
    obtain ⟨first, interior, close, rfl, hfirst, hclose, hbalanced, hgroup⟩ := h.group_eq eof hx
    rw [condition_enter hinner, leadingNot_openParen hfirst]
    exact operands_one hfirst hclose hbalanced hgroup
  | _, _, _, _, _, .run hop h hmany, hdepth, hor => by
    obtain ⟨inner, hinner⟩ := exists_enter hdepth
    have hx := (allows_of_enter hinner).mpr hdepth
    obtain ⟨first, rest, heq, hfirst⟩ := h.starts
    have hread := h.operands_eq eof hop (fun heq => hor (congrArg some heq)) (.inr ⟨rfl, hmany⟩) hx
    rw [heq] at hread ⊢
    rw [condition_enter hinner, leadingNot_openParen hfirst, hread]

theorem RunForm.operands_eq (eof : Nat) : ∀ {levels : Option Nat} {orAllowed : Bool}
    {current : Option Operator} {op : Operator} {ts : List Lexeme} {xs : List Operand},
    RunForm op ts xs → op.isAssociative → (op = .or → orAllowed) →
      (current = some op ∨ current = none ∧ 2 ≤ xs.length) → Allows levels (maxDepth xs) →
      operands eof levels orAllowed current ts = .ok ⟨some op, xs⟩
  | _, _, _, _, _, _, .one h, hop, hor, hcurrent, hdepth => by
    rw [Operand.maxDepth_cons, Operand.maxDepth_nil, Nat.max_zero] at hdepth
    obtain ⟨first, interior, close, rfl, hfirst, hclose, hbalanced, hgroup⟩ := h.group_eq eof hdepth
    rw [operands_one hfirst hclose hbalanced hgroup]
    rcases hcurrent with rfl | ⟨-, hmany⟩
    · rfl
    · simp at hmany
  | _, orAllowed, current, op, _, _, @RunForm.more _ word ts rest x xs h hword hrest, hop, hor,
      hcurrent, hdepth => by
    rw [Operand.maxDepth_cons] at hdepth
    obtain ⟨first, interior, close, rfl, hfirst, hclose, hbalanced, hgroup⟩ :=
      h.group_eq eof (hdepth.mono (Nat.le_max_left ..))
    have hread := hrest.operands_eq eof hop hor (.inl rfl) (hdepth.mono (Nat.le_max_right ..))
    obtain ⟨next, more, heq, -⟩ := hrest.starts
    have hnext : nextOperator orAllowed current word rest = .ok op := by
      refine nextOperator_iff.mpr ⟨hword, hop, ?_, hor, by simp [heq]⟩
      rcases hcurrent with rfl | ⟨rfl, -⟩ <;> simp
    rw [List.cons_append, List.append_assoc, List.singleton_append,
      operands_more hfirst hclose hbalanced hgroup hnext hread]

end

/-! ## Every tree has a derivation -/

/-- What a run of operands was read from, after an operator or after none. -/
def IsRun (orAllowed : Bool) (current : Option Operator) (ts : List Lexeme) (c : Condition) : Prop :=
  (∃ x, OperandForm ts x ∧ c = ⟨current, [x]⟩) ∨
    ∃ op xs, RunForm op ts xs ∧ op.isAssociative ∧ (∀ o, current = some o → o = op) ∧
      (op = .or → orAllowed) ∧ 2 ≤ xs.length ∧ c = ⟨some op, xs⟩

theorem IsRun.more {orAllowed : Bool} {current : Option Operator} {op : Operator} {word : Lexeme}
    {ts rest : List Lexeme} {x : Operand} {c : Condition} (hx : OperandForm ts x)
    (hword : word.kind = .ident op.name) (hop : op.isAssociative)
    (hcurrent : ∀ o, current = some o → o = op) (hor : op = .or → orAllowed)
    (h : IsRun orAllowed (some op) rest c) :
    IsRun orAllowed current (ts ++ word :: rest) ⟨c.operator, x :: c.operands⟩ := by
  rcases h with ⟨y, hy, rfl⟩ | ⟨op', xs, hrun, -, hsame, -, hmany, rfl⟩
  · exact .inr ⟨op, [x, y], .more hx hword (.one hy), hop, hcurrent, hor, by simp, rfl⟩
  · obtain rfl := hsame op rfl
    exact .inr ⟨op, x :: xs, .more hx hword hrun, hop, hcurrent, hor, by simp; omega, rfl⟩

theorem IsRun.conditionForm {orAllowed : Bool} {ts : List Lexeme} {c : Condition}
    (h : IsRun orAllowed (leadingNot ts).1 (leadingNot ts).2 c) :
    ConditionForm ts c.operator c.operands ∧ (c.operator = some .or → orAllowed) := by
  cases ts with
  | nil =>
    rcases h with ⟨x, hx, -⟩ | ⟨op, xs, hrun, -⟩
    · exact absurd rfl hx.ne_nil
    · obtain ⟨first, rest, heq, -⟩ := hrun.starts
      cases heq
  | cons t ts =>
    by_cases hnot : t.isIdent "not"
    · have hword : t.kind = .ident "not" := beq_iff_eq.mp hnot
      rw [leadingNot_not hword] at h
      rcases h with ⟨x, hx, rfl⟩ | ⟨op, xs, hrun, hop, hcurrent, -⟩
      · exact ⟨.negation hword hx, fun h => by cases h⟩
      · rw [← hcurrent .not rfl] at hop
        cases hop
    · rw [leadingNot, if_neg hnot] at h
      rcases h with ⟨x, hx, rfl⟩ | ⟨op, xs, hrun, hop, -, hor, hmany, rfl⟩
      · exact ⟨.only hx, fun h => by cases h⟩
      · exact ⟨.run hop hrun hmany, fun h => hor (Option.some.inj h)⟩

mutual

theorem group_sound {eof : Nat} {levels : Option Nat} {first close : Lexeme}
    {interior : List Lexeme} {x : Operand} (hfirst : first.kind = .openParen)
    (hclose : close.kind = .closeParen) (h : group eof levels first interior close = .ok x) :
    OperandForm (first :: (interior ++ [close])) x ∧ Allows levels x.depth := by
  rw [group] at h
  split at h
  · obtain ⟨c, hc, rfl⟩ := exists_of_map_eq_ok h
    obtain ⟨hform, hdepth, -⟩ := condition_sound hc
    exact ⟨.group hfirst hclose hform, hdepth⟩
  · obtain ⟨f, hf, rfl⟩ := exists_of_map_eq_ok h
    obtain ⟨first', interior', close', heq, -, -, hform⟩ := feature_iff.mp hf
    obtain ⟨rfl, htail⟩ := List.cons.inj heq
    obtain ⟨rfl, hlast⟩ := List.append_inj' htail rfl
    exact ⟨.feature hfirst hclose hform, allows_zero levels⟩
termination_by (interior.length, 2)

theorem condition_sound {eof : Nat} {levels : Option Nat} {orAllowed : Bool} {ts : List Lexeme}
    {c : Condition} (h : condition eof levels orAllowed ts = .ok c) :
    ConditionForm ts c.operator c.operands ∧ Allows levels (maxDepth c.operands + 1) ∧
      (c.operator = some .or → orAllowed) := by
  cases hinner : enter levels with
  | none => simp [condition, hinner] at h
  | some inner =>
    rw [condition_enter hinner] at h
    obtain ⟨hrun, hdepth⟩ := operands_sound h
    obtain ⟨hform, hor⟩ := hrun.conditionForm
    exact ⟨hform, (allows_of_enter hinner).mp hdepth, hor⟩
termination_by (ts.length, 1)
decreasing_by
  have := length_leadingNot_le ts
  rcases Nat.lt_or_eq_of_le this with h | h
  · exact Prod.Lex.left _ _ h
  · rw [h]; exact Prod.Lex.right _ (by omega)

theorem operands_sound {eof : Nat} {levels : Option Nat} {orAllowed : Bool}
    {current : Option Operator} {ts : List Lexeme} {c : Condition}
    (h : operands eof levels orAllowed current ts = .ok c) :
    IsRun orAllowed current ts c ∧ Allows levels (maxDepth c.operands) := by
  obtain ⟨first, interior, close, after, x, hts, hfirst, hclose, hx, hafter⟩ := operands_eq_ok h
  obtain ⟨hform, hdepth⟩ := group_sound hfirst hclose hx
  rcases hafter with ⟨rfl, rfl⟩ | ⟨t, rest, op, c, rfl, hop, hc, rfl⟩
  · rw [hts]
    exact ⟨.inl ⟨x, hform, rfl⟩, by simpa using hdepth⟩
  · obtain ⟨hrun, hdepths⟩ := operands_sound hc
    obtain ⟨hword, hassoc, hcurrent, hor, -⟩ := nextOperator_iff.mp hop
    have hmore := hrun.more hform hword hassoc hcurrent hor
    rw [List.cons_append, List.append_assoc, List.singleton_append, ← hts] at hmore
    refine ⟨hmore, ?_⟩
    intro n hn
    exact Nat.max_le.mpr ⟨hdepth n hn, hdepths n hn⟩
termination_by (ts.length, 0)
decreasing_by
  all_goals
    apply Prod.Lex.left _ _
    rw [hts]
    simp only [List.length_cons, List.length_append]
    omega

end

theorem condition_iff {eof : Nat} {levels : Option Nat} {orAllowed : Bool} {ts : List Lexeme}
    {c : Condition} :
    condition eof levels orAllowed ts = .ok c ↔
      ConditionForm ts c.operator c.operands ∧ Allows levels c.depth ∧
        (c.operator = some .or → orAllowed) :=
  ⟨condition_sound, fun ⟨hform, hdepth, hor⟩ => hform.condition_eq eof hdepth hor⟩

theorem operands_iff {eof : Nat} {levels : Option Nat} {orAllowed : Bool}
    {current : Option Operator} {ts : List Lexeme} {c : Condition} :
    operands eof levels orAllowed current ts = .ok c ↔
      IsRun orAllowed current ts c ∧ Allows levels (maxDepth c.operands) := by
  constructor
  · exact operands_sound
  · rintro ⟨⟨x, hx, rfl⟩ | ⟨op, xs, hrun, hop, hcurrent, hor, hmany, rfl⟩, hdepth⟩
    · obtain ⟨first, interior, close, rfl, hfirst, hclose, hbalanced, hgroup⟩ :=
        hx.group_eq eof (hdepth.mono (Nat.le_max_left ..))
      exact operands_one hfirst hclose hbalanced hgroup
    · apply hrun.operands_eq eof hop hor _ hdepth
      cases current with
      | none => exact .inr ⟨rfl, hmany⟩
      | some o => exact .inl (congrArg some (hcurrent o rfl))

theorem isRun_without_or {current : Option Operator} {ts : List Lexeme} {c : Condition}
    (hcurrent : current ≠ some .or) :
    IsRun false current ts c ↔ IsRun true current ts c ∧ c.operator ≠ some .or := by
  constructor
  · rintro (⟨x, hx, rfl⟩ | ⟨op, xs, hrun, hop, hsame, hor, hmany, rfl⟩)
    · exact ⟨.inl ⟨x, hx, rfl⟩, hcurrent⟩
    · refine ⟨.inr ⟨op, xs, hrun, hop, hsame, fun _ => rfl, hmany, rfl⟩, ?_⟩
      rintro ⟨⟩
      cases hor rfl
  · rintro ⟨⟨x, hx, rfl⟩ | ⟨op, xs, hrun, hop, hsame, -, hmany, rfl⟩, hor⟩
    · exact .inl ⟨x, hx, rfl⟩
    · refine .inr ⟨op, xs, hrun, hop, hsame, ?_, hmany, rfl⟩
      rintro rfl
      exact absurd rfl hor

end CssMedia.Grammar
