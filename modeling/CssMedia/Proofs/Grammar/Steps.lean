import CssMedia.Proofs.Failure
import CssMedia.Proofs.Grammar.QueryForm
import CssMedia.Proofs.Results

/-!
# The grammar in steps

Each reader of conditions and queries as the steps that it takes, one bound to the next, and
the failures that come from no other reader.
-/

namespace CssMedia.Grammar

variable {eof : Nat} {levels : Option Nat} {orAllowed : Bool} {current : Option Operator}

/-! ## Conditions -/

/-- What is left of a run after one more operand. -/
def runAfter (eof : Nat) (levels : Option Nat) (orAllowed : Bool) (current : Option Operator)
    (operand : Operand) : List Lexeme → Except ParseError Condition
  | [] => .ok ⟨current, [operand]⟩
  | t :: after => do
    let op ← nextOperator orAllowed current t after
    let c ← operands eof levels orAllowed (some op) after
    return ⟨c.operator, operand :: c.operands⟩

theorem operands_nil : operands eof levels orAllowed current [] =
    .error (.single .emptyCondition ⟨eof, eof⟩) := by
  rw [operands]

theorem operands_start {first : Lexeme} (hfirst : first.kind ≠ .openParen) (rest : List Lexeme) :
    operands eof levels orAllowed current (first :: rest) =
      .error (.single .expectOpenParen first.span) := by
  rw [operands, if_pos hfirst]

theorem operands_unclosed {first : Lexeme} {rest : List Lexeme} (hfirst : first.kind = .openParen)
    (hcut : cutAtClose 0 rest = none) :
    operands eof levels orAllowed current (first :: rest) =
      .error (.single .mismatchedParens (Lexeme.spanOf eof (first :: rest))) := by
  unfold operands
  rw [if_neg (not_not_intro hfirst)]
  split
  · rfl
  · next heq => simp [hcut] at heq

theorem operands_cut {first close : Lexeme} {rest interior after : List Lexeme}
    (hfirst : first.kind = .openParen) (hcut : cutAtClose 0 rest = some (interior, close, after)) :
    operands eof levels orAllowed current (first :: rest) =
      (group eof levels first interior close).mapError
          (within .expectFeatureOrCondition (first.span.cover close.span)) >>=
        fun operand => runAfter eof levels orAllowed current operand after := by
  rw [operands, if_neg (not_not_intro hfirst)]
  split
  · next heq => simp [hcut] at heq
  next heq =>
  rw [hcut] at heq
  cases heq
  cases group eof levels first interior close with
  | error e => rfl
  | ok operand =>
    cases after with
    | nil => rfl
    | cons t after =>
      show _ = runAfter eof levels orAllowed current operand (t :: after)
      simp only [runAfter]
      cases nextOperator orAllowed current t after with
      | error e => rfl
      | ok op =>
        show _ = operands eof levels orAllowed (some op) after >>= _
        simp only
        cases operands eof levels orAllowed (some op) after <;> rfl

/-! ## Queries -/

theorem conditionQuery_eq (ts : List Lexeme) :
    conditionQuery eof levels ts =
      ((condition eof levels true ts).mapError
        (within .expectCondition (Lexeme.spanOf eof ts))).map fun c => ⟨none, .all, some c⟩ := by
  unfold conditionQuery
  cases condition eof levels true ts <;> rfl

theorem afterType_and {t : Lexeme} {ts : List Lexeme} (ht : t.isIdent "and") (hts : ts ≠ []) :
    afterType eof levels (t :: ts) =
      ((condition eof levels false ts).mapError
        (within .expectCondition (Lexeme.spanOf eof ts))).map some := by
  rw [afterType, if_neg (by simp [ht]), if_neg hts]
  cases condition eof levels false ts <;> rfl

theorem missingType_mem (m : Modifier) : missingType m ∈ queryKinds := by
  cases m <;> decide

/-- A condition starts with a parenthesis, or has a `not` before it. -/
inductive StartsCondition : List Lexeme → Prop where
  | paren {first : Lexeme} {rest : List Lexeme} (hfirst : first.kind = .openParen) :
    StartsCondition (first :: rest)
  | negated {word first : Lexeme} {rest : List Lexeme} (hword : word.kind = .ident "not")
    (hfirst : first.kind = .openParen) : StartsCondition (word :: first :: rest)

theorem StartsCondition.query_eq {ts : List Lexeme} (h : StartsCondition ts) :
    query eof levels ts = conditionQuery eof levels ts := by
  cases h with
  | paren hfirst => exact query_openParen hfirst
  | negated hword hfirst => exact query_not_openParen hword hfirst

theorem query_cases (eof : Nat) (first : Lexeme) (rest : List Lexeme) :
    (∃ kind ∈ queryKinds, ∃ t ∈ first :: rest, ∀ levels,
      query eof levels (first :: rest) = .error (.single kind t.span)) ∨
    StartsCondition (first :: rest) ∨
    ∃ before modifier t after, ModifierForm before modifier ∧ first :: rest = before ++ t :: after ∧
      ∀ levels, query eof levels (first :: rest) = typed eof levels modifier t after := by
  have hmem : first ∈ first :: rest := List.mem_cons_self ..
  by_cases hparen : first.kind = .openParen
  · exact .inr (.inl (.paren hparen))
  by_cases hname : first.ident?.isNone
  · exact .inl ⟨.expectParenOrTypeOrModifier, by decide, first, hmem, fun _ => by
      simp only [query, if_neg hparen, if_pos hname]⟩
  simp only [query, if_neg hparen, if_neg hname]
  cases hmodifier : modifier? first with
  | none => exact .inr (.inr ⟨[], none, first, rest, .none, rfl, fun _ => rfl⟩)
  | some m =>
    have hword := modifier?_iff.mp hmodifier
    cases rest with
    | nil => exact .inl ⟨missingType m, missingType_mem m, first, hmem, fun _ => rfl⟩
    | cons next after =>
      simp only
      by_cases hnot : m = .not ∧ next.kind = .openParen
      · rw [hnot.1] at hword
        exact .inr (.inl (.negated hword hnot.2))
      simp only [if_neg hnot]
      by_cases htype : next.ident?.isSome
      · exact .inr (.inr ⟨[first], some m, next, after, .some hword, rfl, fun _ => if_pos htype⟩)
      · exact .inl ⟨missingType m, missingType_mem m, next, by simp, fun _ => if_neg htype⟩

theorem singleQuery_of_none {ts : List Lexeme} (h : cutAtComma [] ts = none) :
    singleQuery eof levels ts = query eof levels ts := by
  simp only [singleQuery, h]

theorem singleQuery_of_some {ts before after : List Lexeme} {comma : Lexeme}
    (h : cutAtComma [] ts = some (before, comma, after)) :
    singleQuery eof levels ts = query eof levels before >>= fun _ =>
      .error (.single .invalidQuery (Lexeme.spanOf eof (comma :: after))) := by
  simp only [singleQuery, h]
  cases query eof levels before <;> rfl

end CssMedia.Grammar
