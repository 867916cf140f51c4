import CssMedia.Grammar.Brackets
import CssMedia.Grammar.Feature

/-!
# Conditions

The nesting limit is a number of levels that may still be entered, or none for no
limit. Only nesting uses levels: a run of operands of any length takes one.
-/

namespace CssMedia.Grammar

/-- The limit inside one more level; nothing if no level is left. -/
def enter : Option Nat → Option (Option Nat)
  | none => some none
  | some 0 => none
  | some (n + 1) => some (some n)

/-- A leading `not`, as the operator that what follows starts with. -/
def leadingNot : List Lexeme → Option Operator × List Lexeme
  | [] => (none, [])
  | t :: ts => if t.isIdent "not" then (some .not, ts) else (none, t :: ts)

theorem length_leadingNot_le (ts : List Lexeme) : (leadingNot ts).2.length ≤ ts.length := by
  cases ts with
  | nil => simp [leadingNot]
  | cons t ts => rw [leadingNot]; split <;> simp

/-- Wraps the failure of an inner rule. Nesting too deep is the same failure everywhere. -/
def within (kind : ErrorKind) (span : Span) (e : ParseError) : ParseError :=
  if e.outermost.kind = .nestedTooDeeply then e else e.wrap kind span

/-- The operator of a run after one more operator token with `after` behind it. -/
def nextOperator (orAllowed : Bool) (current : Option Operator) (t : Lexeme) (after : List Lexeme) :
    Except ParseError Operator :=
  match (t.ident?.bind Operator.ofName?).filter Operator.isAssociative with
  | none =>
    if t.kind = .closeParen then .error (.single .mismatchedParens t.span)
    else .error (.single .expectAndOrOr t.span)
  | some op =>
    if (current.any (· != op)) || (op == .or && !orAllowed) then
      .error (.single .mixedAndWithOr t.span)
    else if after = [] then .error (.single .expectCondition t.span)
    else .ok op

mutual

/-- The operand in a group: a feature if no parentheses are inside, else a condition. -/
def group (eof : Nat) (levels : Option Nat) (first : Lexeme) (interior : List Lexeme)
    (close : Lexeme) : Except ParseError Operand :=
  if interior.any (·.kind.opensParen) then
    (condition eof levels true interior).map Condition.toOperand
  else (feature eof (first :: interior ++ [close])).map Operand.feature
termination_by (interior.length, 2)

def condition (eof : Nat) (levels : Option Nat) (orAllowed : Bool) (ts : List Lexeme) :
    Except ParseError Condition :=
  match enter levels with
  | none => .error (.single .nestedTooDeeply (Lexeme.spanOf eof (leadingNot ts).2))
  | some levels => operands eof levels orAllowed (leadingNot ts).1 (leadingNot ts).2
termination_by (ts.length, 1)
decreasing_by
  have := length_leadingNot_le ts
  rcases Nat.lt_or_eq_of_le this with h | h
  · exact Prod.Lex.left _ _ h
  · rw [h]; exact Prod.Lex.right _ (by decide)

/-- A run of operands, where `current` is the operator that the run has so far. -/
def operands (eof : Nat) (levels : Option Nat) (orAllowed : Bool) (current : Option Operator) :
    List Lexeme → Except ParseError Condition
  | [] => .error (.single .emptyCondition ⟨eof, eof⟩)
  | first :: rest =>
    if first.kind ≠ .openParen then .error (.single .expectOpenParen first.span)
    else
      match _h : cutAtClose 0 rest with
      | none => .error (.single .mismatchedParens (Lexeme.spanOf eof (first :: rest)))
      | some (interior, close, after) =>
        match group eof levels first interior close with
        | .error e => .error (within .expectFeatureOrCondition (first.span.cover close.span) e)
        | .ok operand =>
          match after with
          | [] => .ok ⟨current, [operand]⟩
          | t :: after =>
            match nextOperator orAllowed current t after with
            | .error e => .error e
            | .ok op =>
              match operands eof levels orAllowed (some op) after with
              | .error e => .error e
              | .ok c => .ok ⟨c.operator, operand :: c.operands⟩
termination_by ts => (ts.length, 0)
decreasing_by
  · have := length_of_cutAtClose _h
    exact Prod.Lex.left _ _ (by simp only [List.length_cons]; omega)
  · have := length_of_cutAtClose _h
    exact Prod.Lex.left _ _ (by simp only [List.length_cons] at this ⊢; omega)

end

end CssMedia.Grammar
