import CssMedia.Lexeme

/-!
# Brackets

Two ways to match brackets. Between the members of a list all three kinds count, and
a closing bracket that does not fit the innermost open one is passed over. Inside a
condition only parentheses count.
-/

namespace CssMedia.Grammar

inductive Bracket where
  | paren
  | bracket
  | brace
deriving DecidableEq, Repr

/-! ## Members of a list -/

def Bracket.openedBy? : TokenKind → Option Bracket
  | .openParen | .function _ => some .paren
  | .openBracket => some .bracket
  | .openBrace => some .brace
  | _ => none

def Bracket.closedBy? : TokenKind → Option Bracket
  | .closeParen => some .paren
  | .closeBracket => some .bracket
  | .closeBrace => some .brace
  | _ => none

/-- The open brackets, innermost first, after one more token. -/
def nest (stack : List Bracket) (kind : TokenKind) : List Bracket :=
  match Bracket.openedBy? kind, Bracket.closedBy? kind, stack with
  | some b, _, _ => b :: stack
  | none, some b, top :: below => if top = b then below else stack
  | none, _, _ => stack

/-- Cuts at the first comma outside all brackets. -/
def cutAtComma (stack : List Bracket) : List Lexeme → Option (List Lexeme × Lexeme × List Lexeme)
  | [] => none
  | t :: ts =>
    if t.kind = .comma ∧ stack = [] then some ([], t, ts)
    else
      match cutAtComma (nest stack t.kind) ts with
      | none => none
      | some (before, comma, after) => some (t :: before, comma, after)

theorem length_of_cutAtComma {stack : List Bracket} {ts before after : List Lexeme} {comma : Lexeme}
    (h : cutAtComma stack ts = some (before, comma, after)) :
    ts.length = before.length + 1 + after.length := by
  induction ts generalizing stack before with
  | nil => simp [cutAtComma] at h
  | cons t ts ih =>
    rw [cutAtComma] at h
    split at h
    · cases h; simp; omega
    · split at h
      · cases h
      · next hcut =>
        cases h
        have := ih hcut
        simp; omega

/-- The stretches between the commas outside all brackets. -/
def segments (ts : List Lexeme) : List (List Lexeme) :=
  match _h : cutAtComma [] ts with
  | none => [ts]
  | some (before, _, after) => before :: segments after
termination_by ts.length
decreasing_by have := length_of_cutAtComma _h; omega

/-! ## Parentheses -/

/-- Cuts at the `)` that closes a parenthesis, given what follows it and how many more are open. -/
def cutAtClose (depth : Nat) : List Lexeme → Option (List Lexeme × Lexeme × List Lexeme)
  | [] => none
  | t :: ts =>
    if t.kind = .closeParen ∧ depth = 0 then some ([], t, ts)
    else
      let depth :=
        if t.kind = .closeParen then depth - 1
        else if t.kind.opensParen then depth + 1
        else depth
      match cutAtClose depth ts with
      | none => none
      | some (interior, close, after) => some (t :: interior, close, after)

theorem length_of_cutAtClose {depth : Nat} {ts interior after : List Lexeme} {close : Lexeme}
    (h : cutAtClose depth ts = some (interior, close, after)) :
    ts.length = interior.length + 1 + after.length := by
  induction ts generalizing depth interior with
  | nil => simp [cutAtClose] at h
  | cons t ts ih =>
    rw [cutAtClose] at h
    split at h
    · cases h; simp; omega
    · simp only at h
      split at h
      · cases h
      · next hcut =>
        cases h
        have := ih hcut
        simp; omega

end CssMedia.Grammar
