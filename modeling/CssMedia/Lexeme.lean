import CssMedia.Error
import CssMedia.Token

/-!
# Lexemes

What the grammar reads: tokens without the blanks between them, each with a note of
whether blanks came before it. A media query holds no opening brace and no semicolon.
-/

namespace CssMedia

structure Lexeme where
  kind : TokenKind
  span : Span
  afterSpace : Bool
deriving DecidableEq

namespace Lexeme

def ident? (t : Lexeme) : Option String :=
  match t.kind with
  | .ident name => some name
  | _ => none

def isIdent (t : Lexeme) (name : String) : Bool := t.kind == .ident name

def isDelim (t : Lexeme) (c : Char) : Bool := t.kind == .delim c

/-- The lexemes of some tokens, where `afterSpace` tells of blanks before the first. -/
def ofTokensAfter (afterSpace : Bool) : List Token → Except ParseError (List Lexeme)
  | [] => .ok []
  | ⟨.whitespace, _⟩ :: rest => ofTokensAfter true rest
  | ⟨.eof, _⟩ :: rest => ofTokensAfter afterSpace rest
  | ⟨.openBrace, span⟩ :: _ => .error (.single .openBrace span)
  | ⟨.semicolon, span⟩ :: _ => .error (.single .semicolon span)
  | ⟨kind, span⟩ :: rest => (ofTokensAfter false rest).map (⟨kind, span, afterSpace⟩ :: ·)

def ofTokens : List Token → Except ParseError (List Lexeme) := ofTokensAfter false

/-- The span from the first lexeme to the last, or the empty one at the end of the text. -/
def spanOf (eof : Nat) : List Lexeme → Span
  | [] => ⟨eof, eof⟩
  | t :: ts => t.span.cover (ts.getLastD t).span

end Lexeme

end CssMedia
