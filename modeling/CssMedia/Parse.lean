import CssMedia.Grammar.Query
import CssMedia.Input
import CssMedia.Lexer
import CssMedia.Simplify

/-!
# Parsing texts

A text is read from one of four entry points: as a list, one query, one condition or
one feature. An invalid member of a list is no failure of the list.
-/

namespace CssMedia

structure Settings where
  simplify : Bool := true
  /-- How many conditions may be nested; `none` for any number. -/
  levels : Option Nat := some 256
deriving DecidableEq, Repr

/-- What the grammar reads of a text. -/
structure Source where
  lexemes : List Lexeme
  /-- The number of code points. -/
  eof : Nat

namespace Source

def ofChars (s : List Char) : Except ParseError Source := do
  let tokens ← Lexer.tokens s
  let lexemes ← Lexeme.ofTokens tokens
  return ⟨lexemes, s.length⟩

def read (text : String) : Except ParseError Source := ofChars (Input.read text)

end Source

def QueryList.parse (settings : Settings) (text : String) :
    Except ParseError (QueryList × List ParseError) := do
  let source ← Source.read text
  let (list, errors) := Grammar.queryList source.eof settings.levels source.lexemes
  return (if settings.simplify then list.simplify else list, errors)

def Query.parse (settings : Settings) (text : String) : Except ParseError Query := do
  let source ← Source.read text
  let query ← Grammar.singleQuery source.eof settings.levels source.lexemes
  return if settings.simplify then query.simplify else query

def Condition.parse (settings : Settings) (text : String) : Except ParseError Condition := do
  let source ← Source.read text
  let condition ← Grammar.condition source.eof settings.levels true source.lexemes
  return if settings.simplify then condition.simplify else condition

def Feature.parse (text : String) : Except ParseError Feature := do
  let source ← Source.read text
  Grammar.feature source.eof source.lexemes

end CssMedia
