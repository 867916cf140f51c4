import CssMedia.Span

/-!
# Parse errors

An error is a chain of links, from the outermost rule that failed to the innermost.
-/

namespace CssMedia

inductive ErrorKind where
  | expectParenOrType
  | expectType
  | expectCondition
  | expectAnd
  | expectParenOrTypeOrModifier
  | expectOpenParen
  | expectFeatureOrCondition
  | expectAndOrOr
  | expectCloseParen
  | expectValue
  | expectComparison
  | mixedAndWithOr
  | mismatchedParens
  | emptyQuery
  | emptyCondition
  | emptyFeature
  | openBrace
  | semicolon
  | invalidFeature
  | invalidRange
  | invalidString
  | invalidQuery
  | nestedTooDeeply
deriving DecidableEq, Repr

namespace ErrorKind

def code : ErrorKind → String
  | .expectParenOrType => "EXPECT_LPAREN_OR_TYPE"
  | .expectType => "EXPECT_TYPE"
  | .expectCondition => "EXPECT_CONDITION"
  | .expectAnd => "EXPECT_AND"
  | .expectParenOrTypeOrModifier => "EXPECT_LPAREN_OR_TYPE_OR_MODIFIER"
  | .expectOpenParen => "EXPECT_LPAREN"
  | .expectFeatureOrCondition => "EXPECT_FEATURE_OR_CONDITION"
  | .expectAndOrOr => "EXPECT_AND_OR_OR"
  | .expectCloseParen => "EXPECT_RPAREN"
  | .expectValue => "EXPECT_VALUE"
  | .expectComparison => "EXPECT_RANGE"
  | .mixedAndWithOr => "MIX_AND_WITH_OR"
  | .mismatchedParens => "MISMATCH_PARENS"
  | .emptyQuery => "EMPTY_QUERY"
  | .emptyCondition => "EMPTY_CONDITION"
  | .emptyFeature => "EMPTY_FEATURE"
  | .openBrace => "NO_LCURLY"
  | .semicolon => "NO_SEMICOLON"
  | .invalidFeature => "INVALID_FEATURE"
  | .invalidRange => "INVALID_RANGE"
  | .invalidString => "INVALID_STRING"
  | .invalidQuery => "INVALID_QUERY"
  | .nestedTooDeeply => "RECURSION_LIMIT_EXCEEDED"

def message : ErrorKind → String
  | .expectParenOrType => "expected `(` or a media type"
  | .expectType => "expected a media type"
  | .expectCondition => "expected a media condition"
  | .expectAnd => "expected `and`"
  | .expectParenOrTypeOrModifier => "expected `(`, a media type, or `not`/`only`"
  | .expectOpenParen => "expected `(`"
  | .expectFeatureOrCondition => "expected a media feature or condition"
  | .expectAndOrOr => "expected `and` or `or`"
  | .expectCloseParen => "expected `)`"
  | .expectValue => "expected a number, dimension, ratio or identifier"
  | .expectComparison => "expected a comparison operator"
  | .mixedAndWithOr => "cannot mix `and` and `or` without parentheses"
  | .mismatchedParens => "mismatched parentheses"
  | .emptyQuery => "empty media query"
  | .emptyCondition => "empty media condition"
  | .emptyFeature => "empty media feature"
  | .openBrace => "`\x7b` is not allowed in a media query"
  | .semicolon => "`;` is not allowed in a media query"
  | .invalidFeature => "invalid media feature"
  | .invalidRange => "invalid range"
  | .invalidString => "unterminated string"
  | .invalidQuery => "unexpected input after media query"
  | .nestedTooDeeply => "parentheses nested too deeply"

def all : List ErrorKind :=
  [.expectParenOrType, .expectType, .expectCondition, .expectAnd, .expectParenOrTypeOrModifier,
    .expectOpenParen, .expectFeatureOrCondition, .expectAndOrOr, .expectCloseParen, .expectValue,
    .expectComparison, .mixedAndWithOr, .mismatchedParens, .emptyQuery, .emptyCondition,
    .emptyFeature, .openBrace, .semicolon, .invalidFeature, .invalidRange, .invalidString,
    .invalidQuery, .nestedTooDeeply]

def ofCode? (code : String) : Option ErrorKind := all.find? (·.code == code)

/-- No part of a text with such an error can be read. -/
def isFatal : ErrorKind → Bool
  | .invalidString | .openBrace | .semicolon => true
  | _ => false

end ErrorKind

structure ErrorLink where
  kind : ErrorKind
  span : Span
deriving DecidableEq, Repr

def ErrorLink.text (l : ErrorLink) : String := s!"{l.kind.message} at {l.span.text}"

structure ParseError where
  outermost : ErrorLink
  /-- The links that `outermost` follows from, the innermost last. -/
  causes : List ErrorLink
deriving DecidableEq, Repr

namespace ParseError

def single (kind : ErrorKind) (span : Span) : ParseError := ⟨⟨kind, span⟩, []⟩

def wrap (e : ParseError) (kind : ErrorKind) (span : Span) : ParseError :=
  ⟨⟨kind, span⟩, e.outermost :: e.causes⟩

def chain (e : ParseError) : List ErrorLink := e.outermost :: e.causes

def innermost (e : ParseError) : ErrorLink := e.causes.getLastD e.outermost

def kinds (e : ParseError) : List ErrorKind := e.chain.map (·.kind)

def isFatal (e : ParseError) : Bool := e.chain.any (·.kind.isFatal)

def text (e : ParseError) : String := e.outermost.text

end ParseError

end CssMedia
