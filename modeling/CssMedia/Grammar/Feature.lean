import CssMedia.Lexeme
import CssMedia.Query

/-!
# Features in parentheses

First the ratios in a group become single items, then the number and the kinds of
the items tell the form of the feature.
-/

namespace CssMedia.Grammar

inductive Item where
  | lexeme (t : Lexeme)
  | ratio (numerator denominator : Binary64) (span : Span)
deriving DecidableEq

namespace Item

def span : Item → Span
  | .lexeme t => t.span
  | .ratio _ _ span => span

def ident? : Item → Option String
  | .lexeme t => t.ident?
  | .ratio .. => none

def isDelim (c : Char) : Item → Bool
  | .lexeme t => t.isDelim c
  | .ratio .. => false

def isColon : Item → Bool
  | .lexeme t => t.kind == .colon
  | .ratio .. => false

def value? : Item → Option Value
  | .ratio numerator denominator _ => some (.ratio numerator denominator)
  | .lexeme t =>
    match t.kind with
    | .number value flag => some (.number value flag)
    | .dimension value unit flag => some (.dimension value unit flag)
    | .ident name => some (.ident name)
    | _ => none

/-- In a range the only word that is a value is `infinite`. -/
def rangeValue? (i : Item) : Option Value :=
  match i.value? with
  | some (.ident name) => if name = "infinite" then some (.ident name) else none
  | value => value

end Item

def positiveNumber? (t : Lexeme) : Option Binary64 :=
  match t.kind with
  | .number value _ => if value.isPositive then some value else none
  | _ => none

/-- The ratio at the start of some lexemes: two positive numbers around a slash. -/
def ratio? : List Lexeme → Option Item
  | a :: slash :: b :: _ =>
    match positiveNumber? a, positiveNumber? b with
    | some n, some d => if slash.isDelim '/' then some (.ratio n d (a.span.cover b.span)) else none
    | _, _ => none
  | _ => none

/-- Ratios are taken from the left, and a lexeme is part of one at most. -/
def items : List Lexeme → List Item
  | [] => []
  | t :: ts =>
    match ratio? (t :: ts) with
    | some ratio => ratio :: items (ts.drop 2)
    | none => .lexeme t :: items ts
termination_by ts => ts.length

/-! ## Ranges -/

/-- A comparison and what follows it. An `=` belongs to the `<` or `>` right before it. -/
def comparison (span : Span) : List Item → Except ParseError (Comparison × List Item)
  | [] => .error (.single .expectComparison span)
  | i :: rest =>
    let (inclusive, afterInclusive) :=
      match rest with
      | .lexeme t :: after => (t.isDelim '=' && !t.afterSpace, after)
      | _ => (false, [])
    if i.isDelim '<' then
      .ok (if inclusive then (.lessOrEqual, afterInclusive) else (.less, rest))
    else if i.isDelim '>' then
      .ok (if inclusive then (.greaterOrEqual, afterInclusive) else (.greater, rest))
    else if i.isDelim '=' then .ok (.equal, rest)
    else .error (.single .expectComparison i.span)

/-- The last value of a range, with nothing after it. -/
def lastValue (span : Span) : List Item → Except ParseError Value
  | [i] =>
    match i.rangeValue? with
    | some value => .ok value
    | none => .error (.single .invalidRange span)
  | _ => .error (.single .invalidRange span)

/-- The form `name < value`. -/
def rightRange (span : Span) (name : String) (rest : List Item) : Except ParseError Feature := do
  let (c, rest) ← comparison span rest
  let value ← lastValue span rest
  return .range name none (some ⟨value, c⟩)

/-- The forms `value < name` and `value < name < value`, after the first value. -/
def leftRange (span : Span) (first : Value) (rest : List Item) : Except ParseError Feature := do
  let (c, rest) ← comparison span rest
  match rest with
  | [] => throw (.single .invalidRange span)
  | i :: rest =>
    match i.ident?, rest with
    | none, _ => throw (.single .invalidRange span)
    | some name, [] => return .range name (some ⟨first, c⟩) none
    | some name, rest =>
      let (d, rest) ← comparison span rest
      let last ← lastValue span rest
      if c.direction = d.direction ∧ c ≠ .equal then
        return .range name (some ⟨first, c⟩) (some ⟨last, d⟩)
      else throw (.single .invalidRange span)

def range (span : Span) : List Item → Except ParseError Feature
  | [] => .error (.single .invalidRange span)
  | i :: rest =>
    match i.rangeValue?, i.ident? with
    | some first, _ => leftRange span first rest
    | none, some name => rightRange span name rest
    | none, none => .error (.single .invalidRange span)

/-! ## All forms -/

/-- Splits `min-` or `max-` off a name, if something is left of it. -/
def splitExtremum (name : String) : Option Extremum × String :=
  match name.toList with
  | 'm' :: 'i' :: 'n' :: '-' :: c :: rest => (some .min, String.ofList (c :: rest))
  | 'm' :: 'a' :: 'x' :: '-' :: c :: rest => (some .max, String.ofList (c :: rest))
  | _ => (none, name)

/-- The feature in a group that spans `span`. -/
def featureOfItems (span : Span) : List Item → Except ParseError Feature
  | [i] =>
    match i.ident? with
    | some name => .ok (.boolean name)
    | none => .error (.single .invalidFeature span)
  | [i, colon, v] =>
    if colon.isColon then
      match i.ident?, v.value? with
      | none, _ => .error (.single .invalidFeature span)
      | some _, none => .error (.single .expectValue v.span)
      | some name, some value =>
        let (extremum, name) := splitExtremum name
        .ok (.plain name extremum value)
    else range span [i, colon, v]
  | i :: j :: k :: rest => range span (i :: j :: k :: rest)
  | _ => .error (.single .invalidFeature span)

def isBracket : TokenKind → Bool
  | .openParen | .closeParen | .function _ | .openBracket | .closeBracket => true
  | _ => false

/-- One group in parentheses with no brackets inside. -/
def feature (eof : Nat) : List Lexeme → Except ParseError Feature
  | [] => .error (.single .emptyFeature ⟨eof, eof⟩)
  | first :: rest =>
    let span := Lexeme.spanOf eof (first :: rest)
    if first.kind ≠ .openParen then .error (.single .expectOpenParen first.span)
    else if rest.getLast?.map (·.kind) ≠ some .closeParen then
      .error (.single .expectCloseParen span)
    else
      let interior := rest.dropLast
      if interior = [] then .error (.single .emptyFeature span)
      else if interior.any (isBracket ·.kind) then .error (.single .invalidFeature span)
      else featureOfItems span (items interior)

end CssMedia.Grammar
