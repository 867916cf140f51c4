import CssMedia.Grammar.Condition

/-! # Queries and query lists -/

namespace CssMedia.Grammar

def conditionQuery (eof : Nat) (levels : Option Nat) (ts : List Lexeme) : Except ParseError Query :=
  match condition eof levels true ts with
  | .error e => .error (within .expectCondition (Lexeme.spanOf eof ts) e)
  | .ok c => .ok ⟨none, .all, some c⟩

/-- A media type that no device has stands for `not all`, and its negation for `all`. -/
def mediaType (modifier : Option Modifier) (t : Lexeme) :
    Except ParseError (Option Modifier × MediaType) :=
  match t.ident? with
  | none => .error (.single .expectType t.span)
  | some name =>
    match MediaType.ofName? name with
    | some type => .ok (modifier, type)
    | none =>
      if MediaType.neverMatching.contains name then
        .ok (if modifier = some .not then none else some .not, .all)
      else .error (.single .expectType t.span)

/-- What may follow a media type: nothing, or `and` and a condition without `or`. -/
def afterType (eof : Nat) (levels : Option Nat) : List Lexeme → Except ParseError (Option Condition)
  | [] => .ok none
  | t :: ts =>
    if !t.isIdent "and" then .error (.single .expectAnd t.span)
    else if ts = [] then .error (.single .expectCondition t.span)
    else
      match condition eof levels false ts with
      | .error e => .error (within .expectCondition (Lexeme.spanOf eof ts) e)
      | .ok c => .ok (some c)

def typed (eof : Nat) (levels : Option Nat) (modifier : Option Modifier) (t : Lexeme)
    (rest : List Lexeme) : Except ParseError Query := do
  let (modifier, type) ← mediaType modifier t
  let c ← afterType eof levels rest
  return ⟨modifier, type, c⟩

def modifier? (t : Lexeme) : Option Modifier :=
  if t.isIdent "not" then some .not
  else if t.isIdent "only" then some .only
  else none

/-- What may follow a modifier: a media type, and after `not` a parenthesis too. -/
def missingType : Modifier → ErrorKind
  | .not => .expectParenOrType
  | .only => .expectType

def query (eof : Nat) (levels : Option Nat) : List Lexeme → Except ParseError Query
  | [] => .error (.single .emptyQuery ⟨eof, eof⟩)
  | first :: rest =>
    if first.kind = .openParen then conditionQuery eof levels (first :: rest)
    else if first.ident?.isNone then .error (.single .expectParenOrTypeOrModifier first.span)
    else
      match modifier? first, rest with
      | none, _ => typed eof levels none first rest
      | some m, [] => .error (.single (missingType m) first.span)
      | some m, next :: after =>
        if m = .not ∧ next.kind = .openParen then conditionQuery eof levels (first :: rest)
        else if next.ident?.isSome then typed eof levels (some m) next after
        else .error (.single (missingType m) next.span)

/-! ## Lists -/

/-- The members, each on its own; a list with nothing in it matches every device. -/
def members (eof : Nat) (levels : Option Nat) (ts : List Lexeme) : List (Except ParseError Query) :=
  match (segments ts).filter (· != []) with
  | [] => [.ok .all]
  | segments => segments.map (query eof levels)

/-- The list, and the errors of its invalid members in order. -/
def queryList (eof : Nat) (levels : Option Nat) (ts : List Lexeme) : QueryList × List ParseError :=
  let results := members eof levels ts
  (⟨results.map Except.toOption⟩,
    results.filterMap fun
      | .error e => some e
      | .ok _ => none)

/-- Exactly one query; a comma after it is an error. -/
def singleQuery (eof : Nat) (levels : Option Nat) (ts : List Lexeme) : Except ParseError Query :=
  match cutAtComma [] ts with
  | none => query eof levels ts
  | some (before, comma, after) =>
    match query eof levels before with
    | .error e => .error e
    | .ok _ => .error (.single .invalidQuery (Lexeme.spanOf eof (comma :: after)))

end CssMedia.Grammar
