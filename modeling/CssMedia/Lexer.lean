import CssMedia.Error
import CssMedia.Lexer.Body
import CssMedia.Token

/-!
# The lexer

`nextToken` reads the longest token at the start of a text; `tokens` does so up to
the end, passing over comments. The only text without tokens is one with an
unterminated string.
-/

namespace CssMedia.Lexer

open CodePoint

def lowercase (name : List Char) : String := String.ofList (name.map Char.toLower)

/-! ## Tokens that start with a name or a number -/

/-- A name before a parenthesis is a function. After `url(` a bare url may follow. -/
def scanIdentLike (s : List Char) : TokenKind × Nat :=
  let (name, n) := scanName s
  let name := lowercase name
  match s.drop n with
  | '(' :: rest =>
    if name = "url" then
      let blanks := (rest.takeWhile isBlank).length
      let body := rest.drop blanks
      match body.head?, scanUrl body with
      | some '"', _ | some '\'', _ | _, none => (.function name, n + 1)
      | _, some (value, k) => (.url (String.ofList value), n + 1 + blanks + k)
    else (.function name, n + 1)
  | _ => (.ident name, n)

/-- A name directly after a number is its unit. -/
def scanNumeric (s : List Char) : TokenKind × Nat :=
  let numeral := Numeral.scan s
  let rest := s.drop numeral.length
  if startsName rest then
    let (unit, n) := scanName rest
    (.dimension numeral.value (lowercase unit) .number, numeral.length + n)
  else if rest.head? = some '%' then
    (.percentage numeral.value numeral.flag, numeral.length + 1)
  else (.number numeral.value numeral.flag, numeral.length)

/-- A `#` with nothing of a name after it stands for itself. -/
def scanHash (rest : List Char) : TokenKind × Nat :=
  if rest.head?.any isNameChar || startsEscape rest then
    let (value, n) := scanName rest
    (.hash (String.ofList value) (if startsName rest then .id else .unrestricted), n + 1)
  else (.delim '#', 1)

/-! ## All tokens -/

/-- The token of a code point that is one by itself. -/
def punctuation : Char → TokenKind
  | '(' => .openParen
  | ')' => .closeParen
  | '[' => .openBracket
  | ']' => .closeBracket
  | '\x7b' => .openBrace
  | '\x7d' => .closeBrace
  | ',' => .comma
  | ':' => .colon
  | ';' => .semicolon
  | c => .delim c

/-- The token at the start of `c :: rest` and its length; no token if a string is unterminated. -/
def nextToken (c : Char) (rest : List Char) : Option TokenKind × Nat :=
  if isBlank c then (some .whitespace, (rest.takeWhile isBlank).length + 1)
  else if c == '"' || c == '\'' then
    let (value, n) := scanString c rest
    (value.map fun value => .string (String.ofList value), n + 1)
  else if c = '#' then (scanHash rest).map some id
  else if startsNumber (c :: rest) then (scanNumeric (c :: rest)).map some id
  else if ['-', '-', '>'] <+: c :: rest then (some .cdc, 3)
  else if ['<', '!', '-', '-'] <+: c :: rest then (some .cdo, 4)
  else if c == '@' && startsName rest then
    let (name, n) := scanName rest
    (some (.atKeyword (lowercase name)), n + 1)
  else if startsName (c :: rest) then (scanIdentLike (c :: rest)).map some id
  else (some (punctuation c), 1)

/-- The tokens of `s`, whose first code point has the position `start`. -/
def tokensFrom (start : Nat) (s : List Char) : Except ParseError (List Token) :=
  let comments := commentsLength s
  let start := start + comments
  match _h : s.drop comments with
  | [] => .ok [⟨.eof, ⟨start, start⟩⟩]
  | c :: rest =>
    match nextToken c rest with
    | (none, n) => .error (.single .invalidString ⟨start, start + (n - 1)⟩)
    | (some kind, n) =>
      match tokensFrom (start + (n - 1) + 1) (rest.drop (n - 1)) with
      | .error e => .error e
      | .ok tokens => .ok (⟨kind, ⟨start, start + (n - 1)⟩⟩ :: tokens)
termination_by s.length
decreasing_by
  have := congrArg List.length _h
  simp only [List.length_drop, List.length_cons] at this ⊢
  omega

def tokens (s : List Char) : Except ParseError (List Token) := tokensFrom 0 s

end CssMedia.Lexer
