import CssMedia.Lexer.Name

/-! # The bodies of strings, bare urls and comments -/

namespace CssMedia.Lexer

open CodePoint

/-- A string after its opening quote, through the closing one; `none` if its line ends first. -/
def scanString (quote : Char) : List Char → Option (List Char) × Nat
  | [] => (none, 0)
  | c :: rest =>
    if c = quote then (some [], 1)
    else if c = '\n' then (none, 1)
    else if c = '\\' then
      match rest with
      | [] => (none, 1)
      | '\n' :: rest =>
        let (value, n) := scanString quote rest
        (value, n + 2)
      | next :: rest =>
        let (e, k) := scanEscape (next :: rest)
        let (value, n) := scanString quote ((next :: rest).drop k)
        (value.map (e :: ·), n + k + 1)
    else
      let (value, n) := scanString quote rest
      (value.map (c :: ·), n + 1)
termination_by s => s.length

/-- A bare url through its `)` or the end of the text; `none` if it is malformed. -/
def scanUrl : List Char → Option (List Char × Nat)
  | [] => some ([], 0)
  | c :: rest =>
    if c = ')' then some ([], 1)
    else if isBlank c then
      let blanks := (rest.takeWhile isBlank).length
      match rest.drop blanks with
      | [] => some ([], blanks + 1)
      | ')' :: _ => some ([], blanks + 2)
      | _ => none
    else if c == '"' || c == '\'' || c == '(' || isNonPrintable c then none
    else if c = '\\' then
      if startsEscape (c :: rest) then
        let (e, k) := scanEscape rest
        (scanUrl (rest.drop k)).map fun (value, n) => (e :: value, n + k + 1)
      else none
    else (scanUrl rest).map fun (value, n) => (c :: value, n + 1)
termination_by s => s.length

/-- The length of a comment after its opening, which may be unterminated. -/
def commentLength : List Char → Nat
  | '*' :: '/' :: _ => 2
  | _ :: rest => commentLength rest + 1
  | [] => 0

/-- The length of all comments at the start of a text. -/
def commentsLength : List Char → Nat
  | '/' :: '*' :: rest => 2 + commentLength rest + commentsLength (rest.drop (commentLength rest))
  | _ => 0
termination_by s => s.length

end CssMedia.Lexer
