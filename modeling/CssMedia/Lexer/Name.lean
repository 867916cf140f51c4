import CssMedia.CodePoint

/-!
# Escapes and names

A scanner gives what it read and how many code points that took.
-/

namespace CssMedia.Lexer

open CodePoint

def hexRun (s : List Char) : List Char := (s.take 6).takeWhile isHexDigit

def hexValue (digits : List Char) : Nat :=
  digits.foldl (fun n c => 16 * n + hexDigitValue c) 0

/-- The code point with a number given in hex; there is none with the number zero. -/
def hexScalar (digits : List Char) : Char :=
  if hexValue digits = 0 then replacement else scalar (hexValue digits)

/-- What a backslash escapes, given the text after it. Hex digits take one blank along. -/
def scanEscape : List Char → Char × Nat
  | [] => (replacement, 0)
  | c :: rest =>
    if isHexDigit c then
      let digits := hexRun (c :: rest)
      let blank := if ((c :: rest).drop digits.length).head?.any isBlank then 1 else 0
      (hexScalar digits, digits.length + blank)
    else (c, 1)

def scanName : List Char → List Char × Nat
  | [] => ([], 0)
  | c :: rest =>
    if isNameChar c then
      let (name, n) := scanName rest
      (c :: name, n + 1)
    else if startsEscape (c :: rest) then
      let (e, k) := scanEscape rest
      let (name, n) := scanName (rest.drop k)
      (e :: name, n + k + 1)
    else ([], 0)
termination_by s => s.length

end CssMedia.Lexer
