import CssMedia.Numeral

/-! # Names and units as written in a style sheet -/

namespace CssMedia.Text

open CodePoint

/-- The number of a code point in hex. The blank ends it, whatever follows. -/
def codeEscape (c : Char) : List Char := '\\' :: Nat.toDigits 16 c.toNat ++ [' ']

def nameChar (c : Char) : List Char :=
  if isControl c then codeEscape c else if isNameChar c then [c] else ['\\', c]

def nameTail (name : List Char) : List Char := name.flatMap nameChar

/-- A name that starts with a digit would read as a number. -/
def nameHead : List Char → List Char
  | c :: rest => if c.isDigit then codeEscape c ++ nameTail rest else nameTail (c :: rest)
  | [] => []

/-- A lone `-` would not read as a name, and a digit after it would read as a number. -/
def name : List Char → List Char
  | ['-'] => ['\\', '-']
  | '-' :: rest => '-' :: nameHead rest
  | name => nameHead name

/-- A unit that starts like an exponent would become part of the number before it. -/
def unit : List Char → List Char
  | c :: rest =>
    if (Numeral.scanExponent (c :: rest)).2 = [] then name (c :: rest)
    else codeEscape c ++ nameTail rest
  | [] => []

end CssMedia.Text
