/-! # Code points and their classes -/

namespace CssMedia.CodePoint

def replacement : Char := '\uFFFD'

/-- The character numbered `n`, or the replacement where `n` is no scalar value. -/
def scalar (n : Nat) : Char :=
  if n.isValidChar then Char.ofNat n else replacement

/-! ## Classes -/

def isBlank (c : Char) : Bool := c == ' ' || c == '\t' || c == '\n'

def isHexDigit (c : Char) : Bool :=
  c.isDigit || ('a' ≤ c && c ≤ 'f') || ('A' ≤ c && c ≤ 'F')

/-- Everything outside ASCII may start a name. -/
def isNameStart (c : Char) : Bool := c.isAlpha || c == '_' || 0x80 ≤ c.toNat

def isNameChar (c : Char) : Bool := isNameStart c || c.isDigit || c == '-'

def isControl (c : Char) : Bool := c.toNat < 0x20 || (0x7F ≤ c.toNat && c.toNat < 0xA0)

/-- Not allowed in a bare `url(...)`. -/
def isNonPrintable (c : Char) : Bool :=
  c.toNat ≤ 0x08 || c.toNat == 0x0B || (0x0E ≤ c.toNat && c.toNat ≤ 0x1F) || c.toNat == 0x7F

def hexDigitValue (c : Char) : Nat :=
  if c.isDigit then c.toNat - '0'.toNat
  else if 'a' ≤ c then c.toNat - 'a'.toNat + 10
  else c.toNat - 'A'.toNat + 10

/-! ## What a text starts with -/

/-- A backslash escapes anything but a line break, and may be the last code point. -/
def startsEscape : List Char → Bool
  | '\\' :: rest => rest.head? != some '\n'
  | _ => false

def startsName : List Char → Bool
  | '-' :: rest => rest.head?.any (fun c => isNameStart c || c == '-') || startsEscape rest
  | '\\' :: rest => startsEscape ('\\' :: rest)
  | c :: _ => isNameStart c
  | [] => false

def startsUnsigned : List Char → Bool
  | '.' :: rest => rest.head?.any Char.isDigit
  | c :: _ => c.isDigit
  | [] => false

def startsNumber : List Char → Bool
  | '+' :: rest => startsUnsigned rest
  | '-' :: rest => startsUnsigned rest
  | s => startsUnsigned s

end CssMedia.CodePoint
