import CssMedia.CodePoint

/-!
# Input text

Every line break becomes one line feed, and what may not occur in a style sheet
becomes the replacement character.
-/

namespace CssMedia.Input

open CodePoint

def clean : List Char → List Char
  | '\r' :: '\n' :: rest => '\n' :: clean rest
  | '\r' :: rest => '\n' :: clean rest
  | '\x0c' :: rest => '\n' :: clean rest
  | '\x00' :: rest => replacement :: clean rest
  | c :: rest => c :: clean rest
  | [] => []

def read (text : String) : List Char := clean text.toList

/-! ## UTF-16 -/

def isHighSurrogate (u : UInt16) : Bool := 0xD800 ≤ u && u < 0xDC00

def isLowSurrogate (u : UInt16) : Bool := 0xDC00 ≤ u && u < 0xE000

def surrogatePair (high low : UInt16) : Char :=
  scalar (0x10000 + (high.toNat - 0xD800) * 0x400 + (low.toNat - 0xDC00))

/-- A surrogate without its partner is replaced. -/
def decodeUtf16 : List UInt16 → List Char
  | u :: v :: rest =>
    if isHighSurrogate u && isLowSurrogate v then surrogatePair u v :: decodeUtf16 rest
    else scalar u.toNat :: decodeUtf16 (v :: rest)
  | [u] => [scalar u.toNat]
  | [] => []

def readUtf16 (units : List UInt16) : List Char := clean (decodeUtf16 units)

end CssMedia.Input
