import CssMedia.Text.Invisible

/-! # Quoted text -/

namespace CssMedia.Text

/-- The quote, the backslash and what cannot be seen are escaped. -/
def quotedChar (quote c : Char) : List Char :=
  if c = '\x00' then ['\\', '0']
  else if c = '\t' then ['\\', 't']
  else if c = '\r' then ['\\', 'r']
  else if c = '\n' then ['\\', 'n']
  else if c = '\\' || c = quote then ['\\', c]
  else if isInvisible c then '\\' :: 'u' :: '\x7b' :: Nat.toDigits 16 c.toNat ++ ['\x7d']
  else [c]

def quoted (quote : Char) (s : List Char) : List Char :=
  quote :: s.flatMap (quotedChar quote) ++ [quote]

end CssMedia.Text
