import CssMedia.Binary64.Text

/-! # JSON values and their indented text -/

namespace CssMedia

inductive Json where
  | null
  | number (value : Binary64)
  | string (value : String)
  | array (items : List Json)
  /-- The fields in the order in which they are written. -/
  | object (fields : List (String × Json))

namespace Json

/-! ## Strings -/

def hexByte (n : Nat) : List Char := [Nat.digitChar (n / 16), Nat.digitChar (n % 16)]

def escapedChar (c : Char) : List Char :=
  if c = '"' || c = '\\' then ['\\', c]
  else if c = '\x08' then ['\\', 'b']
  else if c = '\x0c' then ['\\', 'f']
  else if c = '\n' then ['\\', 'n']
  else if c = '\r' then ['\\', 'r']
  else if c = '\t' then ['\\', 't']
  else if c.toNat < 0x20 then '\\' :: 'u' :: '0' :: '0' :: hexByte c.toNat
  else [c]

def stringChars (s : String) : List Char := '"' :: s.toList.flatMap escapedChar ++ ['"']

/-! ## Values -/

def newline (depth : Nat) : List Char := '\n' :: List.replicate (2 * depth) ' '

mutual

def chars (depth : Nat) : Json → List Char
  | .null => "null".toList
  | .number v => v.jsonText.toList
  | .string s => stringChars s
  | .array [] => ['[', ']']
  | .array (item :: items) =>
    '[' :: newline (depth + 1) ++ item.chars (depth + 1) ++ itemsChars (depth + 1) items ++
      newline depth ++ [']']
  | .object [] => ['\x7b', '\x7d']
  | .object ((key, value) :: fields) =>
    '\x7b' :: newline (depth + 1) ++ stringChars key ++ [':', ' '] ++ value.chars (depth + 1) ++
      fieldsChars (depth + 1) fields ++ newline depth ++ ['\x7d']

def itemsChars (depth : Nat) : List Json → List Char
  | [] => []
  | item :: items => ',' :: newline depth ++ item.chars depth ++ itemsChars depth items

def fieldsChars (depth : Nat) : List (String × Json) → List Char
  | [] => []
  | (key, value) :: fields =>
    ',' :: newline depth ++ stringChars key ++ [':', ' '] ++ value.chars depth ++
      fieldsChars depth fields

end

def text (j : Json) : String := String.ofList (j.chars 0)

end Json

end CssMedia
