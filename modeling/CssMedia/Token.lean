import CssMedia.Numeral
import CssMedia.Span

/-! # Tokens -/

namespace CssMedia

/-- Whether what follows the `#` would also be a name. -/
inductive HashFlag where
  | id
  | unrestricted
deriving DecidableEq, Repr

def HashFlag.name : HashFlag → String
  | .id => "id"
  | .unrestricted => "unrestricted"

inductive TokenKind where
  | whitespace
  | string (value : String)
  | hash (value : String) (flag : HashFlag)
  | delim (c : Char)
  | comma
  | openParen
  | closeParen
  | dimension (value : Binary64) (unit : String) (flag : NumberFlag)
  | number (value : Binary64) (flag : NumberFlag)
  | percentage (value : Binary64) (flag : NumberFlag)
  | ident (name : String)
  | function (name : String)
  | url (value : String)
  | cdc
  | colon
  | semicolon
  | cdo
  | atKeyword (name : String)
  | openBracket
  | closeBracket
  | openBrace
  | closeBrace
  | eof
deriving DecidableEq

namespace TokenKind

def name : TokenKind → String
  | .whitespace => "Whitespace"
  | .string _ => "String"
  | .hash .. => "Hash"
  | .delim _ => "Delim"
  | .comma => "Comma"
  | .openParen => "ParenOpen"
  | .closeParen => "ParenClose"
  | .dimension .. => "Dimension"
  | .number .. => "Number"
  | .percentage .. => "Percentage"
  | .ident _ => "Ident"
  | .function _ => "Function"
  | .url _ => "Url"
  | .cdc => "Cdc"
  | .colon => "Colon"
  | .semicolon => "Semicolon"
  | .cdo => "Cdo"
  | .atKeyword _ => "AtKeyword"
  | .openBracket => "BracketOpen"
  | .closeBracket => "BracketClose"
  | .openBrace => "BraceOpen"
  | .closeBrace => "BraceClose"
  | .eof => "Eof"

/-- A function is closed by a `)` too. -/
def opensParen : TokenKind → Bool
  | .openParen | .function _ => true
  | _ => false

end TokenKind

structure Token where
  kind : TokenKind
  span : Span
deriving DecidableEq

end CssMedia
