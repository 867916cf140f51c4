import CssMedia.Dump.Lines
import CssMedia.Text.Quoted
import CssMedia.Token

/-! # Dumps of tokens: one line for each -/

namespace CssMedia

namespace TokenKind

/-- What a token holds, where it holds anything. Text that need not be a name is quoted. -/
def payload? : TokenKind → Option String
  | .string value | .url value => some (String.ofList (Text.quoted '"' value.toList))
  | .delim c => some (String.ofList (Text.quoted '\'' [c]))
  | .ident name | .function name | .atKeyword name => some name
  | .hash value flag => some (value ++ " " ++ flag.name)
  | .number value flag | .percentage value flag => some (value.text ++ " " ++ flag.name)
  | .dimension value unit flag => some (value.text ++ unit ++ " " ++ flag.name)
  | _ => none

def text (k : TokenKind) : String :=
  match k.payload? with
  | none => k.name
  | some payload => k.name ++ " " ++ payload

def isFiller : TokenKind → Bool
  | .whitespace | .eof => true
  | _ => false

end TokenKind

namespace Dump

structure TokenOptions where
  /-- Keeps blanks and the end of the text. -/
  raw : Bool := false
  spans : Bool := false
deriving DecidableEq, Repr

def tokenLine (options : TokenOptions) (t : Token) : String :=
  if options.spans then t.kind.text ++ " @ " ++ t.span.text else t.kind.text

def tokenLines (options : TokenOptions) (ts : List Token) : List String :=
  (ts.filter fun t => options.raw || !t.kind.isFiller).map (tokenLine options)

def tokens (options : TokenOptions) (ts : List Token) : String := ofLines (tokenLines options ts)

end Dump

end CssMedia
