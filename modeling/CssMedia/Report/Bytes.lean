import CssMedia.Span

/-! # Ranges of bytes in the UTF-8 form of a text -/

namespace CssMedia

/-- The bytes from `start` up to `stop`, which is not included. -/
structure ByteRange where
  start : Nat
  stop : Nat
deriving DecidableEq, Repr

def byteLength : List Char → Nat
  | [] => 0
  | c :: s => c.utf8Size + byteLength s

/-- The bytes of a span, cut off at the end of the text. -/
def Span.bytes (s : List Char) (span : Span) : ByteRange :=
  if s.length ≤ span.start then ⟨byteLength s, byteLength s⟩
  else ⟨byteLength (s.take span.start), byteLength (s.take (span.stop + 1))⟩

end CssMedia
