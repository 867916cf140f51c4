/-! # Spans of code points -/

namespace CssMedia

/-- The code points `start` to `stop`, both included. -/
structure Span where
  start : Nat
  stop : Nat
deriving DecidableEq, Repr

namespace Span

def cover (a b : Span) : Span := ⟨min a.start b.start, max a.stop b.stop⟩

def text (s : Span) : String := s!"{s.start}..{s.stop}"

end Span

end CssMedia
