import CssMedia.Error

/-! # Plain reports: a line for each link of a chain, each deeper than the link before -/

namespace CssMedia.Report

def linkLine (depth : Nat) (l : ErrorLink) : String :=
  "".pushn ' ' (2 * depth) ++ l.kind.code ++ ": " ++ l.text ++ "\n"

def chainText (depth : Nat) : List ErrorLink → String
  | [] => ""
  | l :: ls => linkLine depth l ++ chainText (depth + 1) ls

/-- An empty line separates the reports of two errors. -/
def plain (errors : List ParseError) : String :=
  "\n".intercalate (errors.map fun e => chainText 0 e.chain)

end CssMedia.Report
