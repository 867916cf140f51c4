/-! # Lines of text, each ended by a line feed -/

namespace CssMedia.Dump

def ofLines (lines : List String) : String := String.join (lines.map (· ++ "\n"))

end CssMedia.Dump
