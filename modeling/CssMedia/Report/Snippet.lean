import CssMedia.Error
import CssMedia.Report.Bytes

/-!
# Reports with a snippet of the source

A report shows the line on which the error starts, marks the spans of the chain on it,
and names each span in a label.
-/

namespace CssMedia.Report

/-! ## Drawing -/

inductive Style where
  | none
  | strong
  | error
  | note
deriving DecidableEq, Repr

def Style.code : Style → String
  | .none => ""
  | .strong => "\x1b[1m"
  | .error => "\x1b[1m\x1b[91m"
  | .note => "\x1b[1m\x1b[94m"

structure Cell where
  char : Char
  style : Style
deriving DecidableEq, Repr

abbrev Row := List Cell

def cells (style : Style) (text : String) : Row := text.toList.map (⟨·, style⟩)

def blanks (n : Nat) : Row := List.replicate n ⟨' ', .none⟩

/-- Draws more at a column past the end of a row. -/
def Row.put (row : Row) (column : Nat) (added : Row) : Row :=
  row ++ blanks (column - row.length) ++ added

def paintRun (run : Row) : String :=
  let text := String.ofList (run.map (·.char))
  match run.head? with
  | none | some ⟨_, .none⟩ => text
  | some ⟨_, style⟩ => style.code ++ text ++ "\x1b[0m"

def Row.paint (colored : Bool) (row : Row) : String :=
  if colored then String.join ((row.splitBy fun a b => a.style == b.style).map paintRun)
  else String.ofList (row.map (·.char))

/-! ## The line of an error -/

/-- A line of the source, which starts `start` bytes into it. -/
structure SourceLine where
  number : Nat
  start : Nat
  text : List Char
deriving DecidableEq, Repr

/--
The line that holds a byte, where `s` is the source from line `number` on. A line break
belongs to the line that it ends, and the end of the text to the last line.
-/
def lineFrom (byte number start : Nat) (s : List Char) : SourceLine :=
  let text := s.takeWhile (· != '\n')
  match _h : s.drop text.length with
  | [] | [_] => ⟨number, start, text⟩
  | _ :: rest =>
    let next := start + byteLength text + 1
    if byte < next then ⟨number, start, text⟩ else lineFrom byte (number + 1) next rest
termination_by s.length
decreasing_by
  have := congrArg List.length _h
  simp only [List.length_drop, List.length_cons] at this
  omega

def lineOf (s : List Char) (byte : Nat) : SourceLine := lineFrom byte 1 0 s

def codePointsBefore (bytes : Nat) : List Char → Nat
  | [] => 0
  | c :: rest => if bytes = 0 then 0 else codePointsBefore (bytes - c.utf8Size) rest + 1

namespace SourceLine

/-- The column in which a byte is shown, counted from zero; the line break is in the last. -/
def column (l : SourceLine) (byte : Nat) : Nat := codePointsBefore (byte - l.start) l.text

/-- The place of a byte on its line, counted from one; there is one after the line break too. -/
def position (l : SourceLine) (byte : Nat) : Nat :=
  codePointsBefore (byte - l.start) (l.text ++ ['\n']) + 1

end SourceLine

/-! ## Labels -/

/-- A marked stretch of the line from column `start` up to `stop`, not included. -/
structure Mark where
  start : Nat
  stop : Nat
  label : String
  style : Style
deriving DecidableEq, Repr

/-- At least one column wide. -/
def mark (s : List Char) (line : SourceLine) (span : Span) (label : String) (style : Style) :
    Mark :=
  let range := span.bytes s
  let start := line.column range.start
  ⟨start, max (start + 1) (line.column range.stop), label, style⟩

def Mark.covers (m : Mark) (column : Nat) : Bool := m.start ≤ column && column < m.stop

def causeMarks (s : List Char) (line : SourceLine) (e : ParseError) : List Mark :=
  (e.causes.filter fun l => lineOf s (l.span.bytes s).start == line).map fun l =>
    mark s line l.span (l.kind.code ++ ": " ++ l.kind.message) .note

/-- A cause is drawn over the outermost mark, unless both mark the same columns. -/
def underline (outer : Mark) (causes : List Mark) : Row :=
  let inner := causes.filter fun m => (m.start, m.stop) ≠ (outer.start, outer.stop)
  let width := inner.foldl (fun n m => max n m.stop) outer.stop
  (List.range width).map fun column =>
    if inner.any (·.covers column) then ⟨'-', .note⟩
    else if outer.covers column then ⟨'^', .error⟩
    else ⟨' ', .none⟩

def ordered (ms : List Mark) : List Mark := ms.mergeSort fun a b => b.start ≤ a.start

/-- A bar at the start of each mark. -/
def bars (ms : List Mark) : Row :=
  ms.foldr (fun m row => if m.start < row.length then row else row.put m.start [⟨'|', m.style⟩]) []

/-- Each label in a row of its own, with bars for the labels still to come. -/
def labelRows : List Mark → List Row
  | [] => []
  | m :: ms =>
    (bars (ms.filter (·.start < m.start))).put m.start (cells m.style m.label) :: labelRows ms

/-- The rows under the source line. A rightmost label that no mark reaches is in the first one. -/
def markRows (outer : Mark) (causes : List Mark) : List Row :=
  let under := underline outer causes
  match ordered (outer :: causes) with
  | [] => [under]
  | first :: rest =>
    let inFirst := rest.all (·.stop ≤ first.start)
    let under := if inFirst then under ++ blanks 1 ++ cells first.style first.label else under
    let left := if inFirst then rest else first :: rest
    if left = [] then [under] else under :: bars left :: labelRows left

/-! ## Whole reports -/

structure Options where
  path : Option String := none
  colored : Bool := false
deriving DecidableEq, Repr

/-- A row beside the gutter, which holds a line number or blanks. -/
def gutterRow (gutter : Row) (row : Row) : Row :=
  gutter ++ blanks 1 ++ cells .note "|" ++ (if row = [] then [] else blanks 1 ++ row)

def errorRows (s : List Char) (path : Option String) (e : ParseError) : List Row :=
  let byte := (e.outermost.span.bytes s).start
  let line := lineOf s byte
  let number := toString line.number
  let pad := blanks number.length
  let place := s!":{line.number}:{line.position byte}"
  [cells .error "error" ++ cells .strong (": " ++ e.outermost.kind.message)] ++
    (path.map fun path => pad ++ cells .note "--> " ++ cells .none (path ++ place)).toList ++
    [gutterRow pad [], gutterRow (cells .note number) (line.text.map (⟨·, .none⟩))] ++
    (markRows (mark s line e.outermost.span e.outermost.kind.code .error)
      (causeMarks s line e)).map (gutterRow pad)

/-- The reports of some errors in a source, with no line break at the end. -/
def snippets (options : Options) (s : List Char) (errors : List ParseError) : String :=
  "\n".intercalate
    ((errors.flatMap (errorRows s options.path)).map (Row.paint options.colored))

end CssMedia.Report
