import CssMedia.CommandLine.Arguments
import CssMedia.Dump.Tokens
import CssMedia.Report.Snippet

/-!
# Running a command

The outer layer reads the bytes that an invocation asks for and prints the outcome. All
between is a function.
-/

namespace CssMedia.CommandLine

inductive ReadFailure where
  | notFound
  | permissionDenied
  | isDirectory
  | invalidUtf8
  | other (message : String)
deriving DecidableEq, Repr

def ReadFailure.message : ReadFailure → String
  | .notFound => "No such file or directory (os error 2)"
  | .permissionDenied => "Permission denied (os error 13)"
  | .isDirectory => "Is a directory (os error 21)"
  | .invalidUtf8 => "stream did not contain valid UTF-8"
  | .other message => message

structure Outcome where
  exitCode : UInt32 := 0
  output : String := ""
  errorOutput : String := ""
deriving DecidableEq, Repr

namespace Outcome

def refused : Outcome where
  exitCode := 2
  errorOutput := "error: invalid arguments\n"

def failed (message : String) : Outcome where
  exitCode := 1
  errorOutput := "error: " ++ message ++ "\n"

end Outcome

structure NamedText where
  name : Option String
  text : String
deriving DecidableEq, Repr

/-- The text that an input stands for, given the bytes that it names. -/
def Input.load (bytes : Except ReadFailure ByteArray) : Input → Except String NamedText
  | .missing => .error "input is required: use a positional path, '-' for stdin, or -q/--query"
  | .inline text => .ok ⟨none, text⟩
  | .stdin =>
    match decode bytes with
    | .ok text => .ok ⟨some "<stdin>", text⟩
    | .error failure => .error ("failed to read stdin: " ++ failure.message)
  | .file path =>
    match decode bytes with
    | .ok text => .ok ⟨some path, text⟩
    | .error failure => .error ("failed to read '" ++ path ++ "': " ++ failure.message)
where
  decode (bytes : Except ReadFailure ByteArray) : Except ReadFailure String := do
    match String.fromUTF8? (← bytes) with
    | some text => return text
    | none => throw .invalidUtf8

def report (colored : Bool) (input : NamedText) (errors : List ParseError) : Outcome where
  exitCode := 1
  errorOutput := Report.snippets ⟨input.name, colored⟩ (Input.read input.text) errors

namespace Invocation

/-- Only `check` sees a text exactly as it is written, and so may `ast`. -/
def settings (i : Invocation) : Settings where
  simplify :=
    match i.command with
    | .ast => .raw ∉ i.flags
    | .check => false
    | .format | .tokens => true

/-- What a command prints of a node. For `check` an invalid member of a list is a failure. -/
def outcomeOf (i : Invocation) (colored : Bool) (input : NamedText) (node : Node)
    (errors : List ParseError) : Outcome :=
  match i.command with
  | .ast => { output := if .json ∈ i.flags then node.toJson.text ++ "\n" else node.dump false }
  | .check => if errors = [] then {} else report colored input errors
  | .format | .tokens => { output := node.text ++ "\n" }

def runOn (i : Invocation) (colored : Bool) (input : NamedText) : Outcome :=
  if i.command = .tokens then
    match Lexer.tokens (Input.read input.text) with
    | .error e => report colored input [e]
    | .ok tokens => { output := Dump.tokens ⟨.raw ∈ i.flags, .spans ∈ i.flags⟩ tokens }
  else
    match Node.parse i.settings i.entry input.text with
    | .error e => report colored input [e]
    | .ok (node, errors) => i.outcomeOf colored input node errors

/-- Runs a command on the bytes of its input. In a terminal reports are colored by default. -/
def run (i : Invocation) (bytes : Except ReadFailure ByteArray) (terminal : Bool) : Outcome :=
  let colored :=
    match i.color with
    | .auto => terminal
    | .always => true
    | .never => false
  match i.input.load bytes with
  | .error message => .failed message
  | .ok input => i.runOn colored input

end Invocation

end CssMedia.CommandLine
