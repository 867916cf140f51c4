import CssMedia.Node

/-!
# Command line arguments

A command line is a command with its options. It is refused as a whole if any word of it
is not known to the command, is repeated or has a value that is not allowed.
-/

namespace CssMedia.CommandLine

/-! ## What a command line says -/

inductive Command where
  | ast
  | check
  | format
  | tokens
deriving DecidableEq, Repr

namespace Command

def name : Command → String
  | .ast => "ast"
  | .check => "check"
  | .format => "format"
  | .tokens => "tokens"

def ofName? : String → Option Command
  | "ast" => some .ast
  | "check" => some .check
  | "format" => some .format
  | "tokens" => some .tokens
  | _ => none

end Command

/-- An option that is given or not. -/
inductive Flag where
  | raw
  | json
  | spans
deriving DecidableEq, Repr

/-- An option with a value. -/
inductive Setting where
  | query
  | entry
  | color
deriving DecidableEq, Repr

inductive ColorChoice where
  | auto
  | always
  | never
deriving DecidableEq, Repr

def ColorChoice.ofName? : String → Option ColorChoice
  | "auto" => some .auto
  | "always" => some .always
  | "never" => some .never
  | _ => none

def Command.flags : Command → List Flag
  | .ast => [.raw, .json]
  | .tokens => [.raw, .spans]
  | .check | .format => []

def Command.settings : Command → List Setting
  | .ast | .check | .format => [.query, .entry, .color]
  | .tokens => [.query, .color]

/-! ## Words -/

inductive Word where
  /-- Asks for a log, which is no part of the output. -/
  | verbose
  | flag (flag : Flag)
  /-- A setting with the value in the same word, if there is one. -/
  | setting (setting : Setting) (value : Option String)
  | plain (text : String)
  /-- After it all words are plain. -/
  | separator
deriving DecidableEq, Repr

namespace Word

/-- A word after its `--`. -/
def ofLong? (s : List Char) : Option Word :=
  let name := s.takeWhile (· != '=')
  let value := (s.drop name.length).tail?.map String.ofList
  match String.ofList name, value with
  | "verbose", none => some .verbose
  | "raw", none => some (.flag .raw)
  | "json", none => some (.flag .json)
  | "spans", none => some (.flag .spans)
  | "query", value => some (.setting .query value)
  | "as", value => some (.setting .entry value)
  | "color", value => some (.setting .color value)
  | _, _ => none

/-- A word after its `-`: one letter for each option, and after a `q` its value. -/
def ofShort? : List Char → Option Word
  | [] => some .verbose
  | 'v' :: rest => ofShort? rest
  | ['q'] => some (.setting .query none)
  | 'q' :: '=' :: value => some (.setting .query (some (String.ofList value)))
  | 'q' :: value => some (.setting .query (some (String.ofList value)))
  | _ => none

def ofText? (text : String) : Option Word :=
  match text.toList with
  | ['-'] => some (.plain text)
  | ['-', '-'] => some .separator
  | '-' :: '-' :: s => ofLong? s
  | '-' :: s => ofShort? s
  | _ => some (.plain text)

end Word

/-! ## The words of a command -/

structure Options where
  path : Option String := none
  query : Option String := none
  entry : Option EntryPoint := none
  color : Option ColorChoice := none
  flags : List Flag := []
deriving DecidableEq, Repr

namespace Options

def addPath? (o : Options) (path : String) : Option Options :=
  if path = "" ∨ o.path.isSome then none else some { o with path := some path }

def addFlag? (command : Command) (o : Options) (flag : Flag) : Option Options :=
  if flag ∉ command.flags ∨ flag ∈ o.flags then none else some { o with flags := flag :: o.flags }

def addSetting? (command : Command) (o : Options) (setting : Setting) (value : String) :
    Option Options :=
  if setting ∉ command.settings then none
  else
    match setting with
    | .query => if o.query.isSome then none else some { o with query := some value }
    | .entry =>
      if o.entry.isSome then none
      else (EntryPoint.ofName? value).map fun entry => { o with entry := some entry }
    | .color =>
      if o.color.isSome then none
      else (ColorChoice.ofName? value).map fun color => { o with color := some color }

def addWords? (command : Command) (o : Options) : List String → Option Options
  | [] => some o
  | word :: rest =>
    match Word.ofText? word, rest with
    | none, _ => none
    | some .separator, rest => rest.foldlM addPath? o
    | some .verbose, rest => addWords? command o rest
    | some (.plain path), rest => do addWords? command (← o.addPath? path) rest
    | some (.flag flag), rest => do addWords? command (← o.addFlag? command flag) rest
    | some (.setting setting (some value)), rest => do
      addWords? command (← o.addSetting? command setting value) rest
    | some (.setting _ none), [] => none
    | some (.setting setting none), value :: rest =>
      match Word.ofText? value with
      | some (.plain value) => do addWords? command (← o.addSetting? command setting value) rest
      | _ => none

end Options

/-! ## Invocations -/

inductive Input where
  | missing
  | inline (text : String)
  | stdin
  | file (path : String)
deriving DecidableEq, Repr

structure Invocation where
  command : Command
  input : Input
  entry : EntryPoint
  color : ColorChoice
  flags : List Flag
deriving DecidableEq, Repr

namespace Invocation

/-- An option not given has its first value. A path and a text do not go together. -/
def ofOptions? (command : Command) (o : Options) : Option Invocation :=
  let input? : Option Input :=
    match o.path, o.query with
    | none, none => some .missing
    | none, some text => some (.inline text)
    | some path, none => some (if path = "-" then .stdin else .file path)
    | some _, some _ => none
  input?.map fun input => ⟨command, input, o.entry.getD .list, o.color.getD .auto, o.flags⟩

/-- Only requests for a log may come before the command. -/
def ofArguments? : List String → Option Invocation
  | [] => none
  | word :: rest =>
    match Word.ofText? word with
    | some .verbose => ofArguments? rest
    | some (.plain name) => do
      let command ← Command.ofName? name
      ofOptions? command (← Options.addWords? command {} rest)
    | _ => none

end Invocation

end CssMedia.CommandLine
