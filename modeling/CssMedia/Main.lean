import CssMedia.CommandLine.Run

/-! # The program -/

namespace CssMedia.CommandLine

partial def readToEnd (stream : IO.FS.Stream) (read : ByteArray) : IO ByteArray := do
  let bytes ← stream.read 65536
  if bytes.isEmpty then return read else readToEnd stream (read ++ bytes)

def readFailure : IO.Error → ReadFailure
  | .noFileOrDirectory .. => .notFound
  | .permissionDenied .. => .permissionDenied
  | .inappropriateType .. => .isDirectory
  | e => .other (toString e)

def Input.bytes : Input → IO ByteArray
  | .missing | .inline _ => return ByteArray.empty
  | .stdin => do readToEnd (← IO.getStdin) ByteArray.empty
  | .file path => IO.FS.readBinFile path

def runArguments (arguments : List String) : IO Outcome := do
  match Invocation.ofArguments? arguments with
  | none => return .refused
  | some invocation =>
    let bytes ← invocation.input.bytes.toBaseIO
    return invocation.run (bytes.mapError readFailure) (← (← IO.getStderr).isTty)

end CssMedia.CommandLine

def main (arguments : List String) : IO UInt32 := do
  let outcome ← CssMedia.CommandLine.runArguments arguments
  IO.print outcome.output
  IO.eprint outcome.errorOutput
  return outcome.exitCode
