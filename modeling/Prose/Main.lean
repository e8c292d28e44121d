import Prose.CommandLine

/-!
The program itself: gathers the arguments, the file and the input, and writes the outcome.
-/

namespace Prose

/-- Everything a stream still holds, after the bytes already read. -/
partial def readToEnd (stream : IO.FS.Stream) (bytes : ByteArray) : IO ByteArray := do
  let more ← stream.read 65536
  if more.isEmpty then return bytes else readToEnd stream (bytes ++ more)

def readFileContent (path : String) : IO CommandLine.FileContent := do
  try
    return .ofBytes (← IO.FS.readBinFile path).toList
  catch
    | .noFileOrDirectory .. => return .missing
    | .permissionDenied .. => return .forbidden
    | .inappropriateType _ code details =>
      return .failed (details ++ " (os error " ++ toString code ++ ")")
    | e => return .failed (toString e)

/-- Whether the program reads the input: listings, help and errors do without it. -/
def needsInput (args : List String) : Bool :=
  match CommandLine.takeColors .auto args with
  | .error _ => false
  | .ok (_, args) =>
    match CommandLine.commandOf args with
    | .runInput | .runFile _ => true
    | _ => false

end Prose

open Prose in
def main (args : List String) : IO UInt32 := do
  let noColor := ((← IO.getEnv "NO_COLOR").getD "") != ""
  let terminal ← (← IO.getStderr).isTty
  let content ← match CommandLine.neededFile? args with
    | some path => readFileContent path
    | none => pure .missing
  let input ← if needsInput args then readToEnd (← IO.getStdin) .empty else pure .empty
  let outcome := CommandLine.run
    { args := args
      noColor := noColor
      terminal := terminal
      input := input.toList
      fileAt := fun _ => content }
  (← IO.getStdout).putStr outcome.out
  (← IO.getStderr).putStr outcome.err
  return outcome.status.toUInt32
