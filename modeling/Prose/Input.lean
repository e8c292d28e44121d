import Prose.Fault
import Prose.Layout.Reader
import Prose.Text.Blank

/-!
What `Read` statements read: lines of a stream that may be shared with the program text, lines of
a fixed text, or nothing.
-/

namespace Prose

/-- A source of lines. -/
inductive Input where
  /-- The lines of a stream that are still to come. -/
  | stream (lines : List Layout.RawLine)
  /-- Lines known beforehand. -/
  | buffer (lines : List (List Char))
  /-- No lines. -/
  | none
deriving DecidableEq, Inhabited

namespace Input

def ofText (text : List Char) : Input := .buffer (Text.lines text)

/-- The next line without its ending, or nothing at the end of the input. -/
def line? : Input → Except Fault (Option (List Char)) × Input
  | .stream [] => (.ok .none, .stream [])
  | .stream (.text raw :: rest) => (.ok (some (Text.stripEnding raw)), .stream rest)
  | .stream (.undecodable :: rest) =>
    (.error (.ofCause (.inputFailed Layout.LayoutError.undecodableInput)), .stream rest)
  | .buffer [] => (.ok .none, .buffer [])
  | .buffer (line :: rest) => (.ok (some line), .buffer rest)
  | .none => (.ok .none, .none)

/-- The next line; the end of the input is a fault. -/
def line (input : Input) : Except Fault (List Char) × Input :=
  match input.line? with
  | (.ok (some line), rest) => (.ok line, rest)
  | (.ok .none, rest) => (.error (.ofCause (.inputFailed "unexpected end of input")), rest)
  | (.error fault, rest) => (.error fault, rest)

/-- Number of lines still to come. -/
def remaining : Input → Nat
  | .stream lines => lines.length
  | .buffer lines => lines.length
  | .none => 0

/-- The first word of the next lines that holds one, of at most `n`. -/
def wordUpTo : Nat → Input → Except Fault (List Char) × Input
  | 0, input => input.line
  | n + 1, input =>
    match input.line with
    | (.error fault, rest) => (.error fault, rest)
    | (.ok line, rest) =>
      match Text.firstWord? line with
      | some word => (.ok word, rest)
      | .none => wordUpTo n rest

/-- The first word of the next line that is not blank; the rest of that line is dropped. -/
def word (input : Input) : Except Fault (List Char) × Input := wordUpTo (input.remaining + 1) input

end Input

end Prose
