import Prose.Text.Basic
import Prose.Text.Blank

/-!
Lines and columns of offsets. Lines are counted from one by the line feeds before an offset;
columns are counted from one in characters, not in bytes.
-/

namespace Prose

/-- The offsets at which the lines of a text start, in ascending order. -/
structure LineTable where
  starts : List Nat
deriving DecidableEq, Inhabited

namespace LineTable

/-- The offsets after the line feeds of a text that begins at `offset`. -/
def startsAfter (offset : Nat) : List Char → List Nat
  | [] => []
  | c :: cs =>
    let next := offset + c.utf8Size
    if c = '\n' then next :: startsAfter next cs else startsAfter next cs

def ofText (text : List Char) : LineTable := ⟨0 :: startsAfter 0 text⟩

def count (t : LineTable) : Nat := t.starts.length

/-- The line of an offset: as many as start at or before it. -/
def lineAt (t : LineTable) (offset : Nat) : Nat :=
  max 1 (t.starts.countP fun s => decide (s ≤ offset))

/-- The offset at which a line starts. -/
def lineStart? (t : LineTable) (line : Nat) : Option Nat :=
  match line with
  | 0 => none
  | n + 1 => t.starts[n]?

/-- The line and column of an offset. An offset past the end stands for the end, and an offset
inside a character for the beginning of its line. -/
def position (t : LineTable) (text : List Char) (offset : Nat) : Nat × Nat :=
  let line := t.lineAt offset
  let start := (t.lineStart? line).getD 0
  let stop := min (max offset start) (Text.byteLength text)
  let column := ((Text.slice? start stop text).map List.length).getD 0
  (line, column + 1)

/-- The text of a line without line feeds and carriage returns at its end. -/
def lineText? (t : LineTable) (text : List Char) (line : Nat) : Option (List Char) :=
  (t.lineStart? line).bind fun start =>
    let stop := (t.lineStart? (line + 1)).getD (Text.byteLength text)
    (Text.slice? start stop text).map
      (Text.dropEndWhile fun c => c == '\n' || c == '\r')

end LineTable

end Prose
