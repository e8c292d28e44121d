import Prose.Diagnostic.Basic
import Prose.Diagnostic.LineTable

/-!
Diagnostics for a terminal. A label is shown with the line it starts on and a run of carets under
the part it covers; without a source it is shown as a bare span.
-/

namespace Prose

/-- When output is coloured. -/
inductive ColorMode where
  | auto | always | never
deriving DecidableEq, Inhabited

namespace ColorMode

/-- The mode a word stands for. -/
def ofWord? (word : String) : Option ColorMode :=
  if word = "auto" then some auto
  else if word = "always" then some always
  else if word = "never" then some never
  else none

/-- Whether output is coloured in a mode, on a terminal or elsewhere. -/
def isColored (mode : ColorMode) (terminal : Bool) : Bool :=
  match mode with
  | auto => terminal
  | always => true
  | never => false

end ColorMode

/-- A text that diagnostics are shown against, and the name it goes by. -/
structure SourceText where
  path : String
  text : List Char
deriving DecidableEq, Inhabited

namespace Diagnostic

/-- The styles of a coloured diagnostic. -/
inductive Style where
  | problem | strong

def Style.code : Style → String
  | problem => "\x1b[1;31m"
  | strong => "\x1b[1m"

def Style.reset : String := "\x1b[0m"

/-- A text in a style, if output is coloured. -/
def styled (colored : Bool) (style : Style) (text : String) : String :=
  if colored then style.code ++ text ++ Style.reset else text

/-- Where the carets of a label stand under its line: how many characters are before them and how
many there are. At least one caret is shown, and otherwise none stands past the end of the
line. -/
def caretRange (table : LineTable) (source lineText : List Char) (span : Span) : Nat × Nat :=
  let (line, column) := table.position source span.start
  let width := lineText.length
  let start := min (column - 1) width
  let stop :=
    if table.lineAt span.stop = line then min ((table.position source span.stop).2 - 1) width
    else width
  (start, max (stop - start) 1)

def renderBareLabel (colored : Bool) (label : Label) : String :=
  "  --> " ++ label.span.toText ++ ": " ++ styled colored .problem label.message ++ "\n"

/-- A label against a source: its position, its line, and the carets with the message. -/
def renderLabel (colored : Bool) (source : SourceText) (label : Label) : String :=
  let table := LineTable.ofText source.text
  let (line, column) := table.position source.text label.span.start
  let gutter := toString line
  let pad := Text.copies gutter.length ' '
  let heading :=
    pad ++ "--> " ++ source.path ++ ":" ++ toString line ++ ":" ++ toString column ++ "\n"
  match table.lineText? source.text line with
  | none => heading
  | some text =>
    let (start, width) := caretRange table source.text text label.span
    let message :=
      if label.message.isEmpty then "" else " " ++ styled colored .problem label.message
    heading ++ pad ++ " |\n" ++ gutter ++ " | " ++ String.ofList text ++ "\n" ++
      pad ++ " | " ++ Text.copies start ' ' ++
      styled colored .problem (Text.copies width '^') ++ message ++ "\n"

/-- A whole diagnostic, each part on lines of its own. -/
def render (colored : Bool) (source : Option SourceText) (d : Diagnostic) : String :=
  let heading :=
    styled colored .problem "error" ++
      styled colored .strong ("[" ++ d.code.label ++ "]") ++ ": " ++ d.message ++ "\n"
  let labels := d.labels.map fun label =>
    match source with
    | none => renderBareLabel colored label
    | some source => renderLabel colored source label
  let notes := d.notes.map fun note => "  = " ++ styled colored .strong "note" ++ ": " ++ note ++ "\n"
  heading ++ String.join labels ++ String.join notes

end Diagnostic

end Prose
