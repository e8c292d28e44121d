import Prose.Diagnostic.Code
import Prose.Span

/-!
Diagnostics: a code, a message, labelled spans and notes.
-/

namespace Prose

/-- A span with something to say about it. -/
structure Label where
  span : Span
  message : String
deriving DecidableEq, Inhabited

/-- A problem to report. The spans count bytes of the text the diagnostic is rendered against. -/
structure Diagnostic where
  code : Code
  message : String
  labels : List Label
  notes : List String
deriving DecidableEq, Inhabited

namespace Diagnostic

/-- A diagnostic that says what its code stands for and no more. -/
def ofCode (code : Code) : Diagnostic := ⟨code, code.description, [], []⟩

/-- The diagnostic on one line. -/
def toText (d : Diagnostic) : String := "error[" ++ d.code.label ++ "]: " ++ d.message

/-- Moves every label to another place. -/
def mapSpans (f : Span → Span) (d : Diagnostic) : Diagnostic :=
  { d with labels := d.labels.map fun l => { l with span := f l.span } }

end Diagnostic

end Prose
