import Prose.Span
import Prose.Text.Blank
import Prose.Text.Basic
import Prose.Text.Lines

/-!
Physical lines: their text, where they stand in the source, and what their ends say about the
blocks of the program.
-/

namespace Prose.Layout

/-- A line as the source hands it out, its ending included; or bytes that are no text. -/
inductive RawLine where
  | text (characters : List Char)
  | undecodable
deriving DecidableEq, Inhabited

def RawLine.ofText (text : List Char) : List RawLine := (Text.rawLines text).map .text

/-- A physical line without its ending. -/
structure Line where
  text : List Char
  /-- Offset of the line in the source. -/
  start : Nat
  /-- Number of the line, counted from one. -/
  number : Nat
deriving DecidableEq, Inhabited

namespace Line

def trimmed (line : Line) : List Char := Text.trim line.text

/-- Offset in the source of the first character that is no white space. -/
def trimmedStart (line : Line) : Nat :=
  line.start + Text.byteLength (line.text.takeWhile Text.isBlank)

/-- The bytes of the source the line covers. -/
def span (line : Line) : Span := ⟨line.start, line.start + Text.byteLength line.text⟩

def isBlank (line : Line) : Bool := Text.isBlankText line.text

/-- The last character of a line that opens a block. -/
def blockMark : Char := ':'

def opensBlock (line : Line) : Bool := (Text.trimEnd line.text).getLast? == some blockMark

/-- The word that begins an alternative clause. -/
def otherwiseWord : String := "otherwise"

/-- Whether the line begins an alternative clause: it starts with `otherwise`, in any case. -/
def startsOtherwise (line : Line) : Bool :=
  Text.lower ((Text.trimStart line.text).take otherwiseWord.length) == otherwiseWord.toList

/-- The spaces, or the tabs, a line begins with, if it begins with one. -/
def indentation? (line : Line) : Option (List Char) :=
  match line.text with
  | c :: _ => if c = ' ' ∨ c = '\t' then some (line.text.takeWhile (· == c)) else none
  | [] => none

end Line

end Prose.Layout
