import Prose.Layout.Line
import Prose.Token.Lexer

/-!
Logical statements: one physical line, or a line that opens a block together with the whole block.
A statement is a sequence of pieces, the lines folded into it with the marks between them; its
text is what the pieces spell, and every part of that text that came from a line can be traced
back to the source.
-/

namespace Prose.Layout

/-- A part of a statement: a line, or a mark between lines. -/
inductive Piece where
  | line (line : Line)
  | newline
  | indent
  | dedent
deriving DecidableEq, Inhabited

/-- The characters a piece puts into the text of its statement. -/
def Piece.text : Piece → List Char
  | line l => l.trimmed
  | newline => ['\n']
  | indent => [Lexer.indentMark]
  | dedent => [Lexer.dedentMark]

/-- Where a folded line stands, in the text of the statement and in the source. -/
structure Segment where
  textStart : Nat
  sourceStart : Nat
  length : Nat
deriving DecidableEq, Inhabited

/-- Offset in the source at which the segment ends. -/
def Segment.sourceStop (s : Segment) : Nat := s.sourceStart + s.length

/-- The place in the source of an offset in the text, cut off at the end of the segment. -/
def Segment.toSource (s : Segment) (offset : Nat) : Nat :=
  min (s.sourceStart + (offset - s.textStart)) s.sourceStop

/-- A statement ready to be cut into tokens. -/
structure Statement where
  /-- Number of the first line, counted from one. -/
  line : Nat
  pieces : List Piece
deriving DecidableEq, Inhabited

namespace Statement

/-- The text of a statement, with its blocks between marks. -/
def text (s : Statement) : List Char := s.pieces.flatMap Piece.text

/-- The segments of pieces whose text begins at the given offset. -/
def segmentsFrom (offset : Nat) : List Piece → List Segment
  | [] => []
  | piece :: rest =>
    let next := segmentsFrom (offset + Text.byteLength piece.text) rest
    match piece with
    | .line l => ⟨offset, l.trimmedStart, Text.byteLength l.trimmed⟩ :: next
    | _ => next

def segments (s : Statement) : List Segment := segmentsFrom 0 s.pieces

/-- Index of the last segment that begins at or before an offset in the text. -/
def segmentIndex? (s : Statement) (offset : Nat) : Option Nat :=
  match (s.segments.takeWhile fun seg => decide (seg.textStart ≤ offset)).length with
  | 0 => none
  | n + 1 => some n

/-- The part of the source that a span of the text came from. An offset on a mark stands for the
end of the line before it, and a span that crosses lines is cut off where its first line ends. -/
def sourceSpan (s : Statement) (span : Span) : Span :=
  match s.segmentIndex? span.start with
  | none => .nowhere
  | some index =>
    match s.segments[index]? with
    | none => .nowhere
    | some seg =>
      let start := seg.toSource span.start
      let stop :=
        if s.segmentIndex? (span.stop - 1) = some index then seg.toSource span.stop
        else seg.sourceStop
      ⟨start, max stop start⟩

end Statement

end Prose.Layout
