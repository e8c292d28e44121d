import Prose.Layout.Statement

/-!
Reading statements. A line that opens a block is folded together with the lines that follow and
begin with the indentation of the block's first line; blocks nest; an `otherwise` line right after
a block belongs to the same statement. The reader may have to look at the first line after a
statement to know that it has ended; it keeps that line for the next statement.

The folding is one pass over the lines with a stack of the indentations of the open blocks.
-/

namespace Prose.Layout

/-- Why lines could not be folded into a statement. -/
inductive LayoutError where
  /-- The first line of a block begins with neither space nor tab. -/
  | missingIndentation (text : List Char) (line : Nat) (span : Span)
  /-- The input ends after a line that opens a block. -/
  | missingBlock (line : Nat) (span : Span)
  /-- The next line is no text. -/
  | undecodable
deriving DecidableEq, Inhabited

namespace LayoutError

/-- What is said of input that is no text. -/
def undecodableInput : String := "could not read input: stream did not contain valid UTF-8"

def message : LayoutError → String
  | missingIndentation text _ _ => "missing indentation at `" ++ String.ofList text ++ "`"
  | missingBlock line _ =>
    "expected an indented block after line " ++ toString line ++ ", found end of input"
  | undecodable => undecodableInput

/-- The part of the source an error is about. -/
def span? : LayoutError → Option Span
  | missingIndentation _ _ span => some span
  | missingBlock _ span => some span
  | undecodable => none

/-- The line an error is about. -/
def line? : LayoutError → Option Nat
  | missingIndentation _ line _ => some line
  | missingBlock line _ => some line
  | undecodable => none

end LayoutError

/-! ### Folding -/

/-- What the next line has to be. -/
inductive Awaiting where
  /-- The first line of the block that `opener` opens. -/
  | first (opener : Line)
  /-- A further line, of an open block or after all of them. -/
  | further
deriving DecidableEq, Inhabited

/-- The state between two lines: what is awaited, and the indentations of the open blocks,
innermost first. -/
structure Folding where
  awaiting : Awaiting
  blocks : List (List Char)
deriving DecidableEq, Inhabited

/-- Where a line belongs once the blocks it does not continue are closed. -/
inductive Place where
  /-- In the innermost block that is left. -/
  | inside (closed : Nat) (blocks : List (List Char))
  /-- After the block closed last, as its alternative. -/
  | alternative (closed : Nat) (blocks : List (List Char))
  /-- After the statement. -/
  | after (closed : Nat)
deriving DecidableEq, Inhabited

/-- Counts one more closed block. -/
def Place.closeOne : Place → Place
  | inside closed blocks => inside (closed + 1) blocks
  | alternative closed blocks => alternative (closed + 1) blocks
  | after closed => after (closed + 1)

/-- Closes blocks, innermost first, until the line continues one or is an alternative to one. -/
def Line.place (line : Line) : List (List Char) → Place
  | [] => .after 0
  | indent :: blocks =>
    if Text.startsWith line.text indent then .inside 0 (indent :: blocks)
    else if line.startsOtherwise then .alternative 1 blocks
    else (line.place blocks).closeOne

/-- What a line does to the statement being folded. -/
inductive Step where
  /-- It adds pieces. -/
  | extend (pieces : List Piece) (next : Folding)
  /-- It stands after the statement, which these pieces complete. -/
  | complete (pieces : List Piece)
deriving DecidableEq, Inhabited

def closing (n : Nat) : List Piece := List.replicate n .dedent

/-- Takes a line into the statement after the given marks, inside the given blocks. -/
def Step.ofLine (marks : List Piece) (line : Line) (blocks : List (List Char)) : Step :=
  .extend (marks ++ [.line line, .newline])
    { awaiting := if line.opensBlock then .first line else .further
      blocks := blocks }

namespace Folding

/-- The state after a line that opens a block at the beginning of a statement. -/
def ofOpener (opener : Line) : Folding := ⟨.first opener, []⟩

/-- Folds one more line. -/
def step (f : Folding) (line : Line) : Except LayoutError Step :=
  match f.awaiting with
  | .first _ =>
    match line.indentation? with
    | none => .error (.missingIndentation line.text line.number line.span)
    | some indent => .ok (.ofLine [.indent] line (indent :: f.blocks))
  | .further =>
    match line.place f.blocks with
    | .inside closed blocks => .ok (.ofLine (closing closed) line blocks)
    | .alternative closed blocks => .ok (.ofLine (closing closed) line blocks)
    | .after closed => .ok (.complete (closing closed))

/-- Completes the statement at the end of the input. -/
def finish (f : Folding) : Except LayoutError (List Piece) :=
  match f.awaiting with
  | .first opener => .error (.missingBlock opener.number opener.span)
  | .further => .ok (closing f.blocks.length)

end Folding

/-! ### The reader -/

/-- How far a source has been read. -/
structure Reader where
  /-- A line looked at but not yet used. -/
  pending : Option Line
  /-- Number of bytes read. -/
  offset : Nat
  /-- Number of lines read. -/
  number : Nat
  /-- The lines read, with their endings, last first. -/
  taken : List (List Char)
deriving DecidableEq, Inhabited

/-- The outcome of a reading operation with the reader and the lines left after it. -/
structure Reading (α : Type) where
  result : Except LayoutError α
  reader : Reader
  rest : List RawLine

namespace Reader

/-- A reader at the beginning of a source. -/
def fresh : Reader := ⟨none, 0, 0, []⟩

/-- Everything read so far. -/
def transcript (r : Reader) : List Char := r.taken.reverse.flatten

def take (r : Reader) (raw : List Char) : Line × Reader :=
  ({ text := Text.stripEnding raw, start := r.offset, number := r.number + 1 },
   { r with
      offset := r.offset + Text.byteLength raw
      number := r.number + 1
      taken := raw :: r.taken })

/-- Folds lines until the statement is complete. -/
def fold (f : Folding) (r : Reader) : List RawLine → Reading (List Piece)
  | [] => ⟨f.finish, r, []⟩
  | .undecodable :: rest => ⟨.error .undecodable, r, rest⟩
  | .text raw :: rest =>
    let (line, r) := r.take raw
    match f.step line with
    | .error e => ⟨.error e, r, rest⟩
    | .ok (.complete pieces) => ⟨.ok pieces, { r with pending := some line }, rest⟩
    | .ok (.extend pieces next) =>
      let reading := fold next r rest
      { reading with result := reading.result.map (pieces ++ ·) }

/-- Reads the statement that begins with a line. -/
def statementFrom (r : Reader) (line : Line) (rest : List RawLine) : Reading (Option Statement) :=
  if line.opensBlock then
    let reading := fold (.ofOpener line) r rest
    { reading with
        result := reading.result.map fun pieces =>
          some ⟨line.number, .line line :: .newline :: pieces⟩ }
  else ⟨.ok (some ⟨line.number, [.line line]⟩), r, rest⟩

/-- Reads the next statement from the source, passing over blank lines. -/
def search (r : Reader) : List RawLine → Reading (Option Statement)
  | [] => ⟨.ok none, r, []⟩
  | .undecodable :: rest => ⟨.error .undecodable, r, rest⟩
  | .text raw :: rest =>
    let (line, r) := r.take raw
    if line.isBlank then search r rest else statementFrom r line rest

/-- Reads the next statement, beginning with the line looked at before, if there is one. At the
end of the input there is none. -/
def next (r : Reader) (rest : List RawLine) : Reading (Option Statement) :=
  match r.pending with
  | none => search r rest
  | some line =>
    let r := { r with pending := none }
    if line.isBlank then search r rest else statementFrom r line rest

/-- Reads statements, going on after errors, at most `n` times. Each comes with the reader as it
was then. -/
def readUpTo : Nat → Reader → List RawLine → List (Except LayoutError Statement × Reader)
  | 0, _, _ => []
  | n + 1, r, rest =>
    let reading := r.next rest
    match reading.result with
    | .ok none => []
    | .ok (some s) => (.ok s, reading.reader) :: readUpTo n reading.reader reading.rest
    | .error e => (.error e, reading.reader) :: readUpTo n reading.reader reading.rest

/-- All statements of a source and all errors met in it, in order. Each reading uses up a line, so
one more than the number of lines is often enough. -/
def readAll (source : List RawLine) : List (Except LayoutError Statement × Reader) :=
  readUpTo (source.length + 1) fresh source

end Reader

end Prose.Layout
