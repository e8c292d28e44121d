import Prose.Layout.Line

/-!
Bytes as text. A stream of bytes is cut into lines first, so that bytes that are no text spoil
their own line only.
-/

namespace Prose

/-- The text that bytes stand for in UTF-8, if they do. -/
def Text.ofBytes? (bytes : List UInt8) : Option (List Char) :=
  (String.fromUTF8? ⟨bytes.toArray⟩).map String.toList

/-- The lines of a stream of bytes, each with the line feed that ends it. -/
def Text.byteLines : List UInt8 → List (List UInt8)
  | [] => []
  | b :: bs =>
    if b = 10 then [10] :: byteLines bs
    else match byteLines bs with
      | [] => [[b]]
      | line :: rest => (b :: line) :: rest

/-- The lines that a stream of bytes hands out. -/
def Layout.RawLine.ofBytes (bytes : List UInt8) : List Layout.RawLine :=
  (Text.byteLines bytes).map fun line =>
    match Text.ofBytes? line with
    | some characters => .text characters
    | none => .undecodable

end Prose
