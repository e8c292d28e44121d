/-!
Lines of a text. A line ends in a line feed; one carriage return before the line feed belongs to
the ending. The last line may lack its ending, and a text that ends in a line feed has no empty
line after it.
-/

namespace Prose.Text

/-- The lines of a text with their endings: joined, they give the text back. -/
def rawLines : List Char → List (List Char)
  | [] => []
  | c :: cs =>
    if c = '\n' then ['\n'] :: rawLines cs
    else match rawLines cs with
      | [] => [[c]]
      | line :: rest => (c :: line) :: rest

/-- A line without its ending. -/
def stripEnding (line : List Char) : List Char :=
  match line.reverse with
  | '\n' :: '\r' :: rest => rest.reverse
  | '\n' :: rest => rest.reverse
  | _ => line

/-- The lines of a text without their endings. -/
def lines : List Char → List (List Char)
  | [] => []
  | '\n' :: cs => [] :: lines cs
  | '\r' :: '\n' :: cs => [] :: lines cs
  | c :: cs =>
    match lines cs with
    | [] => [[c]]
    | line :: rest => (c :: line) :: rest

/-- The lines of a text with their endings, joined, are the text. -/
theorem flatten_rawLines (cs : List Char) : (rawLines cs).flatten = cs := by
  induction cs with
  | nil => rfl
  | cons c cs ih =>
    rw [rawLines]
    split
    · next h => simp [ih, h]
    · split
      · next h => simpa [h] using ih
      · next line rest h => simpa [h] using ih

end Prose.Text
