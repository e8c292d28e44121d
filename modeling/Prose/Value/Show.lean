import Prose.Decimal.Form
import Prose.Text.Quoted
import Prose.Value.Basic

/-!
The text of values: as `Print` shows them, as `What is` shows them, and with their kinds.
-/

namespace Prose.Value

/-- Reals keep a fraction; from ten million on, and below a thousandth, they are written with a
power of ten, as in `1.5E7`. -/
def realForm : Decimal.Form where
  isPositional e := decide (-3 ≤ e) && decide (e < 7)
  keepsFraction := true
  keepsCoefficientFraction := true
  exponentMark := "E"
  infinity := "Infinity"

def truthWord (b : Bool) : String := if b then "true" else "false"

/-- The text of a value inside the lists that are being shown. A list inside itself is shown as
`[...]`. Lists nest no deeper than `n`. -/
def showUpTo (heap : Heap) : Nat → List ListRef → Value → String
  | 0, _, _ => "[...]"
  | n + 1, openLists, value =>
    match value with
    | integer i => toString i.toInt
    | real r => realForm.write r
    | text s => s
    | truth b => truthWord b
    | function _ => "<function>"
    | list ref =>
      if ref ∈ openLists then "[...]"
      else
        "[" ++ String.intercalate ", "
          ((heap.items ref).map (showUpTo heap n (ref :: openLists))) ++ "]"

/-- The text of a value as it is printed. No list is open twice, so the text nests no deeper than
there are lists. -/
def toText (heap : Heap) (value : Value) : String := showUpTo heap (heap.size + 1) [] value

/-- The text of a value as an answer: strings are in quotes. -/
def toAnswer (heap : Heap) (value : Value) : String :=
  match value with
  | text s => "\"" ++ s ++ "\""
  | value => value.toText heap

/-- The text of a value with its kind. -/
def toListing (heap : Heap) (value : Value) : String :=
  match value with
  | integer i => "Int(" ++ toString i.toInt ++ ")"
  | real r => "Real(" ++ Decimal.Form.plain.write r ++ ")"
  | text s => "Str(" ++ Text.quote s ++ ")"
  | truth b => "Bool(" ++ truthWord b ++ ")"
  | list ref => "List(" ++ toText heap (list ref) ++ ")"
  | function f => "Function(" ++ String.intercalate ", " (f.params.map (·.text)) ++ ")"

/-- A list without its elements. -/
def handleListing (heap : Heap) (ref : ListRef) : String :=
  "ListHandle(len " ++ toString (heap.get ref).length ++ ")"

/-- The elements of a list with their kinds. -/
def itemsListing (heap : Heap) (ref : ListRef) : String :=
  "[" ++ String.intercalate ", " ((heap.items ref).map (toListing heap)) ++ "]"

end Prose.Value
