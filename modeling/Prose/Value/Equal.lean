import Prose.Value.Basic

/-!
Comparing values. Two numbers of which one is a real are equal when they are closer than
`tolerance`; lists are equal when their elements are, in order, and a list may contain itself.
-/

namespace Prose.Value

/-- Reals closer than this are equal. -/
def tolerance : Float := Float.ofBits 0x3DDB7CDFD9D7BDBB

/-- The order of two reals. An undefined number has none. -/
def compareReals (a b : Float) : Option Ordering :=
  if (a - b).abs < tolerance then some .eq
  else if a < b then some .lt
  else if a > b then some .gt
  else if a == b then some .eq
  else none

/-- The order of two numbers. -/
def compare? (a b : Value) : Option Ordering :=
  match a, b with
  | integer a, integer b => some (compare a.toInt b.toInt)
  | a, b =>
    match a.toReal?, b.toReal? with
    | some a, some b => compareReals a b
    | _, _ => none

/-- Whether two values are equal, given the pairs of lists that are being compared. A pair met
again while it is open is taken to be equal, so lists that contain themselves can be compared.
Lists nest no deeper than `n`. -/
def equalUpTo (heap : Heap) : Nat → List (ListRef × ListRef) → Value → Value → Bool
  | 0, _, _, _ => true
  | n + 1, openPairs, a, b =>
    match a, b with
    | integer a, integer b => a == b
    | text a, text b => a == b
    | truth a, truth b => a == b
    | function f, function g => f.number == g.number
    | list a, list b =>
      if a = b then true
      else if (a, b) ∈ openPairs then true
      else if (heap.get a).length ≠ (heap.get b).length then false
      else ((heap.items a).zip (heap.items b)).all fun p =>
        equalUpTo heap n ((a, b) :: openPairs) p.1 p.2
    | a, b => if a.isNumber && b.isNumber then a.compare? b == some .eq else false

/-- Whether two values are equal. No pair of lists is open twice, so comparing nests no deeper than
there are such pairs. -/
def equal (heap : Heap) (a b : Value) : Bool :=
  equalUpTo heap (heap.size * heap.size + 1) [] a b

end Prose.Value
