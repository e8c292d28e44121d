import Prose.Tree
import Prose.Value.Chain

/-!
Values. Lists are shared: a value names a list, and the list itself stands in the heap, so that a
change to it shows wherever it is named.
-/

namespace Prose

/-- Names a list in the heap. -/
structure ListRef where
  index : Nat
deriving DecidableEq, Inhabited

/-- A function. Each time a function expression is evaluated it makes a function with a number of
its own, by which functions are told apart. -/
structure Function where
  number : Nat
  params : List Name
  body : Block

/-- A value. -/
inductive Value where
  | integer (n : Int64)
  | real (r : Float)
  | text (s : String)
  | truth (b : Bool)
  | list (ref : ListRef)
  | function (f : Function)

instance : Inhabited Value := ⟨.truth false⟩

namespace Value

/-- The name of a value's kind, as it stands in messages. -/
def typeName : Value → String
  | integer _ => "integer"
  | real _ => "real number"
  | text _ => "string"
  | truth _ => "boolean"
  | list _ => "list"
  | function _ => "function"

/-- Whether the value is an integer or a real. -/
def isNumber : Value → Bool
  | integer _ | real _ => true
  | _ => false

/-- A number as a real. -/
def toReal? : Value → Option Float
  | integer n => some n.toFloat
  | real r => some r
  | _ => none

end Value

/-- The lists of a program. -/
structure Heap where
  lists : Array (Chain Value)

namespace Heap

def empty : Heap := ⟨#[]⟩

instance : Inhabited Heap := ⟨empty⟩

def size (h : Heap) : Nat := h.lists.size

/-- The list that a reference names. -/
def get (h : Heap) (ref : ListRef) : Chain Value := (h.lists[ref.index]?).getD .empty

def alloc (h : Heap) (c : Chain Value) : ListRef × Heap := (⟨h.lists.size⟩, ⟨h.lists.push c⟩)

/-- Puts another list in the place of the one that a reference names. -/
def put (h : Heap) (ref : ListRef) (c : Chain Value) : Heap :=
  ⟨h.lists.setIfInBounds ref.index c⟩

/-- Changes the list that a reference names. -/
def modify (h : Heap) (ref : ListRef) (f : Chain Value → Chain Value) : Heap :=
  ⟨h.lists.modify ref.index f⟩

/-- The elements of the list that a reference names. -/
def items (h : Heap) (ref : ListRef) : List Value := (h.get ref).toList

end Heap

end Prose
