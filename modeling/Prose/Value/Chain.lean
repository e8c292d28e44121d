/-!
Doubly linked sequences kept in an array of slots. An element can be removed without moving the
others; its slot is used again by a later element, and every element has a serial number of its
own, so that a slot used again is not mistaken for the element that was there before.
-/

namespace Prose

/-- An element with its neighbours, which are named by their slots. -/
structure Chain.Node (α : Type) where
  value : α
  serial : Nat
  prev : Option Nat
  next : Option Nat

/-- A linked sequence. -/
structure Chain (α : Type) where
  slots : Array (Option (Chain.Node α))
  /-- The slots that hold no element, the one emptied last first. -/
  free : List Nat
  head : Option Nat
  tail : Option Nat
  length : Nat
  /-- The serial number given last. -/
  serials : Nat

namespace Chain

variable {α : Type}

def empty : Chain α := ⟨#[], [], none, none, 0, 0⟩

instance : Inhabited (Chain α) := ⟨empty⟩

/-- The element in a slot. -/
def node? (c : Chain α) (slot : Nat) : Option (Node α) := (c.slots[slot]?).bind id

def linkNext (slots : Array (Option (Node α))) (slot : Nat) (next : Option Nat) :
    Array (Option (Node α)) :=
  slots.modify slot fun n => n.map fun n => { n with next := next }

def linkPrev (slots : Array (Option (Node α))) (slot : Nat) (prev : Option Nat) :
    Array (Option (Node α)) :=
  slots.modify slot fun n => n.map fun n => { n with prev := prev }

/-- Puts an element into a free slot, or into a new one if there is none. -/
def place (c : Chain α) (node : Node α) : Nat × Chain α :=
  match c.free with
  | slot :: free => (slot, { c with slots := c.slots.setIfInBounds slot (some node), free := free })
  | [] => (c.slots.size, { c with slots := c.slots.push (some node) })

/-- Adds an element at the end. -/
def push (c : Chain α) (value : α) : Chain α :=
  let serial := c.serials + 1
  let tail := c.tail
  let (slot, c) := c.place ⟨value, serial, tail, none⟩
  let c := { c with tail := some slot, length := c.length + 1, serials := serial }
  match tail with
  | some tail => { c with slots := linkNext c.slots tail (some slot) }
  | none => { c with head := some slot }

def ofList (values : List α) : Chain α := values.foldl push empty

/-- The slot reached from another by following successors. -/
def stepForward (c : Chain α) : Nat → Option Nat → Option Nat
  | 0, slot => slot
  | n + 1, slot => c.stepForward n ((slot.bind c.node?).bind (·.next))

/-- The slot reached from another by following predecessors. -/
def stepBackward (c : Chain α) : Nat → Option Nat → Option Nat
  | 0, slot => slot
  | n + 1, slot => c.stepBackward n ((slot.bind c.node?).bind (·.prev))

/-- The slot of the element at an index, which is counted from zero. The walk starts from the
nearer end. -/
def locate? (c : Chain α) (index : Int) : Option Nat :=
  if 0 ≤ index ∧ index < c.length then
    let position := index.toNat
    if position < c.length / 2 then c.stepForward position c.head
    else c.stepBackward (c.length - position - 1) c.tail
  else none

def get? (c : Chain α) (index : Int) : Option α :=
  ((c.locate? index).bind c.node?).map (·.value)

def set? (c : Chain α) (index : Int) (value : α) : Option (Chain α) :=
  (c.locate? index).map fun slot =>
    { c with slots := c.slots.modify slot fun n => n.map fun n => { n with value := value } }

/-- Joins the neighbours of an element that is no longer in its slot. -/
def unlink (c : Chain α) (node : Node α) : Chain α :=
  let c := match node.prev with
    | some prev => { c with slots := linkNext c.slots prev node.next }
    | none => { c with head := node.next }
  match node.next with
  | some next => { c with slots := linkPrev c.slots next node.prev }
  | none => { c with tail := node.prev }

/-- Takes out the element at an index. -/
def remove? (c : Chain α) (index : Int) : Option (α × Chain α) :=
  (c.locate? index).bind fun slot =>
    (c.node? slot).map fun node =>
      let c := { c with slots := c.slots.setIfInBounds slot none }
      let c := c.unlink node
      (node.value, { c with free := slot :: c.free, length := c.length - 1 })

/-- The elements from a slot on, at most `n` of them. -/
def collect (c : Chain α) : Nat → Option Nat → List α
  | 0, _ => []
  | n + 1, slot =>
    match slot.bind c.node? with
    | none => []
    | some node => node.value :: c.collect n node.next

/-- The elements in order. There are no more of them than slots. -/
def toList (c : Chain α) : List α := c.collect c.slots.size c.head

end Chain

end Prose
