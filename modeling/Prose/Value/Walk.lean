import Prose.Value.Chain

/-!
Walks along a sequence that may change between two steps. A walk remembers the element it visited
last and the one that followed it then. The next step goes to what follows the visited element
now; if that element has been removed, to the one remembered, provided it is still there.
-/

namespace Prose

/-- An element, which may have been removed since: its slot and its serial number. -/
structure Mark where
  slot : Nat
  serial : Nat
deriving DecidableEq, Inhabited

/-- How far a walk has got. -/
inductive Walk where
  | start
  | visiting (current : Mark) (ahead : Option Mark)
  | done
deriving DecidableEq, Inhabited

namespace Chain

variable {α : Type}

/-- Whether a marked element is still in the sequence. -/
def holds (c : Chain α) (mark : Mark) : Bool :=
  match c.node? mark.slot with
  | some node => node.serial == mark.serial
  | none => false

/-- The mark of the element in a slot. -/
def mark? (c : Chain α) (slot : Nat) : Option Mark :=
  (c.node? slot).map fun node => ⟨slot, node.serial⟩

end Chain

namespace Walk

variable {α : Type}

/-- The slot of the element to visit next. -/
def target? (w : Walk) (c : Chain α) : Option Nat :=
  match w with
  | start => c.head
  | visiting current ahead =>
    if c.holds current then (c.node? current.slot).bind (·.next)
    else (ahead.filter c.holds).map (·.slot)
  | done => none

/-- Visits the next element, if there is one, and goes on. -/
def next (w : Walk) (c : Chain α) : Option α × Walk :=
  match w.target? c with
  | none => (none, done)
  | some slot =>
    match c.node? slot with
    | none => (none, done)
    | some node => (some node.value, visiting ⟨slot, node.serial⟩ (node.next.bind c.mark?))

end Walk

end Prose
