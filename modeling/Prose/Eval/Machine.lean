import Prose.CallStack
import Prose.Input
import Prose.Scope

/-!
The state of a running program, and programs as steps from one state to the next. A step ends with
a value or a fault, and the state it leaves is kept in both cases; or it is not done within the
steps it was allowed, and then there is nothing to say about it.
-/

namespace Prose

/-- The state of a running program. -/
structure Machine where
  heap : Heap
  /-- Number of functions made so far. -/
  functions : Nat
  scope : Scope
  calls : CallStack
  /-- Everything printed. -/
  output : String
  input : Input
deriving Inhabited

namespace Machine

/-- A machine that has run nothing yet. -/
def start (input : Input) (limit : Option Nat) : Machine :=
  { heap := .empty
    functions := 0
    scope := .root
    calls := .withLimit limit
    output := ""
    input := input }

/-- Takes what has been printed. -/
def takeOutput (m : Machine) : String × Machine := (m.output, { m with output := "" })

def valueOf? (m : Machine) (name : Name) : Option Value := m.scope.get? name

end Machine

/-- A step of a program that gives a value of type `α`. -/
def Run (α : Type) : Type := Machine → Option (Except Fault α × Machine)

namespace Run

variable {α β : Type}

/-- Does nothing and gives a value. -/
@[inline] def pure (a : α) : Run α := fun m => some (.ok a, m)

/-- Does one step and, if it ends with a value, another that depends on it. -/
@[inline] def bind (x : Run α) (f : α → Run β) : Run β := fun m =>
  match x m with
  | none => none
  | some (.error fault, m) => some (.error fault, m)
  | some (.ok a, m) => f a m

instance : Monad Run where
  pure := pure
  bind := bind

/-- Is not done within the steps allowed. -/
@[inline] def unfinished : Run α := fun _ => none

/-- Ends with a fault. -/
@[inline] def fault (f : Fault) : Run α := fun m => some (.error f, m)

/-- Ends with a fault that has no place yet. -/
@[inline] def fail (cause : Fault.Cause) : Run α := fault (.ofCause cause)

/-- Ends with a fault at a place. -/
@[inline] def failAt (span : Span) (cause : Fault.Cause) : Run α :=
  fault ((Fault.ofCause cause).locate span)

/-- Ends as a computation without state does. -/
@[inline] def ofExcept (r : Except Fault α) : Run α := fun m => some (r, m)

@[inline] def machine : Run Machine := fun m => some (.ok m, m)

@[inline] def update (f : Machine → Machine) : Run Unit := fun m => some (.ok (), f m)

/-- Gives faults that have no place the place of the step. -/
@[inline] def located (span : Span) (x : Run α) : Run α := fun m =>
  match x m with
  | none => none
  | some (.error fault, m) => some (.error (fault.locate span), m)
  | some (.ok a, m) => some (.ok a, m)

/-- Runs a step in a new innermost frame, which is left however the step ends. -/
@[inline] def inFrame (frame : Frame) (x : Run α) : Run α := fun m =>
  match x { m with scope := m.scope.enter frame } with
  | none => none
  | some (r, m) => some (r, { m with scope := m.scope.leave })

/-- Runs the body of a call, which is on the stack of calls meanwhile. Faults take on the place of
the call and note it. -/
@[inline] def inCall (call : CallFrame) (x : Run α) : Run α := fun m =>
  match m.calls.push call with
  | .error fault => some (.error fault, m)
  | .ok calls =>
    match x { m with calls := calls } with
    | none => none
    | some (r, m) =>
      let m := { m with calls := m.calls.pop.2 }
      match r with
      | .ok a => some (.ok a, m)
      | .error fault => some (.error (fault.leaveCall call.span call.name), m)

def printLine (text : String) : Run Unit :=
  update fun m => { m with output := m.output ++ text ++ "\n" }

def lookup (name : Name) : Run Value := fun m => some (m.scope.lookup name, m)

def assign (name : Name) (value : Value) : Run Unit :=
  update fun m => { m with scope := m.scope.assign name value }

def newList (values : List Value) : Run Value := fun m =>
  let (ref, heap) := m.heap.alloc (.ofList values)
  some (.ok (.list ref), { m with heap := heap })

def newFunction (params : List Name) (body : Block) : Run Value := fun m =>
  some (.ok (.function ⟨m.functions, params, body⟩), { m with functions := m.functions + 1 })

/-- Reads from the input. -/
def fromInput (read : Input → Except Fault α × Input) : Run α := fun m =>
  let (r, input) := read m.input
  some (r, { m with input := input })

end Run

end Prose
