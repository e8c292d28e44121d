import Prose.Fault
import Prose.Text.Quoted
import Prose.Value.Basic

/-!
Scopes: frames of bindings, one inside the other. Looking a name up finds the innermost binding.
Assigning changes that binding, or makes one in the innermost frame if there is none; declaring
always makes one in the innermost frame.
-/

namespace Prose

/-- The bindings of one scope, in the order they were made. No name is bound twice. -/
structure Frame where
  bindings : List (Name × Value)
deriving Inhabited

namespace Frame

def empty : Frame := ⟨[]⟩

def get? (f : Frame) (name : Name) : Option Value :=
  (f.bindings.find? fun b => b.1 == name).map (·.2)

def binds (f : Frame) (name : Name) : Bool := f.bindings.any fun b => b.1 == name

/-- Changes what a bound name is bound to; the spelling stays. -/
def update (f : Frame) (name : Name) (value : Value) : Frame :=
  ⟨f.bindings.map fun b => if b.1 == name then (b.1, value) else b⟩

/-- Binds a name, which keeps the spelling it was bound with first. -/
def declare (f : Frame) (name : Name) (value : Value) : Frame :=
  if f.binds name then f.update name value else ⟨f.bindings ++ [(name, value)]⟩

/-- The names bound, as they were spelled first. -/
def names (f : Frame) : List Name := f.bindings.map (·.1)

end Frame

/-- A frame and those around it, innermost first. -/
structure Scope where
  inner : Frame
  outer : List Frame
deriving Inhabited

namespace Scope

/-- A scope of its own, without bindings. -/
def root : Scope := ⟨.empty, []⟩

/-- All frames, innermost first. -/
def frames (s : Scope) : List Frame := s.inner :: s.outer

def depth (s : Scope) : Nat := s.outer.length + 1

def enter (s : Scope) (frame : Frame) : Scope := ⟨frame, s.inner :: s.outer⟩

/-- Leaves the innermost frame, unless it is the outermost. -/
def leave? (s : Scope) : Option Scope :=
  match s.outer with
  | [] => none
  | frame :: rest => some ⟨frame, rest⟩

/-- Leaves the innermost frame; the outermost is never left. -/
def leave (s : Scope) : Scope := s.leave?.getD s

/-- The value of a name in the innermost frame that binds it. -/
def get? (s : Scope) (name : Name) : Option Value := s.frames.findSome? (·.get? name)

/-- The value of a name, or the fault that it has none. -/
def lookup (s : Scope) (name : Name) : Except Fault Value :=
  match s.get? name with
  | some value => .ok value
  | none => .error (.ofCause (.noSuchVariable name.text))

/-- Changes the innermost binding of a name in a list of frames, if there is one. -/
def updateFirst? (name : Name) (value : Value) : List Frame → Option (List Frame)
  | [] => none
  | f :: rest =>
    if f.binds name then some (f.update name value :: rest)
    else (updateFirst? name value rest).map (f :: ·)

def declare (s : Scope) (name : Name) (value : Value) : Scope :=
  { s with inner := s.inner.declare name value }

/-- Changes the innermost binding of a name, or binds it in the innermost frame. -/
def assign (s : Scope) (name : Name) (value : Value) : Scope :=
  match updateFirst? name value s.frames with
  | some (inner :: outer) => ⟨inner, outer⟩
  | _ => s.declare name value

/-- The names of the innermost frame, sorted, and the number of frames. -/
def toListing (s : Scope) : String :=
  let names := (s.inner.names.map (·.text)).mergeSort fun a b => decide (a ≤ b)
  "Scope \x7b names: [" ++ String.intercalate ", " (names.map Text.quote) ++ "], depth: " ++
    toString s.depth ++ " \x7d"

end Scope

end Prose
