import Prose.Fault

/-!
The calls that are running, with an optional limit on their number.
-/

namespace Prose

/-- A running call: how the function was named, and where it was called. -/
structure CallFrame where
  name : String
  span : Span
deriving DecidableEq, Inhabited

/-- The running calls, innermost first. -/
structure CallStack where
  frames : List CallFrame
  /-- The most calls that may run at a time. -/
  limit : Option Nat
deriving DecidableEq, Inhabited

namespace CallStack

/-- No calls, with a limit. -/
def withLimit (limit : Option Nat) : CallStack := ⟨[], limit⟩

def depth (s : CallStack) : Nat := s.frames.length

def isEmpty (s : CallStack) : Bool := s.frames.isEmpty

/-- Begins a call, unless the limit is reached. -/
def push (s : CallStack) (frame : CallFrame) : Except Fault CallStack :=
  let pushed := { s with frames := frame :: s.frames }
  match s.limit with
  | none => .ok pushed
  | some limit =>
    if limit ≤ s.depth then
      .error ((Fault.ofCause (.callDepthExceeded limit)).locate frame.span)
    else .ok pushed

/-- Ends the innermost call. -/
def pop (s : CallStack) : Option CallFrame × CallStack :=
  match s.frames with
  | [] => (none, s)
  | frame :: rest => (some frame, { s with frames := rest })

end CallStack

end Prose
