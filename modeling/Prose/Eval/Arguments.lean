import Prose.Scope

/-!
Binding the arguments of a call to the parameters of a function. Arguments are named and may stand
in any order.
-/

namespace Prose.Eval

/-- An argument whose value is known. -/
structure Passed where
  name : Name
  nameSpan : Span
  value : Value

/-- Binds arguments one after the other. Each has to be a parameter that is not bound yet. -/
def bindEach (params : List Name) : Frame → List Passed → Except Fault Frame
  | frame, [] => .ok frame
  | frame, arg :: rest =>
    if !params.contains arg.name then
      .error ((Fault.ofCause (.unknownParameter arg.name.text)).locate arg.nameSpan)
    else if frame.binds arg.name then
      .error ((Fault.ofCause (.duplicateParameter arg.name.text)).locate arg.nameSpan)
    else bindEach params (frame.declare arg.name arg.value) rest

/-- The frame of a call: every parameter bound to its argument. -/
def bindArguments (params : List Name) (span : Span) (args : List Passed) : Except Fault Frame :=
  if params.length ≠ args.length then
    .error ((Fault.ofCause (.badParameterCount params.length args.length)).locate span)
  else bindEach params .empty args

end Prose.Eval
