import Prose.Diagnostic.Basic
import Prose.Operator

/-!
Why a running program stops: a fault, or the wish to exit, which travels the same way so that it
can leave from any depth.
-/

namespace Prose

/-- What went wrong, or that the program exits. -/
inductive Fault.Cause where
  | noSuchVariable (name : String)
  | wrongType (expected found : String)
  | mismatchedOperands (left : String) (op : Operator) (right : String)
  | unsupportedOperator (type : String) (op : Operator)
  | integerOverflow (operation : String)
  | indexOutOfBounds (index : Int) (operation : String) (length : Nat)
  | badParameterCount (expected given : Nat)
  | unknownParameter (name : String)
  | duplicateParameter (name : String)
  | noResult
  | callDepthExceeded (limit : Nat)
  | notUnderstood (message : String)
  | inputFailed (message : String)
  /-- The program asks to end. -/
  | exit
deriving DecidableEq, Inhabited

/-- A cause, where in the statement it arose, and the calls it left, innermost first. -/
structure Fault where
  cause : Fault.Cause
  span? : Option Span
  backtrace : List String
deriving DecidableEq, Inhabited

namespace Fault

def Cause.code : Cause → Code
  | noSuchVariable _ => .noSuchVariable
  | wrongType _ _ => .wrongType
  | mismatchedOperands _ _ _ => .mismatchedOperands
  | unsupportedOperator _ _ => .unsupportedOperator
  | integerOverflow _ => .integerOverflow
  | indexOutOfBounds _ _ _ => .indexOutOfBounds
  | badParameterCount _ _ | unknownParameter _ | duplicateParameter _ => .badParameter
  | noResult => .noResult
  | callDepthExceeded _ => .callDepthExceeded
  | notUnderstood _ | exit => .notUnderstood
  | inputFailed _ => .inputFailed

def Cause.message : Cause → String
  | noSuchVariable name => "no such variable: " ++ name
  | wrongType expected found => "wrong type: expected " ++ expected ++ ", found " ++ found
  | mismatchedOperands left op right =>
    "mismatched operands: cannot apply `" ++ op.symbol ++ "` to " ++ left ++ " and " ++ right
  | unsupportedOperator type op => type ++ " does not support operator '" ++ op.symbol ++ "'"
  | integerOverflow operation => "integer overflow in " ++ operation
  | indexOutOfBounds index operation length =>
    "index " ++ toString index ++ " is out of bounds for " ++ operation ++
      " on a list of length " ++ toString length
  | badParameterCount expected given =>
    "expected " ++ toString expected ++ (if expected = 1 then " argument" else " arguments") ++
      ", was given " ++ toString given
  | unknownParameter name => "parameter " ++ name ++ " is not valid"
  | duplicateParameter name => "parameter " ++ name ++ " was given more than once"
  | noResult => "function produced no result"
  | callDepthExceeded limit => "maximum call depth exceeded (limit: " ++ toString limit ++ ")"
  | notUnderstood message => message
  | inputFailed message => message
  | exit => "exit"

/-- A fault that has no place yet. -/
def ofCause (cause : Cause) : Fault := ⟨cause, none, []⟩

def code (f : Fault) : Code := f.cause.code

def message (f : Fault) : String := f.cause.message

/-- Whether it is the wish to exit rather than a fault. -/
def isExit (f : Fault) : Bool :=
  match f.cause with
  | .exit => true
  | _ => false

/-- Gives a fault a place, unless it has a closer one already. An exit has no place. -/
def locate (f : Fault) (span : Span) : Fault :=
  if f.isExit then f
  else match f.span? with
    | some _ => f
    | none => { f with span? := some span }

/-- Lets a fault leave a call: its place becomes the call, and the call is noted. An exit passes
unchanged. -/
def leaveCall (f : Fault) (span : Span) (name : String) : Fault :=
  if f.isExit then f
  else { f with span? := some span, backtrace := f.backtrace ++ [name] }

/-- The fault as a diagnostic about the text of the statement. -/
def toDiagnostic (f : Fault) : Diagnostic :=
  { code := f.code
    message := f.message
    labels := match f.span? with
      | some span => [⟨span, f.code.description⟩]
      | none => []
    notes := f.backtrace.map ("while running " ++ ·) }

end Fault

end Prose
