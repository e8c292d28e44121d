/-!
Codes of diagnostics. The first digit tells the stage that reports the problem: 1 for layout, 2
for syntax, 3 for running, 9 for reading the program at all.
-/

namespace Prose

/-- The kinds of problems that are reported. -/
inductive Code where
  | missingIndentation
  | missingBlock
  | unexpectedToken
  | expectedExpression
  | badNumber
  | unrecognisedCharacter
  | noSuchVariable
  | wrongType
  | mismatchedOperands
  | unsupportedOperator
  | indexOutOfBounds
  | badParameter
  | noResult
  | notUnderstood
  | integerOverflow
  | inputFailed
  | callDepthExceeded
  | unreadableSource
deriving DecidableEq, Inhabited

namespace Code

def all : List Code :=
  [missingIndentation, missingBlock, unexpectedToken, expectedExpression, badNumber,
    unrecognisedCharacter, noSuchVariable, wrongType, mismatchedOperands, unsupportedOperator,
    indexOutOfBounds, badParameter, noResult, notUnderstood, integerOverflow, inputFailed,
    callDepthExceeded, unreadableSource]

/-- The code as it is written. -/
def label : Code → String
  | missingIndentation => "E1001"
  | missingBlock => "E1002"
  | unexpectedToken => "E2001"
  | expectedExpression => "E2002"
  | badNumber => "E2003"
  | unrecognisedCharacter => "E2004"
  | noSuchVariable => "E3001"
  | wrongType => "E3002"
  | mismatchedOperands => "E3003"
  | unsupportedOperator => "E3004"
  | indexOutOfBounds => "E3005"
  | badParameter => "E3006"
  | noResult => "E3007"
  | notUnderstood => "E3008"
  | integerOverflow => "E3009"
  | inputFailed => "E3010"
  | callDepthExceeded => "E3011"
  | unreadableSource => "E9001"

/-- What a code stands for, in a few words. -/
def description : Code → String
  | missingIndentation => "missing indentation"
  | missingBlock => "expected an indented block"
  | unexpectedToken => "unexpected token"
  | expectedExpression => "expected expression"
  | badNumber => "invalid number literal"
  | unrecognisedCharacter => "unrecognised character"
  | noSuchVariable => "no such variable"
  | wrongType => "wrong type"
  | mismatchedOperands => "mismatched operands"
  | unsupportedOperator => "unsupported operator"
  | indexOutOfBounds => "list index out of bounds"
  | badParameter => "bad parameter"
  | noResult => "function produced no result"
  | notUnderstood => "statement not understood"
  | integerOverflow => "integer overflow"
  | inputFailed => "could not read input"
  | callDepthExceeded => "call depth limit exceeded"
  | unreadableSource => "could not read source"

/-- Whether the problem arises while a program runs. -/
def isRuntime : Code → Bool
  | noSuchVariable | wrongType | mismatchedOperands | unsupportedOperator | indexOutOfBounds
  | badParameter | noResult | notUnderstood | integerOverflow | inputFailed
  | callDepthExceeded => true
  | _ => false

def ofLabel? (label : String) : Option Code := all.find? (·.label == label)

end Code

end Prose
