import Prose.Diagnostic.Basic
import Prose.Token.Lexer

/-!
Syntax errors: why a statement is none, and where in its text that shows.
-/

namespace Prose

/-- What is wrong with a statement. -/
inductive SyntaxError.Cause where
  /-- Characters that make no token. -/
  | flaw (flaw : Flaw)
  /-- There are no tokens at all. -/
  | emptyStatement
  /-- Something else should stand here. -/
  | unexpected (expected : String) (found : Token.Kind)
  /-- An expression should stand here. -/
  | noExpression (found : Token.Kind)
  /-- A minus sign stands before something that is no number. -/
  | notNegatable (found : Token.Kind)
  /-- A block should stand here. -/
  | noBlock (found : Token.Kind)
  /-- An expression that cannot be assigned to. -/
  | notAssignable
  /-- The productions call each other too deeply. -/
  | tooDeep

/-- A cause and where it shows in the statement. -/
structure SyntaxError where
  cause : SyntaxError.Cause
  span : Span

namespace SyntaxError

/-- The code for a token that should not stand where it does: characters that make no token have a
code of their own. -/
def Cause.codeFor (found : Token.Kind) (code : Code) : Code :=
  match found with
  | .unreadable => .unrecognisedCharacter
  | _ => code

def Cause.code : Cause → Code
  | flaw .integerTooLarge | flaw .badReal => .badNumber
  | flaw .unrecognised | flaw .unterminatedText => .unrecognisedCharacter
  | emptyStatement => .unexpectedToken
  | unexpected _ found => codeFor found .unexpectedToken
  | noExpression found => codeFor found .expectedExpression
  | notNegatable _ => .expectedExpression
  | noBlock _ => .missingBlock
  | notAssignable => .unexpectedToken
  | tooDeep => .unexpectedToken

def Cause.message : Cause → String
  | flaw f => f.message
  | emptyStatement => "empty statement"
  | unexpected expected found => "expected " ++ expected ++ ", found " ++ found.describe
  | noExpression found => "expected expression, found " ++ found.describe
  | notNegatable found => "expected a number after `-`, found " ++ found.describe
  | noBlock found => "expected an indented block, found " ++ found.describe
  | notAssignable => "cannot assign to this expression"
  | tooDeep => "statement is nested too deeply"

/-- What is said at the place of the error. -/
def Cause.label? : Cause → Option String
  | flaw _ | emptyStatement | tooDeep => none
  | unexpected expected _ => some ("expected " ++ expected)
  | noExpression _ => some "expected expression"
  | notNegatable _ => some "only number literals can be negated"
  | noBlock _ => some "block expected here"
  | notAssignable => some "not a variable or list position"

def code (e : SyntaxError) : Code := e.cause.code

def message (e : SyntaxError) : String := e.cause.message

def label? (e : SyntaxError) : Option String := e.cause.label?

/-- The error of a flawed token. -/
def ofLexError (e : LexError) : SyntaxError := ⟨.flaw e.flaw, e.span⟩

/-- The error as a diagnostic about the text of the statement. -/
def toDiagnostic (e : SyntaxError) : Diagnostic :=
  { code := e.code, message := e.message, labels := [⟨e.span, e.label?.getD ""⟩], notes := [] }

end SyntaxError

end Prose
