/-!
The binary operators: their symbols, how tightly they bind, and the words that spell them.
-/

namespace Prose

/-- A binary operator. -/
inductive Operator where
  | add | subtract | multiply | divide | power
  | equal | notEqual
  | less | lessEqual | greater | greaterEqual
  | atPosition
deriving DecidableEq, Inhabited

namespace Operator

/-- All operators, in the order of their listing. -/
def all : List Operator :=
  [add, subtract, multiply, divide, power, equal, notEqual, less, lessEqual, greater, greaterEqual,
    atPosition]

/-- The spelling used in messages. -/
def symbol : Operator → String
  | add => "+"
  | subtract => "-"
  | multiply => "*"
  | divide => "/"
  | power => "^"
  | equal => "="
  | notEqual => "!="
  | less => "<"
  | lessEqual => "<="
  | greater => ">"
  | greaterEqual => ">="
  | atPosition => "at position"

/-- How tightly an operator binds; a higher number binds tighter. -/
def precedence : Operator → Nat
  | equal | notEqual => 1
  | less | lessEqual | greater | greaterEqual => 2
  | add | subtract => 3
  | multiply | divide => 4
  | power => 5
  | atPosition => 6

/-- Whether `a op b op c` groups as `a op (b op c)`. -/
def isRightAssociative : Operator → Bool
  | power => true
  | _ => false

/-- The least precedence an operator may have to belong to the right operand. -/
def rightPrecedence (op : Operator) : Nat :=
  if op.isRightAssociative then op.precedence else op.precedence + 1

/-- The operators that can be spelled in words. Where two spellings share their first words, the
one that is tried first stands first. -/
def spellings : List (List String × Operator) :=
  [(["is", "not", "equal", "to"], notEqual),
   (["is", "equal", "to"], equal),
   (["is", "less", "than"], less),
   (["is", "greater", "than"], greater),
   (["is", "at", "least"], greaterEqual),
   (["is", "at", "most"], lessEqual),
   (["equals"], equal),
   (["plus"], add),
   (["minus"], subtract),
   (["times"], multiply),
   (["divided", "by"], divide),
   (["to", "the", "power", "of"], power),
   (["at", "position"], atPosition)]

def ofSymbol? (symbol : String) : Option Operator := all.find? (·.symbol == symbol)

end Operator

end Prose
