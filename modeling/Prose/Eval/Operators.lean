import Prose.Fault
import Prose.Value.Equal
import Prose.Decimal.Reader

/-!
What operators do to values. Equality holds or fails for any two values; every other operator is
chosen by the kind of its left operand.
-/

namespace Prose.Eval

abbrev Result := Except Fault Value

/-- Fails for a reason. -/
def fail {α : Type} (cause : Fault.Cause) : Except Fault α := .error (.ofCause cause)

/-- An integer if it has 64 bits, else an overflow in the named operation. -/
def exact (operation : String) (n : Int) : Result :=
  match Decimal.toInt64? n with
  | some n => .ok (.integer n)
  | none => fail (.integerOverflow operation)

/-- The largest exponent that is looked at; a larger one is an overflow whatever the base. -/
def largestExponent : Nat := 4294967295

/-- `a ^ b` for a natural `b`, if it has 64 bits. A base other than 0, 1 and -1 overflows from the
64th power on, so no large power is computed. -/
def naturalPower? (a : Int) (b : Nat) : Option Int64 :=
  if largestExponent < b then none
  else if a.natAbs ≤ 1 then Decimal.toInt64? (if b = 0 then 1 else if b % 2 = 0 then a * a else a)
  else if 64 ≤ b then none
  else Decimal.toInt64? (Int.pow a b)

/-- A power of integers. A negative exponent gives the power of the reals, cut off toward zero. -/
def power (a b : Int64) : Result :=
  if b.toInt < 0 then .ok (.integer (a.toFloat.pow b.toFloat).toInt64)
  else match naturalPower? a.toInt b.toInt.toNat with
    | some n => .ok (.integer n)
    | none => fail (.integerOverflow "exponentiation")

/-- The operators that take integers to integers. -/
def integers? (op : Operator) (a b : Int64) : Option Result :=
  match op with
  | .add => some (exact "addition" (a.toInt + b.toInt))
  | .subtract => some (exact "subtraction" (a.toInt - b.toInt))
  | .multiply => some (exact "multiplication" (a.toInt * b.toInt))
  | .power => some (power a b)
  | _ => none

/-- Whether two numbers stand in an order. -/
def ordered (left right : Value) (test : Ordering → Bool) : Value :=
  .truth (match left.compare? right with
    | some o => test o
    | none => false)

/-- The operators on two numbers, given also as reals. -/
def reals (op : Operator) (left right : Value) (a b : Float) : Result :=
  match op with
  | .add => .ok (.real (a + b))
  | .subtract => .ok (.real (a - b))
  | .multiply => .ok (.real (a * b))
  | .divide => .ok (.real (a / b))
  | .power => .ok (.real (a.pow b))
  | .less => .ok (ordered left right (· == .lt))
  | .lessEqual => .ok (ordered left right (· != .gt))
  | .greater => .ok (ordered left right (· == .gt))
  | .greaterEqual => .ok (ordered left right (· != .lt))
  | .atPosition | .equal | .notEqual => fail (.unsupportedOperator "number" op)

/-- The operators on numbers: integers stay integers where they can. -/
def numbers (op : Operator) (left right : Value) : Result :=
  let onReals : Result :=
    match left.toReal?, right.toReal? with
    | some a, some b => reals op left right a b
    | _, _ => fail (.mismatchedOperands left.typeName op right.typeName)
  match left, right with
  | .integer a, .integer b => (integers? op a b).getD onReals
  | _, _ => onReals

/-- The fault of an index outside a list. -/
def outOfBounds (index : Int64) (operation : String) (c : Chain Value) : Fault :=
  .ofCause (.indexOutOfBounds index.toInt operation c.length)

/-- The element of a list at an index. -/
def element (heap : Heap) (ref : ListRef) (index : Int64) : Result :=
  let c := heap.get ref
  match c.get? index.toInt with
  | some value => .ok value
  | none => .error (outOfBounds index "get" c)

/-- Applies an operator other than equality. -/
def applyByKind (heap : Heap) (op : Operator) (left right : Value) : Result :=
  match left with
  | .integer _ | .real _ =>
    if right.isNumber then numbers op left right
    else fail (.mismatchedOperands left.typeName op right.typeName)
  | .text a =>
    match right, op with
    | .text b, .add => .ok (.text (a ++ b))
    | .text _, op => fail (.unsupportedOperator "string" op)
    | right, op => fail (.mismatchedOperands left.typeName op right.typeName)
  | .list ref =>
    match op, right with
    | .atPosition, .integer index => element heap ref index
    | .atPosition, right => fail (.wrongType "integer" right.typeName)
    | op, _ => fail (.unsupportedOperator "list" op)
  | .truth _ => fail (.unsupportedOperator "boolean" op)
  | .function _ => fail (.unsupportedOperator "function" op)

def applyOperator (heap : Heap) (op : Operator) (left right : Value) : Result :=
  match op with
  | .equal => .ok (.truth (left.equal heap right))
  | .notEqual => .ok (.truth (!left.equal heap right))
  | op => applyByKind heap op left right

end Prose.Eval
