import Prose.Eval.Arguments
import Prose.Eval.Machine
import Prose.Eval.Operators
import Prose.Value.Show
import Prose.Value.Walk

/-!
Running trees. A function runs in a frame inside the scope of its caller, so it sees the variables
of the place it is called from. Each body of a loop or a branch runs in a frame of its own.

A statement ends normally, or leaves the loop around it, or leaves the function around it with a
result. A line `Exit` of a block leaves the loop; an `Exit` that is no line of a block ends the
program. Programs need not end, so the number of nested or repeated steps is bounded by an
argument.
-/

namespace Prose.Eval

/-- How a statement ended. -/
inductive Flow where
  | normal
  /-- Leaves the nearest loop. -/
  | leave
  /-- Leaves the function with a result. -/
  | result (value : Value)
deriving Inhabited

/-! ### Parts without recursion -/

/-- The truth value that an expression gave. -/
def asTruth (e : Expr) (value : Value) : Run Bool :=
  match value with
  | .truth b => return b
  | v => Run.failAt e.span (.wrongType "boolean" v.typeName)

def asList (e : Expr) (value : Value) : Run ListRef :=
  match value with
  | .list ref => return ref
  | v => Run.failAt e.span (.wrongType "list" v.typeName)

def asInteger (e : Expr) (value : Value) : Run Int64 :=
  match value with
  | .integer n => return n
  | v => Run.failAt e.span (.wrongType "integer" v.typeName)

def asFunction (e : Expr) (value : Value) : Run Function :=
  match value with
  | .function f => return f
  | v => Run.failAt e.span (.wrongType "function" v.typeName)

def applyTo (op : Operator) (left right : Value) : Run Value := fun m =>
  some (applyOperator m.heap op left right, m)

def addTo (ref : ListRef) (value : Value) : Run Unit :=
  Run.update fun m => { m with heap := m.heap.modify ref (·.push value) }

/-- Puts a value in the place of the element of a list at an index. -/
def setElement (ref : ListRef) (index : Int64) (value : Value) : Run Unit := fun m =>
  let c := m.heap.get ref
  match c.set? index.toInt value with
  | some c => some (.ok (), { m with heap := m.heap.put ref c })
  | none => some (.error (outOfBounds index "update" c), m)

/-- Removes the element of a list at an index and gives it. -/
def removeElement (ref : ListRef) (index : Int64) : Run Value := fun m =>
  let c := m.heap.get ref
  match c.remove? index.toInt with
  | some (value, c) => some (.ok value, { m with heap := m.heap.put ref c })
  | none => some (.error (outOfBounds index "remove" c), m)

/-- Adds to an integer variable. -/
def stepVariable (name : Name) (delta : Int) (operation : String) : Run Unit := do
  match ← Run.lookup name with
  | .integer n =>
    let value ← Run.ofExcept (exact operation (n.toInt + delta))
    Run.assign name value
  | v => Run.fail (.wrongType "integer" v.typeName)

/-- What a `Read` statement reads. -/
inductive ReadKind where
  | line | integer | real | truth
deriving DecidableEq, Inhabited

/-- The kind that the words of a `Read` statement name, in any case. -/
def readKind (type : Option ReadType) : Except Fault ReadKind :=
  match type with
  | none => .ok .line
  | some type =>
    let words := Text.lowerString type.text
    if words = "integer" then .ok .integer
    else if words = "real number" then .ok .real
    else if words = "boolean" then .ok .truth
    else .error ((Fault.ofCause
      (.notUnderstood (type.text ++ " is not a valid type for reading"))).locate type.span)

/-- The truth value a word names, in any case. -/
def readTruth? (word : List Char) : Option Bool :=
  let word := String.ofList (Text.lower word)
  if word = "true" then some true
  else if word = "false" then some false
  else none

/-- The value that a word stands for. -/
def readWord? (kind : ReadKind) (word : List Char) : Option Value :=
  match kind with
  | .integer => (Decimal.readInteger? word).map .integer
  | .real => (Decimal.readReal? word).map .real
  | .truth => (readTruth? word).map .truth
  | .line => none

/-- Reads a value: a whole line, or the first word of the next line that has one. -/
def readValue (type : Option ReadType) : Run Value := do
  match ← Run.ofExcept (readKind type) with
  | .line => return .text (String.ofList (← Run.fromInput Input.line))
  | kind =>
    let word ← Run.fromInput Input.word
    match readWord? kind word with
    | some value => return value
    | none =>
      let wanted := (type.map (·.text)).getD "value"
      Run.fail (.notUnderstood ("`" ++ String.ofList word ++ "` is not a valid " ++ wanted))

/-- How the callee of a call is named in a backtrace. -/
def calleeName (callee : Expr) : String :=
  match callee with
  | .name name _ => Token.Kind.quoted name.text
  | _ => "a function"

/-! ### Expressions and statements -/

mutual

/-- Evaluates an expression. A fault stands at the innermost expression that failed. -/
def evalExpr : Nat → Expr → Run Value
  | 0, _ => Run.unfinished
  | n + 1, e => Run.located e.span <|
    match e with
    | .integer value _ => return .integer value
    | .real value _ => return .real value
    | .name name _ => Run.lookup name
    | .text value _ => return .text value
    | .truth value _ => return .truth value
    | .list items _ => do Run.newList (← evalExprs n items)
    | .function params body _ => Run.newFunction params body
    | .group inner _ => evalExpr n inner
    | .result call _ => do
      match ← runCall n call with
      | some value => return value
      | none => Run.fail .noResult
    | .binary op left right _ => do
      let left ← evalExpr n left
      let right ← evalExpr n right
      applyTo op left right

def evalExprs : Nat → List Expr → Run (List Value)
  | 0, _ => Run.unfinished
  | _ + 1, [] => return []
  | n + 1, e :: es => do
    let value ← evalExpr n e
    let values ← evalExprs n es
    return value :: values

def evalArguments : Nat → List Argument → Run (List Passed)
  | 0, _ => Run.unfinished
  | _ + 1, [] => return []
  | n + 1, .mk name nameSpan value :: args => do
    let value ← evalExpr n value
    let rest ← evalArguments n args
    return ⟨name, nameSpan, value⟩ :: rest

/-- Calls a function: the callee, then the arguments, then the body. -/
def runCall : Nat → Call → Run (Option Value)
  | 0, _ => Run.unfinished
  | n + 1, .mk callee args span => do
    let f ← asFunction callee (← evalExpr n callee)
    let args ← evalArguments n args
    let frame ← Run.ofExcept (bindArguments f.params span args)
    match ← Run.inCall ⟨calleeName callee, span⟩ (Run.inFrame frame (runStmts n f.body.stmts)) with
    | .result value => return some value
    | .normal | .leave => return none

/-- Runs a statement. A fault that has no place yet stands at the statement. -/
def runStmt : Nat → Stmt → Run Flow
  | 0, _ => Run.unfinished
  | n + 1, s => Run.located s.span <|
    match s with
    | .assign target value _ => do
      let value ← evalExpr n value
      match target with
      | .name name =>
        Run.assign name value
        return .normal
      | .position list index =>
        let ref ← asList list (← evalExpr n list)
        let i ← asInteger index (← evalExpr n index)
        Run.located index.span (setElement ref i value)
        return .normal
    | .print value _ => do
      let value ← evalExpr n value
      Run.printLine (value.toText (← Run.machine).heap)
      return .normal
    | .inspect value _ => do
      let value ← evalExpr n value
      Run.printLine (value.toAnswer (← Run.machine).heap)
      return .normal
    | .read type target _ => do
      Run.assign target (← readValue type)
      return .normal
    | .add value list _ => do
      let ref ← asList list (← evalExpr n list)
      addTo ref (← evalExpr n value)
      return .normal
    | .remove list index _ => do
      let ref ← asList list (← evalExpr n list)
      let i ← asInteger index (← evalExpr n index)
      let _ ← removeElement ref i
      return .normal
    | .loop condition body _ => runLoop n condition body
    | .branch condition body alternative _ => do
      if ← asTruth condition (← evalExpr n condition) then Run.inFrame .empty (runBody n body)
      else match alternative with
        | some body => Run.inFrame .empty (runBody n body)
        | none => return .normal
    | .forEach item list body _ => do
      let ref ← asList list (← evalExpr n list)
      runForEach n item ref .start body
    | .increment name _ => do
      stepVariable name 1 "increment"
      return .normal
    | .decrement name _ => do
      stepVariable name (-1) "decrement"
      return .normal
    | .exit _ => Run.fail .exit
    | .run call _ => do
      let _ ← runCall n call
      return .normal
    | .result value _ => do
      if (← Run.machine).calls.isEmpty then
        Run.fail (.notUnderstood "`the result is` can only be used inside a function")
      else return .result (← evalExpr n value)

def runStmts : Nat → List Stmt → Run Flow
  | 0, _ => Run.unfinished
  | _ + 1, [] => return .normal
  | n + 1, s :: rest => do
    if s.isExit then return .leave
    else match ← runStmt n s with
      | .normal => runStmts n rest
      | flow => return flow

/-- Runs the body of a compound statement. -/
def runBody : Nat → Body → Run Flow
  | 0, _ => Run.unfinished
  | n + 1, .block (.mk stmts _) => runStmts n stmts
  | n + 1, .sentence s => runStmt n s

/-- Runs a body as long as a condition holds. -/
def runLoop : Nat → Expr → Body → Run Flow
  | 0, _, _ => Run.unfinished
  | n + 1, condition, body => do
    if ← asTruth condition (← evalExpr n condition) then
      match ← Run.inFrame .empty (runBody n body) with
      | .normal => runLoop n condition body
      | .leave => return .normal
      | .result value => return .result value
    else return .normal

/-- Runs a body for each element on a walk along a list, which may change meanwhile. -/
def runForEach : Nat → Name → ListRef → Walk → Body → Run Flow
  | 0, _, _, _, _ => Run.unfinished
  | n + 1, item, ref, walk, body => do
    match walk.next ((← Run.machine).heap.get ref) with
    | (none, _) => return .normal
    | (some value, walk) =>
      match ← Run.inFrame (Frame.empty.declare item value) (runBody n body) with
      | .normal => runForEach n item ref walk body
      | .leave => return .normal
      | .result value => return .result value

end

end Prose.Eval
