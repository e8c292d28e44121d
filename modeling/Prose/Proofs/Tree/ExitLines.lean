import Prose.Tree

/-!
Where `Exit` statements stand. An `Exit` that is a line of an indented block
leaves a loop; any other `Exit`, a sentence of its own or the one sentence of a
body, ends the program. Here are the trees in which every `Exit` is such a line,
in the bodies of function literals too.
-/

namespace Prose

mutual

/-- Every `Exit` in the expression is a line of a block. -/
def Expr.exitsInLines : Expr → Bool
  | .list items _ => Expr.exitsInLinesOf items
  | .function _ body _ => body.exitsInLines
  | .group inner _ => inner.exitsInLines
  | .result call _ => call.exitsInLines
  | .binary _ left right _ => left.exitsInLines && right.exitsInLines
  | .integer _ _ | .real _ _ | .name _ _ | .text _ _ | .truth _ _ => true

def Expr.exitsInLinesOf : List Expr → Bool
  | [] => true
  | e :: es => e.exitsInLines && Expr.exitsInLinesOf es

def Call.exitsInLines : Call → Bool
  | .mk callee args _ => callee.exitsInLines && Argument.exitsInLinesOf args

def Argument.exitsInLinesOf : List Argument → Bool
  | [] => true
  | .mk _ _ value :: args => value.exitsInLines && Argument.exitsInLinesOf args

def Target.exitsInLines : Target → Bool
  | .name _ => true
  | .position list index => list.exitsInLines && index.exitsInLines

/-- The statement is no `Exit`, and every `Exit` in it is a line of a block. -/
def Stmt.exitsInLines : Stmt → Bool
  | .assign target value _ => target.exitsInLines && value.exitsInLines
  | .print value _ | .inspect value _ | .result value _ => value.exitsInLines
  | .add value list _ => value.exitsInLines && list.exitsInLines
  | .remove list index _ => list.exitsInLines && index.exitsInLines
  | .loop condition body _ => condition.exitsInLines && body.exitsInLines
  | .branch condition body none _ =>
      condition.exitsInLines && body.exitsInLines
  | .branch condition body (some alternative) _ =>
      condition.exitsInLines && body.exitsInLines && alternative.exitsInLines
  | .forEach _ list body _ => list.exitsInLines && body.exitsInLines
  | .run call _ => call.exitsInLines
  | .exit _ => false
  | .read _ _ _ | .increment _ _ | .decrement _ _ => true

def Body.exitsInLines : Body → Bool
  | .block block => block.exitsInLines
  | .sentence s => s.exitsInLines

def Block.exitsInLines : Block → Bool
  | .mk stmts _ => Stmt.exitsInLinesOf stmts

def Stmt.exitsInLinesOf : List Stmt → Bool
  | [] => true
  | s :: rest => (s.isExit || s.exitsInLines) && Stmt.exitsInLinesOf rest

end

end Prose
