import Prose.Name
import Prose.Operator
import Prose.Span

/-!
Syntax trees of statements. Every node carries the span of the statement text it was read from.
-/

namespace Prose

/-- The words that say what a `Read` statement reads, such as `real number`. -/
structure ReadType where
  text : String
  span : Span
deriving DecidableEq, Inhabited

mutual

/-- An expression. -/
inductive Expr where
  | integer (value : Int64) (span : Span)
  | real (value : Float) (span : Span)
  | name (name : Name) (span : Span)
  | text (value : String) (span : Span)
  | truth (value : Bool) (span : Span)
  /-- `[a, b, c]` -/
  | list (items : List Expr) (span : Span)
  /-- `a function given x, y:` and a block -/
  | function (params : List Name) (body : Block) (span : Span)
  /-- `(e)` -/
  | group (inner : Expr) (span : Span)
  /-- `the result of f with x as 1` -/
  | result (call : Call) (span : Span)
  | binary (op : Operator) (left right : Expr) (span : Span)

/-- A function to call and its named arguments. -/
inductive Call where
  | mk (callee : Expr) (args : List Argument) (span : Span)

/-- `name as value` in a call. -/
inductive Argument where
  | mk (name : Name) (nameSpan : Span) (value : Expr)

/-- What an assignment changes. -/
inductive Target where
  | name (name : Name)
  /-- `l at position i` -/
  | position (list index : Expr)

/-- A statement. -/
inductive Stmt where
  /-- `Set x to e` or `x is e` -/
  | assign (target : Target) (value : Expr) (span : Span)
  /-- `Print e` -/
  | print (value : Expr) (span : Span)
  /-- `What is e?` -/
  | inspect (value : Expr) (span : Span)
  /-- `Read an integer into x` -/
  | read (type : Option ReadType) (target : Name) (span : Span)
  /-- `Add e to l` -/
  | add (value list : Expr) (span : Span)
  /-- `Remove l at position i` -/
  | remove (list index : Expr) (span : Span)
  /-- `While c` and a body -/
  | loop (condition : Expr) (body : Body) (span : Span)
  /-- `If c`, a body, and another after `otherwise` -/
  | branch (condition : Expr) (body : Body) (alternative : Option Body) (span : Span)
  /-- `For each x in l` and a body -/
  | forEach (item : Name) (list : Expr) (body : Body) (span : Span)
  | increment (name : Name) (span : Span)
  | decrement (name : Name) (span : Span)
  | exit (span : Span)
  /-- `Run f with x as 1` -/
  | run (call : Call) (span : Span)
  /-- `The result is e` -/
  | result (value : Expr) (span : Span)

/-- The body of a compound statement: an indented block, or one sentence on the same line. -/
inductive Body where
  | block (block : Block)
  | sentence (stmt : Stmt)

/-- The statements of an indented block, in order. -/
inductive Block where
  | mk (stmts : List Stmt) (span : Span)

end

instance : Inhabited Expr := ⟨.truth false .nowhere⟩

instance : Inhabited Stmt := ⟨.exit .nowhere⟩

namespace Expr

/-- The text the expression was read from. -/
def span : Expr → Span
  | integer _ s | real _ s | name _ s | text _ s | truth _ s | list _ s | function _ _ s
  | group _ s | result _ s | binary _ _ _ s => s

end Expr

namespace Call

def callee : Call → Expr
  | mk callee _ _ => callee

def args : Call → List Argument
  | mk _ args _ => args

def span : Call → Span
  | mk _ _ span => span

end Call

namespace Argument

/-- The parameter the argument is for. -/
def name : Argument → Name
  | mk name _ _ => name

/-- Where that parameter is named. -/
def nameSpan : Argument → Span
  | mk _ span _ => span

def value : Argument → Expr
  | mk _ _ value => value

end Argument

namespace Block

def stmts : Block → List Stmt
  | mk stmts _ => stmts

/-- The text the block was read from, its marks included. -/
def span : Block → Span
  | mk _ span => span

end Block

namespace Stmt

/-- The text the statement was read from, without the sign that ends it. -/
def span : Stmt → Span
  | assign _ _ s | print _ s | inspect _ s | read _ _ s | add _ _ s | remove _ _ s | loop _ _ s
  | branch _ _ _ s | forEach _ _ _ s | increment _ s | decrement _ s | exit s | run _ s
  | result _ s => s

/-- Whether the statement is a bare `Exit`. -/
def isExit : Stmt → Bool
  | exit _ => true
  | _ => false

end Stmt

end Prose
