import Prose.Decimal.Form
import Prose.Text.Quoted
import Prose.Tree
import Prose.Value.Show

/-!
Trees for the eye: one part to a line, indented by its depth.
-/

namespace Prose

/-- A nested listing. -/
inductive Outline where
  | leaf (text : String)
  /-- Items between an opening and a closing. -/
  | node (opening : String) (items : List Outline) (closing : String)
  /-- An item with a name. -/
  | field (name : String) (value : Outline)

namespace Outline

/-- Named parts of a record. -/
def record (name : String) (fields : List Outline) : Outline :=
  .node (name ++ " \x7b") fields "\x7d"

/-- A named wrapper of one part. -/
def wrap (name : String) (item : Outline) : Outline := .node (name ++ "(") [item] ")"

/-- Items in brackets. -/
def list (items : List Outline) : Outline :=
  if items.isEmpty then .leaf "[]" else .node "[" items "]"

/-- A part that may be missing. -/
def maybe : Option Outline → Outline
  | none => .leaf "None"
  | some item => wrap "Some" item

def ofSpan (s : Span) : Outline := .leaf s.toText

def ofString (s : String) : Outline := .leaf (Text.quote s)

def ofName (n : Name) : Outline := ofString n.text

/-- Lines of an item inside a node: indented, with a comma after the last. -/
def indentItem : List String → List String
  | [] => []
  | [line] => ["    " ++ line ++ ","]
  | line :: rest => ("    " ++ line) :: indentItem rest

/-- Puts a name before the first line. -/
def nameFirst (name : String) : List String → List String
  | [] => []
  | line :: rest => (name ++ ": " ++ line) :: rest

mutual

def lines : Outline → List String
  | leaf text => [text]
  | node opening items closing => opening :: (itemLines items ++ [closing])
  | field name value => nameFirst name (lines value)

def itemLines : List Outline → List String
  | [] => []
  | item :: rest => indentItem (lines item) ++ itemLines rest

end

def toText (o : Outline) : String := String.intercalate "\n" o.lines

end Outline

namespace Operator

def listingName : Operator → String
  | add => "Add"
  | subtract => "Sub"
  | multiply => "Mul"
  | divide => "Div"
  | power => "Pow"
  | equal => "Eq"
  | notEqual => "NotEq"
  | less => "Lt"
  | lessEqual => "LtEq"
  | greater => "Gt"
  | greaterEqual => "GtEq"
  | atPosition => "AtPosition"

end Operator

namespace Tree

/-- Reals keep a fraction when they are written out; very large and very small ones are written
with a power of ten. -/
def realForm : Decimal.Form where
  isPositional e := decide (-4 ≤ e) && decide (e < 16)
  keepsFraction := true
  keepsCoefficientFraction := false
  exponentMark := "e"
  infinity := "inf"

/-- A node with its span. -/
def spanned (name : String) (kind : Outline) (span : Span) : Outline :=
  .record name [.field "kind" kind, .field "span" (.ofSpan span)]

def readTypeOutline (t : ReadType) : Outline :=
  .record "Annotation" [.field "text" (.ofString t.text), .field "span" (.ofSpan t.span)]

mutual

/-- The listing of an expression. -/
def exprOutline : Expr → Outline
  | .integer n s => spanned "Expr" (.wrap "Int" (.leaf (toString n.toInt))) s
  | .real r s => spanned "Expr" (.wrap "Real" (.leaf (realForm.write r))) s
  | .name n s => spanned "Expr" (.wrap "Ident" (.ofName n)) s
  | .text t s => spanned "Expr" (.wrap "Str" (.ofString t)) s
  | .truth b s => spanned "Expr" (.wrap "Bool" (.leaf (Value.truthWord b))) s
  | .list items s => spanned "Expr" (.wrap "List" (.list (exprOutlines items))) s
  | .function params body s =>
    spanned "Expr"
      (.wrap "Function" (.record "FunctionLiteral"
        [.field "params" (.list (params.map .ofName)), .field "body" (blockOutline body)])) s
  | .group inner s => spanned "Expr" (.wrap "Paren" (exprOutline inner)) s
  | .result call s => spanned "Expr" (.wrap "Result" (callOutline call)) s
  | .binary op left right s =>
    spanned "Expr"
      (.record "Binary" [.field "op" (.leaf op.listingName), .field "left" (exprOutline left),
        .field "right" (exprOutline right)]) s

def exprOutlines : List Expr → List Outline
  | [] => []
  | e :: rest => exprOutline e :: exprOutlines rest

def callOutline : Call → Outline
  | .mk callee args span =>
    .record "Call" [.field "callee" (exprOutline callee),
      .field "args" (.list (argumentOutlines args)), .field "span" (.ofSpan span)]

def argumentOutlines : List Argument → List Outline
  | [] => []
  | .mk name nameSpan value :: rest =>
    .record "Argument" [.field "name" (.ofName name), .field "name_span" (.ofSpan nameSpan),
      .field "value" (exprOutline value)] :: argumentOutlines rest

def targetOutline : Target → Outline
  | .name n => .wrap "Variable" (.ofName n)
  | .position list index =>
    .record "Position" [.field "list" (exprOutline list), .field "index" (exprOutline index)]

def stmtOutline : Stmt → Outline
  | .assign target value s =>
    spanned "Stmt"
      (.record "Assign"
        [.field "target" (targetOutline target), .field "value" (exprOutline value)]) s
  | .print value s => spanned "Stmt" (.wrap "Print" (exprOutline value)) s
  | .inspect value s => spanned "Stmt" (.wrap "Inspect" (exprOutline value)) s
  | .read type target s =>
    spanned "Stmt"
      (.record "Read" [.field "annotation" (.maybe (type.map readTypeOutline)),
        .field "target" (.ofName target)]) s
  | .add value list s =>
    spanned "Stmt"
      (.record "Add" [.field "value" (exprOutline value), .field "list" (exprOutline list)]) s
  | .remove list index s =>
    spanned "Stmt"
      (.record "Remove" [.field "list" (exprOutline list), .field "index" (exprOutline index)]) s
  | .loop condition body s =>
    spanned "Stmt"
      (.record "While" [.field "cond" (exprOutline condition), .field "body" (bodyOutline body)]) s
  | .branch condition body none s =>
    spanned "Stmt"
      (.record "If" [.field "cond" (exprOutline condition), .field "then_body" (bodyOutline body),
        .field "otherwise" (.maybe none)]) s
  | .branch condition body (some alternative) s =>
    spanned "Stmt"
      (.record "If" [.field "cond" (exprOutline condition), .field "then_body" (bodyOutline body),
        .field "otherwise" (.maybe (some (bodyOutline alternative)))]) s
  | .forEach item list body s =>
    spanned "Stmt"
      (.record "ForEach" [.field "var" (.ofName item), .field "iterable" (exprOutline list),
        .field "body" (bodyOutline body)]) s
  | .increment name s => spanned "Stmt" (.wrap "Increment" (.ofName name)) s
  | .decrement name s => spanned "Stmt" (.wrap "Decrement" (.ofName name)) s
  | .exit s => spanned "Stmt" (.leaf "Exit") s
  | .run call s => spanned "Stmt" (.wrap "Run" (callOutline call)) s
  | .result value s => spanned "Stmt" (.wrap "Result" (exprOutline value)) s

def bodyOutline : Body → Outline
  | .block b => .wrap "Block" (blockOutline b)
  | .sentence s => .wrap "Sentence" (stmtOutline s)

def blockOutline : Block → Outline
  | .mk stmts span =>
    .record "Block" [.field "stmts" (.list (stmtOutlines stmts)), .field "span" (.ofSpan span)]

def stmtOutlines : List Stmt → List Outline
  | [] => []
  | s :: rest => stmtOutline s :: stmtOutlines rest

end

end Tree

end Prose
