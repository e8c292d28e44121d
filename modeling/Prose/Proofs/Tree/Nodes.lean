import Prose.Tree

/-!
The nodes of a statement: the parts of its tree that have a place in its text.
What stands inside a function literal is left out. It is not run with the
statement, but wherever the function is called.
-/

namespace Prose

/-- A part of a tree with a place in the text. -/
inductive Node where
  | stmt (s : Stmt)
  | expr (e : Expr)
  | call (c : Call)
  /-- The name of a parameter in a call. -/
  | argument (a : Argument)
  | readType (t : ReadType)

def Node.span : Node → Span
  | stmt s => s.span
  | expr e => e.span
  | call c => c.span
  | argument a => a.nameSpan
  | readType t => t.span

mutual

/-- The nodes of an expression. -/
def Expr.nodes : Expr → List Node
  | e@(.list items _) => .expr e :: Expr.nodesOf items
  | e@(.group inner _) => .expr e :: inner.nodes
  | e@(.result call _) => .expr e :: call.nodes
  | e@(.binary _ left right _) => .expr e :: (left.nodes ++ right.nodes)
  | e => [.expr e]

def Expr.nodesOf : List Expr → List Node
  | [] => []
  | e :: es => e.nodes ++ Expr.nodesOf es

def Call.nodes : Call → List Node
  | c@(.mk callee args _) => .call c :: (callee.nodes ++ Argument.nodesOf args)

def Argument.nodesOf : List Argument → List Node
  | [] => []
  | arg@(.mk _ _ value) :: args =>
      .argument arg :: (value.nodes ++ Argument.nodesOf args)

end

def Target.nodes : Target → List Node
  | .name _ => []
  | .position list index => list.nodes ++ index.nodes

mutual

def Stmt.nodes : Stmt → List Node
  | s@(.assign target value _) => .stmt s :: (target.nodes ++ value.nodes)
  | s@(.print value _) => .stmt s :: value.nodes
  | s@(.inspect value _) => .stmt s :: value.nodes
  | s@(.read type _ _) => .stmt s :: type.toList.map .readType
  | s@(.add value list _) => .stmt s :: (value.nodes ++ list.nodes)
  | s@(.remove list index _) => .stmt s :: (list.nodes ++ index.nodes)
  | s@(.loop condition body _) => .stmt s :: (condition.nodes ++ body.nodes)
  | s@(.branch condition body none _) => .stmt s :: (condition.nodes ++ body.nodes)
  | s@(.branch condition body (some alternative) _) =>
      .stmt s :: (condition.nodes ++ body.nodes ++ alternative.nodes)
  | s@(.forEach _ list body _) => .stmt s :: (list.nodes ++ body.nodes)
  | s@(.increment _ _) => [.stmt s]
  | s@(.decrement _ _) => [.stmt s]
  | s@(.exit _) => [.stmt s]
  | s@(.run call _) => .stmt s :: call.nodes
  | s@(.result value _) => .stmt s :: value.nodes

def Body.nodes : Body → List Node
  | .block (.mk stmts _) => Stmt.nodesOf stmts
  | .sentence s => s.nodes

def Stmt.nodesOf : List Stmt → List Node
  | [] => []
  | s :: rest => s.nodes ++ Stmt.nodesOf rest

end

theorem Expr.mem_nodes (e : Expr) : .expr e ∈ e.nodes := by
  cases e <;> simp [Expr.nodes]

theorem Call.nodes_eq (c : Call) :
    c.nodes = .call c :: (c.callee.nodes ++ Argument.nodesOf c.args) := by
  cases c
  rw [Call.nodes]
  rfl

theorem Stmt.mem_nodes (s : Stmt) : .stmt s ∈ s.nodes := by
  cases s with
  | branch condition body alternative span =>
      cases alternative <;> simp [Stmt.nodes]
  | _ => simp [Stmt.nodes]

theorem Argument.mem_nodesOf {arg : Argument} {args : List Argument}
    (h : arg ∈ args) : .argument arg ∈ Argument.nodesOf args := by
  induction args with
  | nil => contradiction
  | cons first rest ih =>
      obtain ⟨name, nameSpan, value⟩ := first
      rcases List.mem_cons.mp h with rfl | hrest
      · simp [Argument.nodesOf]
      · simp [Argument.nodesOf, ih hrest]

end Prose
