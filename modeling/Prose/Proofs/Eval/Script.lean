import Prose.Eval.Interpreter

/-!
Programs as data. Running a task, which is a part of a tree or a loop that has
got somewhere, is following a script: actions on the machine, each done at once,
and further tasks, each done in place or in a frame entered for it. A script is
finite and shows what the task does next for every value it may meet. What
every action respects is then respected by every script, by induction on the
script, and by every task, by induction on the steps it may take.
-/

namespace Prose

def Call.frame (c : Call) : CallFrame := ⟨Eval.calleeName c.callee, c.span⟩

namespace Eval

/-! ### Tasks -/

/-- What can be run, by the type of what it gives. -/
inductive Task : Type → Type where
  | expr (e : Expr) : Task Value
  | exprs (es : List Expr) : Task (List Value)
  | arguments (args : List Argument) : Task (List Passed)
  | call (c : Call) : Task (Option Value)
  | stmt (s : Stmt) : Task Flow
  | stmts (ss : List Stmt) : Task Flow
  | body (body : Body) : Task Flow
  | loop (condition : Expr) (body : Body) : Task Flow
  | forEach (item : Name) (ref : ListRef) (walk : Walk) (body : Body) : Task Flow

def Task.run {α : Type} (n : Nat) : Task α → Run α
  | expr e => evalExpr n e
  | exprs es => evalExprs n es
  | arguments args => evalArguments n args
  | call c => runCall n c
  | stmt s => runStmt n s
  | stmts ss => runStmts n ss
  | body b => runBody n b
  | loop condition b => runLoop n condition b
  | forEach item ref walk b => runForEach n item ref walk b

theorem Task.run_zero {α : Type} (t : Task α) (m : Machine) :
    t.run 0 m = none := by
  cases t <;> rfl

/-! ### Actions -/

/-- What is done at once. -/
inductive Action : Type → Type 1 where
  | fail {α : Type} (cause : Fault.Cause) : Action α
  | truth (e : Expr) (value : Value) : Action Bool
  | list (e : Expr) (value : Value) : Action ListRef
  | integer (e : Expr) (value : Value) : Action Int64
  | function (e : Expr) (value : Value) : Action Function
  | lookup (name : Name) : Action Value
  | assign (name : Name) (value : Value) : Action Unit
  | newList (values : List Value) : Action Value
  | newFunction (params : List Name) (body : Block) : Action Value
  | operate (op : Operator) (left right : Value) : Action Value
  | add (ref : ListRef) (value : Value) : Action Unit
  | set (ref : ListRef) (index : Int64) (value : Value) : Action Unit
  | remove (ref : ListRef) (index : Int64) : Action Value
  | count (name : Name) (delta : Int) (operation : String) : Action Unit
  | read (type : Option ReadType) : Action Value
  | print (text : Heap → String) : Action Unit
  | bind (call : Call) (params : List Name) (args : List Passed) : Action Frame
  /-- Whether no call is running. -/
  | isOutside : Action Bool
  | next (ref : ListRef) (walk : Walk) : Action (Option Value × Walk)

def Action.run {α : Type} : Action α → Run α
  | fail cause => Run.fail cause
  | truth e value => asTruth e value
  | list e value => asList e value
  | integer e value => asInteger e value
  | function e value => asFunction e value
  | lookup name => Run.lookup name
  | assign name value => Run.assign name value
  | newList values => Run.newList values
  | newFunction params body => Run.newFunction params body
  | operate op left right => applyTo op left right
  | add ref value => addTo ref value
  | set ref index value => setElement ref index value
  | remove ref index => removeElement ref index
  | count name delta operation => stepVariable name delta operation
  | read type => readValue type
  | print text => do Run.printLine (text (← Run.machine).heap)
  | bind call params args => Run.ofExcept (bindArguments params call.span args)
  | isOutside => do return (← Run.machine).calls.isEmpty
  | next ref walk => do return walk.next ((← Run.machine).heap.get ref)

/-! ### Settings -/

/-- Where a task is done: in place, in a frame of its own, or in the frame of a
call. -/
inductive Setting where
  | here
  | frame (frame : Frame)
  | call (call : Call) (frame : Frame)

namespace Setting

def around {α : Type} : Setting → Run α → Run α
  | here, x => x
  | frame f, x => Run.inFrame f x
  | call c f, x => Run.inCall c.frame (Run.inFrame f x)

/-- The machine inside the setting, unless there are too many calls. -/
def enter : Setting → Machine → Except Fault Machine
  | here, m => .ok m
  | frame f, m => .ok { m with scope := m.scope.enter f }
  | call c f, m =>
      (m.calls.push c.frame).map fun calls =>
        { m with calls := calls, scope := m.scope.enter f }

/-- The machine when the setting is left. -/
def leave : Setting → Machine → Machine
  | here, m => m
  | frame _, m => { m with scope := m.scope.leave }
  | call _ _, m => { m with scope := m.scope.leave, calls := m.calls.pop.2 }

/-- A fault from inside the setting, as it is seen outside. -/
def outside : Setting → Fault → Fault
  | here, fault | frame _, fault => fault
  | call c _, fault => fault.leaveCall c.span (calleeName c.callee)

/-- A step in a setting is not begun, or it is done inside and then the setting
is left. -/
theorem around_eq {α : Type} (s : Setting) (x : Run α) (m : Machine) :
    s.around x m =
      match s.enter m with
      | .error fault => some (.error fault, m)
      | .ok inner =>
          (x inner).map fun p => (p.1.mapError s.outside, s.leave p.2) := by
  cases s with
  | here =>
      simp only [around, enter, leave]
      rcases x m with _ | ⟨_ | _, _⟩ <;> rfl
  | frame f =>
      simp only [around, enter, leave, Run.inFrame]
      rcases x { m with scope := m.scope.enter f } with _ | ⟨_ | _, _⟩ <;> rfl
  | call c f =>
      simp only [around, enter, leave, Run.inCall, Run.inFrame]
      cases m.calls.push c.frame with
      | error fault => rfl
      | ok calls =>
          simp only [Except.map]
          rcases x _ with _ | ⟨_ | _, _⟩ <;> rfl

end Setting

/-! ### Scripts -/

/-- What a task does, step by step. -/
inductive Script : Type → Type 1 where
  | give {α : Type} (a : α) : Script α
  | act {α : Type} (action : Action α) : Script α
  | perform {α : Type} (setting : Setting) (task : Task α) : Script α
  | andThen {α β : Type} (first : Script α) (rest : α → Script β) : Script β
  | located {α : Type} (span : Span) (inner : Script α) : Script α

namespace Script

instance : Monad Script where
  pure := give
  bind := andThen

/-- Follows a script, in which each task may take at most `n` steps. -/
def run (n : Nat) {α : Type} : Script α → Run α
  | give a => Pure.pure a
  | act action => action.run
  | perform setting task => setting.around (task.run n)
  | andThen first rest => first.run n >>= fun a => (rest a).run n
  | located span inner => Run.located span (inner.run n)

def eval (e : Expr) : Script Value := perform .here (.expr e)

end Script

open Script

def exprScript : Expr → Script Value
  | .integer value _ => return .integer value
  | .real value _ => return .real value
  | .name name _ => act (.lookup name)
  | .text value _ => return .text value
  | .truth value _ => return .truth value
  | .list items _ => do act (.newList (← perform .here (.exprs items)))
  | .function params body _ => act (.newFunction params body)
  | .group inner _ => eval inner
  | .result call _ => do
      match ← perform .here (.call call) with
      | some value => return value
      | none => act (.fail .noResult)
  | .binary op left right _ => do
      let left ← eval left
      let right ← eval right
      act (.operate op left right)

def callScript (c : Call) : Script (Option Value) := do
  let f ← act (.function c.callee (← eval c.callee))
  let args ← perform .here (.arguments c.args)
  let frame ← act (.bind c f.params args)
  match ← perform (.call c frame) (.stmts f.body.stmts) with
  | .result value => return some value
  | .normal | .leave => return none

def stmtScript : Stmt → Script Flow
  | .assign (.name name) value _ => do
      act (.assign name (← eval value))
      return .normal
  | .assign (.position list index) value _ => do
      let value ← eval value
      let ref ← act (.list list (← eval list))
      let i ← act (.integer index (← eval index))
      located index.span (act (.set ref i value))
      return .normal
  | .print value _ => do
      let value ← eval value
      act (.print value.toText)
      return .normal
  | .inspect value _ => do
      let value ← eval value
      act (.print value.toAnswer)
      return .normal
  | .read type target _ => do
      act (.assign target (← act (.read type)))
      return .normal
  | .add value list _ => do
      let ref ← act (.list list (← eval list))
      act (.add ref (← eval value))
      return .normal
  | .remove list index _ => do
      let ref ← act (.list list (← eval list))
      let i ← act (.integer index (← eval index))
      let _ ← act (.remove ref i)
      return .normal
  | .loop condition body _ => perform .here (.loop condition body)
  | .branch condition body alternative _ => do
      if ← act (.truth condition (← eval condition)) then
        perform (.frame .empty) (.body body)
      else match alternative with
        | some body => perform (.frame .empty) (.body body)
        | none => return .normal
  | .forEach item list body _ => do
      let ref ← act (.list list (← eval list))
      perform .here (.forEach item ref .start body)
  | .increment name _ => do
      act (.count name 1 "increment")
      return .normal
  | .decrement name _ => do
      act (.count name (-1) "decrement")
      return .normal
  | .exit _ => act (.fail .exit)
  | .run call _ => do
      let _ ← perform .here (.call call)
      return .normal
  | .result value _ => do
      if ← act .isOutside then
        act (.fail (.notUnderstood
          "`the result is` can only be used inside a function"))
      else return .result (← eval value)

/-- How a loop ends or goes on after its body. -/
def afterTurn (again : Script Flow) : Flow → Script Flow
  | .normal => again
  | .leave => return .normal
  | .result value => return .result value

namespace Task

def script {α : Type} : Task α → Script α
  | expr e => located e.span (exprScript e)
  | exprs [] => return []
  | exprs (e :: es) => do
      let value ← eval e
      let values ← perform .here (.exprs es)
      return value :: values
  | arguments [] => return []
  | arguments (arg :: args) => do
      let value ← eval arg.value
      let rest ← perform .here (.arguments args)
      return ⟨arg.name, arg.nameSpan, value⟩ :: rest
  | call c => callScript c
  | stmt s => located s.span (stmtScript s)
  | stmts [] => return .normal
  | stmts (s :: rest) =>
      if s.isExit then return .leave
      else do
        match ← perform .here (.stmt s) with
        | .normal => perform .here (.stmts rest)
        | flow => return flow
  | body (.block block) => perform .here (.stmts block.stmts)
  | body (.sentence s) => perform .here (.stmt s)
  | loop condition b => do
      if ← act (.truth condition (← eval condition)) then
        afterTurn (perform .here (.loop condition b))
          (← perform (.frame .empty) (.body b))
      else return .normal
  | forEach item ref walk b => do
      match ← act (.next ref walk) with
      | (none, _) => return .normal
      | (some value, walk) =>
          afterTurn (perform .here (.forEach item ref walk b))
            (← perform (.frame (Frame.empty.declare item value)) (.body b))

/-- Running a task is following its script. -/
theorem run_succ {α : Type} (t : Task α) (n : Nat) :
    t.run (n + 1) = t.script.run n := by
  -- The two are the same text, so only what a value selects has to be opened.
  cases t with
  | expr e =>
      cases e with
      | result call span =>
          apply congrArg (Run.located span)
          apply bind_congr
          intro value
          cases value <;> rfl
      | _ => rfl
  | exprs es => cases es <;> rfl
  | arguments args =>
      cases args with
      | nil => rfl
      | cons arg args =>
          obtain ⟨name, nameSpan, value⟩ := arg
          rfl
  | call c =>
      obtain ⟨callee, args, span⟩ := c
      iterate 4
        apply bind_congr
        intro _
      apply bind_congr
      intro flow
      cases flow <;> rfl
  | stmt s =>
      cases s with
      | assign target value _ => cases target <;> rfl
      | branch condition body alternative span =>
          apply congrArg (Run.located span)
          iterate 2
            apply bind_congr
            intro truth
          cases truth with
          | true => rfl
          | false => cases alternative <;> rfl
      | result value span =>
          apply congrArg (Run.located span)
          funext m
          change (if m.calls.isEmpty = true then _ else _ : Run Flow) m =
            (if m.calls.isEmpty = true then _ else _ : Script Flow).run n m
          split <;> rfl
      | _ => rfl
  | stmts ss =>
      cases ss with
      | nil => rfl
      | cons s rest =>
          simp only [run, runStmts, script]
          split
          · rfl
          · apply bind_congr
            intro flow
            cases flow <;> rfl
  | body b =>
      cases b with
      | block block =>
          obtain ⟨stmts, span⟩ := block
          rfl
      | sentence s => rfl
  | loop condition b =>
      iterate 2
        apply bind_congr
        intro truth
      cases truth with
      | false => rfl
      | true =>
          apply bind_congr
          intro flow
          cases flow <;> rfl
  | forEach item ref walk b =>
      funext m
      change (match walk.next (m.heap.get ref) with
          | (none, _) => _
          | (some _, _) => _ : Run Flow) m =
        (match walk.next (m.heap.get ref) with
          | (none, _) => _
          | (some _, _) => _ : Script Flow).run n m
      rcases walk.next (m.heap.get ref) with ⟨_ | value, walk⟩
      · rfl
      · apply congrFun
        apply bind_congr
        intro flow
        cases flow <;> rfl

end Task

end Eval

end Prose
