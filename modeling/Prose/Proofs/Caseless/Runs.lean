import Prose.Proofs.Caseless.Actions
import Prose.Proofs.Eval.Script

/-!
Running trees whatever the case of their names. A tree and the tree in lower
case follow scripts that are alike, action by action and task by task, so they
end alike. Both take the same number of steps, and the tree in lower case is the
same for all trees that differ only in case.
-/

namespace Prose.Eval

open Text

/-! ### Scripts -/

/-- Following the scripts ends alike on machines that are alike, with at most
`n` steps for each task. -/
def Script.Alike (n : Nat) {α : Type} (R : α → α → Prop) (s s' : Script α) :
    Prop :=
  Run.Alike R (s.run n) (s'.run n)

namespace Script.Alike

variable {n : Nat} {α β : Type} {R : α → α → Prop} {S : β → β → Prop}

theorem pure {a b : α} (h : R a b) :
    Alike n R (Pure.pure a : Script α) (Pure.pure b) :=
  Run.Alike.pure h

theorem act {a a' : Action α} (h : Run.Alike R a.run a'.run) :
    Alike n R (Script.act a) (Script.act a') := h

theorem fail (cause : Fault.Cause) :
    Alike n R (Script.act (.fail cause) : Script α)
      (Script.act (.fail cause)) :=
  Run.Alike.fault rfl

theorem bind {s s' : Script α} {f f' : α → Script β} (hs : Alike n R s s')
    (hf : ∀ a b, R a b → Alike n S (f a) (f' b)) :
    Alike n S (s >>= f) (s' >>= f') :=
  Run.Alike.bind hs hf

theorem located {s s' : Script α} (hs : Alike n R s s') (span : Span) :
    Alike n R (Script.located span s) (Script.located span s') :=
  Run.Alike.located hs span

end Script.Alike

/-! ### Tasks -/

/-- How statements that are alike end. -/
inductive Flow.Alike : Flow → Flow → Prop where
  | normal : Alike .normal .normal
  | leave : Alike .leave .leave
  | result {v w : Value} (h : v.Alike w) : Alike (.result v) (.result w)

namespace Task

/-- When the outcomes of a task are alike. -/
def Agrees {α : Type} : Task α → α → α → Prop
  | expr _ => Value.Alike
  | exprs _ => fun vs ws => vs.map Value.caseless = ws.map Value.caseless
  | arguments _ =>
      fun args args' => args.map Passed.caseless = args'.map Passed.caseless
  | call _ => fun v w => v.map Value.caseless = w.map Value.caseless
  | stmt _ | stmts _ | body _ | loop _ _ | forEach _ _ _ _ => Flow.Alike

def caseless {α : Type} : Task α → Task α
  | expr e => expr (e.relabel .caseless)
  | exprs es => exprs (relabelItems .caseless es)
  | arguments args => arguments (relabelArguments .caseless args)
  | call c => call (c.relabel .caseless)
  | stmt s => stmt (s.relabel .caseless)
  | stmts ss => stmts (relabelLines .caseless ss)
  | body b => body (b.relabel .caseless)
  | loop condition b => loop (condition.relabel .caseless) (b.relabel .caseless)
  | forEach item ref walk b =>
      forEach item.caseless ref walk (b.relabel .caseless)

/-- Every task ends as the task in lower case does, within `n` steps. -/
def Caseless (n : Nat) : Prop :=
  ∀ {α : Type} (t : Task α), Run.Alike t.Agrees (t.run n) (t.caseless.run n)

end Task

/-! ### Runs through the same image -/

theorem Flow.Alike.join {a b c : Flow} (hac : a.Alike c) (hbc : b.Alike c) :
    a.Alike b := by
  cases hac with
  | normal => cases hbc; exact .normal
  | leave => cases hbc; exact .leave
  | result hv =>
      cases hbc with
      | result hw => exact .result (hv.trans hw.symm)

/-- Two steps that end as a third one does end alike. -/
theorem flow_alike_join {x y z : Run Flow} (hxz : Run.Alike Flow.Alike x z)
    (hyz : Run.Alike Flow.Alike y z) : Run.Alike Flow.Alike x y := by
  intro m m' hm
  have hx := hxz m m' hm
  have hy := hyz m' m' (.refl m')
  generalize x m = endsX at hx
  generalize y m' = endsY at hy
  generalize z m' = endsZ at hx hy
  cases hx with
  | unfinished =>
      cases hy
      exact .unfinished
  | ended hr hm =>
      cases hy with
      | ended hr' hm' =>
          refine .ended ?_ ⟨hm.heap.trans hm'.heap.symm,
            hm.functions.trans hm'.functions.symm,
            hm.scope.trans hm'.scope.symm, hm.calls.trans hm'.calls.symm,
            hm.output.trans hm'.output.symm, hm.input.trans hm'.input.symm⟩
          cases hr with
          | ok h =>
              cases hr' with
              | ok h' => exact .ok (h.join h')
          | error h =>
              cases hr' with
              | error h' => exact .error (h.trans h'.symm)

/-! ### One step more -/

theorem span_caseless (e : Expr) : e.span = (e.relabel .caseless).span := by
  rw [Expr.span_relabel, Relabelling.caseless_span]

theorem name_caseless (name : Name) : name.caseless = name.caseless.caseless :=
  Name.caseless_eq_iff.2 name.key_caseless.symm

/-- A call is named in a backtrace as it is written. -/
theorem frame_caseless (c : Call) :
    c.frame.caseless = (c.relabel .caseless).frame.caseless := by
  obtain ⟨callee, args, span⟩ := c
  simp only [Call.frame, Call.callee, Call.span, Call.relabel,
    CallFrame.caseless, Relabelling.caseless_span, CallFrame.mk.injEq, and_true]
  cases callee with
  | name name span =>
      simp only [Expr.relabel, calleeName, Token.Kind.quoted,
        lowerString_append, Name.lowerString_text, Relabelling.caseless_name,
        Name.key_caseless]
  | _ => rfl

theorem afterTurn_alike {n : Nat} {again again' : Script Flow}
    (hagain : Script.Alike n Flow.Alike again again') {flow flow' : Flow}
    (hflow : flow.Alike flow') :
    Script.Alike n Flow.Alike (afterTurn again flow)
      (afterTurn again' flow') := by
  cases hflow with
  | normal => exact hagain
  | leave => exact .pure .normal
  | result h => exact .pure (.result h)

/-- What is done for its effect alone. -/
theorem Script.Alike.normal {n : Nat} {α : Type} {R : α → α → Prop}
    {s s' : Script α} (hs : Script.Alike n R s s') :
    Script.Alike n Flow.Alike (s >>= fun _ => Pure.pure .normal)
      (s' >>= fun _ => Pure.pure .normal) :=
  hs.bind fun _ _ _ => .pure .normal

section Scripts

open Script

variable {n : Nat} (ih : Task.Caseless n)
include ih

theorem perform_alike {α : Type} (t : Task α) :
    Script.Alike n t.Agrees (perform .here t) (perform .here t.caseless) :=
  ih t

theorem eval_alike (e : Expr) :
    Script.Alike n Value.Alike (eval e) (eval (e.relabel .caseless)) :=
  ih (.expr e)

/-- A body in a frame of its own. -/
theorem body_alike (b : Body) {frame frame' : Frame}
    (h : frame.caseless = frame'.caseless) :
    Script.Alike n Flow.Alike (perform (.frame frame) (.body b))
      (perform (.frame frame') (.body (b.relabel .caseless))) :=
  (ih (.body b)).inFrame h

/-- The lines of a function in the frame of a call. -/
theorem lines_alike {c c' : Call} (hcall : c.frame.caseless = c'.frame.caseless)
    {frame frame' : Frame} (hframe : frame.caseless = frame'.caseless)
    {ss ss' : List Stmt}
    (hss : relabelLines .caseless ss = relabelLines .caseless ss') :
    Script.Alike n Flow.Alike (perform (.call c frame) (.stmts ss))
      (perform (.call c' frame') (.stmts ss')) := by
  -- The functions called may come from different trees; their lines are
  -- compared through the lines in lower case, which they share.
  have hleft : Run.Alike Flow.Alike (runStmts n ss)
      (runStmts n (relabelLines .caseless ss)) := ih (.stmts ss)
  have hright : Run.Alike Flow.Alike (runStmts n ss')
      (runStmts n (relabelLines .caseless ss)) := hss ▸ ih (.stmts ss')
  exact ((flow_alike_join hleft hright).inFrame hframe).inCall hcall

theorem exprScript_alike (e : Expr) :
    Script.Alike n Value.Alike (exprScript e)
      (exprScript (e.relabel .caseless)) := by
  cases e with
  | integer value span => exact .pure rfl
  | real value span => exact .pure rfl
  | name name span => exact lookup_alike (name_caseless name)
  | text value span => exact .pure rfl
  | truth value span => exact .pure rfl
  | list items span =>
      simp only [Expr.relabel, exprScript]
      refine (perform_alike ih (.exprs items)).bind ?_
      intro vs ws hvs
      exact newList_alike hvs
  | function params body span =>
      apply newFunction_alike
      · simp only [List.map_map]
        exact List.map_congr_left fun name _ => name_caseless name
      · exact (Block.relabel_relabel Relabelling.caseless_idempotent body).symm
  | group inner span => exact eval_alike ih inner
  | result call span =>
      simp only [Expr.relabel, exprScript]
      refine (perform_alike ih (.call call)).bind ?_
      intro v w hvw
      cases v with
      | none =>
          obtain rfl : w = none := Option.map_eq_none_iff.1 hvw.symm
          exact .fail _
      | some v =>
          obtain ⟨w, rfl, hw⟩ := Option.map_eq_some_iff.1 hvw.symm
          exact .pure hw.symm
  | binary op left right span =>
      simp only [Expr.relabel, exprScript]
      refine (eval_alike ih left).bind ?_
      intro v v' hv
      refine (eval_alike ih right).bind ?_
      intro w w' hw
      exact applyTo_alike op hv hw

theorem callScript_alike (c : Call) :
    Script.Alike n (fun v w => v.map Value.caseless = w.map Value.caseless)
      (callScript c) (callScript (c.relabel .caseless)) := by
  have hframe := frame_caseless c
  obtain ⟨callee, args, span⟩ := c
  simp only [Call.relabel] at hframe ⊢
  simp only [callScript]
  refine (eval_alike ih callee).bind ?_
  intro v w hvw
  refine Script.Alike.bind (asFunction_alike (span_caseless callee) hvw) ?_
  intro f g hfg
  obtain ⟨_, hparams, hbody⟩ := Function.mk.inj hfg
  refine (perform_alike ih (.arguments args)).bind ?_
  intro passed passed' hpassed
  refine Script.Alike.bind
    (.ofExcept (bindArguments_alike hparams span hpassed)) ?_
  intro frame frame' hentered
  have hlines : relabelLines .caseless f.body.stmts =
      relabelLines .caseless g.body.stmts := by
    rw [← Block.stmts_relabel, hbody, Block.stmts_relabel]
  refine (lines_alike ih hframe hentered hlines).bind ?_
  intro flow flow' hflow
  cases hflow with
  | normal => exact .pure rfl
  | leave => exact .pure rfl
  | result h => exact .pure (congrArg some h)

/-- An expression whose value has to be of one kind. -/
theorem evalAs_alike {α β : Type} {R : α → α → Prop} (e : Expr)
    {kind : Expr → Value → Action β}
    (hkind : ∀ {e e' : Expr} {v w : Value}, e.span = e'.span → v.Alike w →
      Run.Alike Eq (kind e v).run (kind e' w).run)
    {f f' : β → Script α} (hf : ∀ b, Script.Alike n R (f b) (f' b)) :
    Script.Alike n R (eval e >>= fun v => act (kind e v) >>= f)
      (eval (e.relabel .caseless) >>= fun v =>
        act (kind (e.relabel .caseless) v) >>= f') := by
  refine (eval_alike ih e).bind fun v w hvw => ?_
  refine (Script.Alike.act (hkind (span_caseless e) hvw)).bind ?_
  rintro b _ rfl
  exact hf b

theorem assignScript_alike (target : Target) (value : Expr) (span : Span) :
    Script.Alike n Flow.Alike (stmtScript (.assign target value span))
      (stmtScript ((Stmt.assign target value span).relabel .caseless)) := by
  cases target with
  | name name =>
      simp only [Stmt.relabel, Target.relabel, stmtScript]
      refine (eval_alike ih value).bind fun v w hvw => ?_
      exact (Script.Alike.act (assign_alike (name_caseless name) hvw)).normal
  | position list index =>
      simp only [Stmt.relabel, Target.relabel, stmtScript]
      refine (eval_alike ih value).bind fun v w hvw => ?_
      refine evalAs_alike ih list asList_alike fun ref => ?_
      refine evalAs_alike ih index asInteger_alike fun i => ?_
      rw [← span_caseless]
      exact ((Script.Alike.act (setElement_alike ref i hvw)).located _).normal

theorem stmtScript_alike (s : Stmt) :
    Script.Alike n Flow.Alike (stmtScript s)
      (stmtScript (s.relabel .caseless)) := by
  cases s with
  | assign target value span => exact assignScript_alike ih target value span
  | print value span =>
      simp only [Stmt.relabel, stmtScript]
      refine (eval_alike ih value).bind fun v w hvw => ?_
      refine (Script.Alike.act (print_alike fun heap heap' hheap => ?_)).normal
      rw [← Value.toText_caseless, hheap, hvw, Value.toText_caseless]
  | inspect value span =>
      simp only [Stmt.relabel, stmtScript]
      refine (eval_alike ih value).bind fun v w hvw => ?_
      refine (Script.Alike.act (print_alike fun heap heap' hheap => ?_)).normal
      rw [← Value.toAnswer_caseless, hheap, hvw, Value.toAnswer_caseless]
  | read type target span =>
      simp only [Stmt.relabel, stmtScript]
      have htype : type.map (·.relabel .caseless) =
          (type.map (·.relabel .caseless)).map (·.relabel .caseless) := by
        cases type with
        | none => rfl
        | some type =>
            exact congrArg some (ReadType.relabel_relabel
              Relabelling.caseless_idempotent type).symm
      refine (Script.Alike.act (readValue_alike htype)).bind fun v w hvw => ?_
      exact (Script.Alike.act (assign_alike (name_caseless target) hvw)).normal
  | add value list span =>
      simp only [Stmt.relabel, stmtScript]
      refine evalAs_alike ih list asList_alike fun ref => ?_
      refine (eval_alike ih value).bind fun v w hvw => ?_
      exact (Script.Alike.act (addTo_alike ref hvw)).normal
  | remove list index span =>
      simp only [Stmt.relabel, stmtScript]
      refine evalAs_alike ih list asList_alike fun ref => ?_
      refine evalAs_alike ih index asInteger_alike fun i => ?_
      exact (Script.Alike.act (removeElement_alike ref i)).normal
  | loop condition body span => exact ih (.loop condition body)
  | branch condition body alternative span =>
      simp only [Stmt.relabel, stmtScript]
      refine evalAs_alike ih condition asTruth_alike fun truth => ?_
      cases truth with
      | true => exact body_alike ih body rfl
      | false =>
          cases alternative with
          | none => exact .pure .normal
          | some other => exact body_alike ih other rfl
  | forEach item list body span =>
      simp only [Stmt.relabel, stmtScript]
      refine evalAs_alike ih list asList_alike fun ref => ?_
      exact ih (.forEach item ref .start body)
  | increment name span =>
      exact (Script.Alike.act
        (stepVariable_alike (name_caseless name) 1 _)).normal
  | decrement name span =>
      exact (Script.Alike.act
        (stepVariable_alike (name_caseless name) (-1) _)).normal
  | exit span => exact .fail _
  | run call span =>
      simp only [Stmt.relabel, stmtScript]
      exact (perform_alike ih (.call call)).normal
  | result value span =>
      simp only [Stmt.relabel, stmtScript]
      refine (Script.Alike.act isOutside_alike).bind ?_
      rintro outside _ rfl
      cases outside with
      | true => exact .fail _
      | false =>
          refine (eval_alike ih value).bind fun v w hvw => ?_
          exact .pure (.result hvw)

theorem script_alike {α : Type} (t : Task α) :
    Script.Alike n t.Agrees t.script t.caseless.script := by
  cases t with
  | expr e =>
      simp only [Task.caseless, Task.script]
      rw [← span_caseless]
      exact (exprScript_alike ih e).located _
  | exprs es =>
      cases es with
      | nil => exact .pure rfl
      | cons e es =>
          simp only [Task.caseless, relabelItems, Task.script]
          refine (eval_alike ih e).bind fun v w hvw => ?_
          refine (perform_alike ih (.exprs es)).bind fun vs ws hvs => ?_
          exact .pure (congrArg₂ List.cons hvw hvs)
  | arguments args =>
      cases args with
      | nil => exact .pure rfl
      | cons arg args =>
          obtain ⟨name, nameSpan, value⟩ := arg
          simp only [Task.caseless, relabelArguments, Argument.relabel,
            Task.script]
          refine (eval_alike ih value).bind fun v w hvw => ?_
          refine (perform_alike ih (.arguments args)).bind fun vs ws hvs => ?_
          refine .pure (congrArg₂ List.cons ?_ hvs)
          exact congrArg₂ (fun name value => (⟨name, nameSpan, value⟩ : Passed))
            (name_caseless name) hvw
  | call c => exact callScript_alike ih c
  | stmt s =>
      simp only [Task.caseless, Task.script]
      rw [Stmt.span_relabel]
      exact (stmtScript_alike ih s).located _
  | stmts ss =>
      cases ss with
      | nil => exact .pure .normal
      | cons s ss =>
          simp only [Task.caseless, relabelLines, Task.script,
            Stmt.isExit_relabel]
          split
          · exact .pure .leave
          · refine (perform_alike ih (.stmt s)).bind fun flow flow' hflow => ?_
            cases hflow with
            | normal => exact ih (.stmts ss)
            | leave => exact .pure .leave
            | result h => exact .pure (.result h)
  | body b =>
      cases b with
      | block block =>
          obtain ⟨ss, span⟩ := block
          exact ih (.stmts ss)
      | sentence s => exact ih (.stmt s)
  | loop condition b =>
      simp only [Task.caseless, Task.script]
      refine evalAs_alike ih condition asTruth_alike fun truth => ?_
      cases truth with
      | false => exact .pure .normal
      | true =>
          refine (body_alike ih b rfl).bind fun flow flow' hflow => ?_
          exact afterTurn_alike (perform_alike ih (.loop condition b)) hflow
  | forEach item ref walk b =>
      simp only [Task.caseless, Task.script]
      refine (Script.Alike.act (next_alike ref walk)).bind ?_
      rintro ⟨v, walk⟩ ⟨w, _⟩ ⟨hvw, rfl⟩
      cases v with
      | none =>
          obtain rfl : w = none := Option.map_eq_none_iff.1 hvw.symm
          exact .pure .normal
      | some v =>
          obtain ⟨w, rfl, hw⟩ := Option.map_eq_some_iff.1 hvw.symm
          have hframe : (Frame.empty.declare item v).caseless =
              (Frame.empty.declare item.caseless w).caseless := by
            rw [← Frame.declare_caseless, ← Frame.declare_caseless, hw,
              ← name_caseless item]
          refine (body_alike ih b hframe).bind fun flow flow' hflow => ?_
          exact afterTurn_alike
            (perform_alike ih (.forEach item ref walk b)) hflow

end Scripts

/-- Every task ends as the task in lower case does. -/
theorem task_caseless (n : Nat) : Task.Caseless n := by
  induction n with
  | zero =>
      intro α t m m' _
      rw [Task.run_zero, Task.run_zero]
      exact .unfinished
  | succ n ih =>
      intro α t
      rw [Task.run_succ, Task.run_succ]
      exact script_alike ih t

end Prose.Eval
