import Prose.Proofs.Eval.Contained
import Prose.Proofs.Eval.FreshFaults
import Prose.Proofs.Tree.ExitLines
import Prose.Proofs.Value.Held

/-!
Where every `Exit` is a line of a block, nothing asks the program to end. The
bodies that are run come from the tree itself and from the functions that the
machine holds, so this is an invariant of machines: every function in a list or
a variable was made by a tree in which every `Exit` is a line of a block.
-/

namespace Prose

/-- The value is no function, or one in whose body every `Exit` is a line of a
block. -/
def Value.exitsInLines : Value → Bool
  | .function f => f.body.exitsInLines
  | .integer _ | .real _ | .text _ | .truth _ | .list _ => true

/-- In every function that the machine holds, every `Exit` is a line of a
block. -/
structure Machine.ExitsInLines (m : Machine) : Prop where
  heap : m.heap.All (·.exitsInLines = true)
  scope : m.scope.All (·.exitsInLines = true)

theorem Machine.exitsInLines_start (input : Input) (limit : Option Nat) :
    (Machine.start input limit).ExitsInLines :=
  ⟨Heap.all_empty, Scope.all_root⟩

/-! ### What a step keeps -/

/-- An outcome without exit: the machine is as it should be, a value has a
property and a fault is no exit. -/
structure Kept {α : Type} (Q : α → Prop) (r : Except Fault α) (m : Machine) :
    Prop where
  machine : m.ExitsInLines
  value : ∀ a, r = .ok a → Q a
  fault : ∀ f, r = .error f → f.isExit = false

/-- What is done to a fault on its way out does not make it an exit. -/
theorem Kept.mapError {α : Type} {Q : α → Prop} {r : Except Fault α}
    {m m' : Machine} (h : Kept Q r m) (hm' : m'.ExitsInLines)
    {g : Fault → Fault} (hg : ∀ f, f.isExit = false → (g f).isExit = false) :
    Kept Q (r.mapError g) m' := by
  cases r with
  | ok a => exact ⟨hm', h.value, nofun⟩
  | error fault =>
      refine ⟨hm', nofun, ?_⟩
      rintro f ⟨⟩
      exact hg fault (h.fault fault rfl)

/-- On machines whose functions have their exits in lines, the step leaves such
a machine, gives values with a property and does not exit. -/
def Run.Keeps {α : Type} (x : Run α) (Q : α → Prop) : Prop :=
  ∀ m r m', m.ExitsInLines → x m = some (r, m') → Kept Q r m'

namespace Run.Keeps

variable {α β : Type} {x : Run α} {f : α → Run β} {R : α → Prop} {Q : β → Prop}

theorem ofExcept {r : Except Fault α} (hvalue : ∀ a, r = .ok a → R a)
    (hfault : ∀ f, r = .error f → f.isExit = false) :
    (Run.ofExcept r).Keeps R := by
  intro m r' m' hm h
  obtain ⟨rfl, rfl⟩ := Run.answer_inj h
  exact ⟨hm, hvalue, hfault⟩

theorem pure {a : α} (h : R a) : Keeps (Pure.pure a) R :=
  ofExcept (fun _ ha => Except.ok.inj ha ▸ h) nofun

theorem fail {cause : Fault.Cause} (h : cause ≠ .exit) :
    (Run.fail cause : Run α).Keeps R :=
  ofExcept nofun fun _ hf => Except.error.inj hf ▸ Fault.isExit_ofCause h

theorem update {g : Machine → Machine} {R : Unit → Prop}
    (hg : ∀ m, m.ExitsInLines → (g m).ExitsInLines) (hR : R ()) :
    (Run.update g).Keeps R := by
  rintro m r m' hm ⟨⟩
  exact ⟨hg m hm, fun _ _ => hR, nofun⟩

theorem bind (hx : x.Keeps R) (hf : ∀ a, R a → (f a).Keeps Q) :
    (x >>= f).Keeps Q := by
  intro m r m' hm h
  rcases Run.bind_eq_some h with ⟨fault, hfirst, rfl⟩ | ⟨a, m₁, hfirst, hrest⟩
  · have hkept := hx m _ m' hm hfirst
    exact ⟨hkept.machine, nofun, fun f hf => hkept.fault f (by cases hf; rfl)⟩
  · have hkept := hx m _ m₁ hm hfirst
    exact hf a (hkept.value a rfl) m₁ r m' hkept.machine hrest

theorem located (hx : x.Keeps R) (span : Span) :
    (Run.located span x).Keeps R := by
  intro m r m' hm h
  obtain ⟨r₁, hinner, rfl⟩ := Run.located_eq_some h
  have hkept := hx m r₁ m' hm hinner
  refine hkept.mapError hkept.machine fun f hf => ?_
  rwa [Fault.isExit_locate]

/-- Reading changes nothing but the input. -/
theorem fromInput {read : Input → Except Fault α × Input} (hR : ∀ a, R a)
    (hfault : ∀ input f, (read input).1 = .error f → f.isExit = false) :
    (Run.fromInput read).Keeps R := by
  intro m r m' hm h
  obtain ⟨rfl, rfl⟩ := Run.answer_inj h
  exact ⟨⟨hm.heap, hm.scope⟩, fun a _ => hR a, hfault m.input⟩

end Run.Keeps

namespace Eval

variable {α β : Type} {m m' : Machine}

/-! ### Settings -/

/-- In every function bound in the frame of the setting, every `Exit` is a line
of a block. -/
def Setting.ExitsInLines : Setting → Prop
  | here => True
  | frame f | call _ f => f.All (·.exitsInLines = true)

theorem Setting.exitsInLines_empty : (Setting.frame .empty).ExitsInLines :=
  Frame.all_empty (Q := (·.exitsInLines = true))

theorem Setting.exitsInLines_enter {s : Setting} {inner : Machine}
    (hs : s.ExitsInLines) (hm : m.ExitsInLines) (h : s.enter m = .ok inner) :
    inner.ExitsInLines := by
  cases s with
  | here => cases h; exact hm
  | frame f => cases h; exact ⟨hm.heap, hm.scope.enter hs⟩
  | call c f =>
      obtain rfl := Setting.enter_call_eq_ok h
      exact ⟨hm.heap, hm.scope.enter hs⟩

theorem Setting.exitsInLines_leave {s : Setting} (hm : m.ExitsInLines) :
    (s.leave m).ExitsInLines := by
  cases s with
  | here => exact hm
  | frame f | call c f => exact ⟨hm.heap, hm.scope.leave⟩

/-- A call is refused for its depth. -/
theorem Setting.isExit_of_enter {s : Setting} {fault : Fault}
    (h : s.enter m = .error fault) : fault.isExit = false := by
  cases s with
  | here | frame f => cases h
  | call c f =>
      simp only [enter, CallStack.push] at h
      split at h
      · cases h
      · split at h
        · cases h
          rw [Fault.isExit_locate]
          rfl
        · cases h

theorem Setting.isExit_outside (s : Setting) {fault : Fault}
    (h : fault.isExit = false) : (s.outside fault).isExit = false := by
  cases s with
  | here | frame f => exact h
  | call c f =>
      rw [outside, Fault.leaveCall]
      split <;> exact h

theorem Setting.keeps_around {s : Setting} (hs : s.ExitsInLines) {x : Run α}
    {R : α → Prop} (hx : x.Keeps R) : (s.around x).Keeps R := by
  intro m r m' hm h
  rcases Setting.around_eq_some h with
    ⟨fault, henter, rfl, rfl⟩ | ⟨inner, r₁, m₁, henter, hinner, rfl, rfl⟩
  · refine ⟨hm, nofun, ?_⟩
    rintro f ⟨⟩
    exact s.isExit_of_enter henter
  · have hkept := hx inner r₁ m₁ (Setting.exitsInLines_enter hs hm henter) hinner
    exact hkept.mapError (Setting.exitsInLines_leave hkept.machine)
      fun f => s.isExit_outside

/-! ### Operators and arguments -/

/-- If the operation gives a value, it is no function or one with its exits in
lines. -/
def Result.ExitsInLines (r : Result) : Prop :=
  ∀ value, r = .ok value → value.exitsInLines = true

theorem exitsInLines_exact (operation : String) (n : Int) :
    Result.ExitsInLines (exact operation n) := by
  intro value h
  unfold exact at h
  split at h <;> cases h
  rfl

theorem exitsInLines_power (a b : Int64) :
    Result.ExitsInLines (power a b) := by
  intro value h
  unfold power at h
  split at h
  · cases h
    rfl
  · split at h <;> cases h
    rfl

theorem exitsInLines_reals (op : Operator) (left right : Value) (a b : Float) :
    Result.ExitsInLines (reals op left right a b) := by
  intro value h
  cases op <;> cases h <;> rfl

theorem exitsInLines_numbers (op : Operator) (left right : Value) :
    Result.ExitsInLines (numbers op left right) := by
  unfold numbers
  dsimp only
  split
  · next a b =>
      have hreals := exitsInLines_reals op (.integer a) (.integer b) a.toFloat
        b.toFloat
      cases op with
      | add | subtract | multiply => exact exitsInLines_exact _ _
      | power => exact exitsInLines_power a b
      | _ => exact hreals
  · split
    · exact exitsInLines_reals op _ _ _ _
    · exact nofun

theorem exitsInLines_applyByKind {heap : Heap}
    (hheap : heap.All (·.exitsInLines = true)) (op : Operator)
    (left right : Value) :
    Result.ExitsInLines (applyByKind heap op left right) := by
  unfold applyByKind
  split
  · split
    · exact exitsInLines_numbers op _ right
    · exact nofun
  · split
    · exact exitsInLines_numbers op _ right
    · exact nofun
  · split
    · rintro value ⟨⟩
      rfl
    · exact nofun
    · exact nofun
  · next ref =>
      split
      · next index =>
          intro value h
          unfold element at h
          dsimp only at h
          split at h
          · next found hfound =>
              cases h
              exact (hheap.get ref).get? hfound
          · cases h
      · exact nofun
      · exact nofun
  · exact nofun
  · exact nofun

theorem exitsInLines_applyOperator {heap : Heap}
    (hheap : heap.All (·.exitsInLines = true)) (op : Operator)
    (left right : Value) :
    Result.ExitsInLines (applyOperator heap op left right) := by
  unfold applyOperator
  split
  · rintro value ⟨⟩
    rfl
  · rintro value ⟨⟩
    rfl
  · exact exitsInLines_applyByKind hheap op left right

theorem exitsInLines_bindEach {params : List Name} {args : List Passed}
    {frame frame' : Frame} (hframe : frame.All (·.exitsInLines = true))
    (hargs : ∀ arg ∈ args, arg.value.exitsInLines = true)
    (h : bindEach params frame args = .ok frame') :
    frame'.All (·.exitsInLines = true) := by
  induction args generalizing frame with
  | nil => cases h; exact hframe
  | cons arg rest ih =>
      rw [List.forall_mem_cons] at hargs
      unfold bindEach at h
      split at h
      · cases h
      · split at h
        · cases h
        · exact ih (hframe.declare arg.name hargs.1) hargs.2 h

theorem exitsInLines_bindArguments {params : List Name} {span : Span}
    {args : List Passed} {frame : Frame}
    (hargs : ∀ arg ∈ args, arg.value.exitsInLines = true)
    (h : bindArguments params span args = .ok frame) :
    frame.All (·.exitsInLines = true) := by
  unfold bindArguments at h
  split at h
  · cases h
  · exact exitsInLines_bindEach Frame.all_empty hargs h

/-! ### Actions -/

/-- The values and bodies that the action is given have their exits in lines,
and the action does not ask for an exit. -/
def Action.ExitsInLines : Action α → Prop
  | fail cause => cause ≠ .exit
  | function _ value | assign _ value | add _ value | set _ _ value =>
      value.exitsInLines = true
  | newList values => ∀ value ∈ values, value.exitsInLines = true
  | newFunction _ body => body.exitsInLines = true
  | bind _ _ args => ∀ arg ∈ args, arg.value.exitsInLines = true
  | _ => True

/-- What the action gives has its exits in lines. -/
def Action.Gives : Action α → α → Prop
  | lookup _ | newList _ | newFunction _ _ | operate _ _ _ | remove _ _
  | read _ => fun value => value.exitsInLines = true
  | function _ _ => fun f => f.body.exitsInLines = true
  | bind _ _ _ => fun frame => frame.All (·.exitsInLines = true)
  | next _ _ => fun found =>
      ∀ value, found.1 = some value → value.exitsInLines = true
  | _ => fun _ => True

theorem keeps_lookup (name : Name) :
    (Run.lookup name).Keeps (·.exitsInLines = true) := by
  intro m r m' hm h
  obtain ⟨rfl, rfl⟩ := Run.answer_inj h
  refine ⟨hm, fun value hvalue => ?_, fun f hf => ?_⟩
  · unfold Scope.lookup at hvalue
    split at hvalue
    · next found hfound =>
        cases hvalue
        exact hm.scope.get? hfound
    · cases hvalue
  · have hraised : f.Raised [] := m.scope.raises_lookup name f hf
    exact hraised.isExit

theorem keeps_assign (name : Name) {value : Value}
    (hvalue : value.exitsInLines = true) :
    (Run.assign name value).Keeps fun _ => True :=
  .update (fun _ hm => ⟨hm.heap, hm.scope.assign name hvalue⟩) trivial

theorem keeps_stepVariable (name : Name) (delta : Int) (operation : String) :
    (stepVariable name delta operation).Keeps fun _ => True := by
  refine .bind (keeps_lookup name) fun value _ => ?_
  cases value with
  | integer n =>
      refine .bind (.ofExcept (exitsInLines_exact operation _) fun f hf => ?_)
        fun value hvalue => keeps_assign name hvalue
      have hraised : f.Raised [] := raises_exact operation _ f hf
      exact hraised.isExit
  | real _ | text _ | truth _ | list _ | function _ => exact .fail nofun

theorem exitsInLines_readWord? {kind : ReadKind} {word : List Char}
    {value : Value} (h : readWord? kind word = some value) :
    value.exitsInLines = true := by
  cases kind with
  | line => cases h
  | integer | real | truth =>
      obtain ⟨_, _, rfl⟩ := Option.map_eq_some_iff.1 h
      rfl

theorem keeps_readValue (type : Option ReadType) :
    (readValue type).Keeps (·.exitsInLines = true) := by
  refine .bind (R := fun _ => True) (.ofExcept (fun _ _ => trivial) ?_) ?_
  · intro f hf
    have hspans : ∀ t ∈ type, t.span ∈ type.toList.map (·.span) := by
      rintro t ⟨⟩
      simp
    exact (raises_readKind hspans f hf).isExit
  · intro kind _
    cases kind with
    | line =>
        refine .bind (R := fun _ => True) (.fromInput (fun _ => trivial) ?_) ?_
        · intro input f hf
          have hraised : f.Raised [] := input.raises_line f hf
          exact hraised.isExit
        · exact fun _ _ => .pure rfl
    | integer | real | truth =>
        refine .bind (R := fun _ => True) (.fromInput (fun _ => trivial) ?_) ?_
        · intro input f hf
          have hraised : f.Raised [] := input.raises_word f hf
          exact hraised.isExit
        · intro word _
          dsimp only
          split
          · next value hvalue => exact .pure (exitsInLines_readWord? hvalue)
          · exact .fail nofun

theorem Action.keeps {a : Action α} (ha : a.ExitsInLines) :
    a.run.Keeps a.Gives := by
  intro m r m' hm h
  -- A fault was just raised, so it is an exit only if it was asked for.
  have hfault : ∀ f, r = .error f → f.isExit = false := by
    rintro f rfl
    rcases a.raised h with hraised | ⟨cause, rfl, rfl⟩
    · exact hraised.isExit
    · exact Fault.isExit_ofCause ha
  cases a with
  | fail cause =>
      cases h
      exact ⟨hm, nofun, hfault⟩
  | truth e value | list e value | integer e value =>
      cases value <;> cases h <;> exact ⟨hm, fun _ _ => trivial, hfault⟩
  | function e value =>
      cases value with
      | function f =>
          cases h
          refine ⟨hm, ?_, hfault⟩
          rintro _ ⟨⟩
          exact ha
      | _ =>
          cases h
          exact ⟨hm, nofun, hfault⟩
  | lookup name => exact keeps_lookup name m r m' hm h
  | assign name value => exact keeps_assign name ha m r m' hm h
  | newList values =>
      cases h
      refine ⟨⟨hm.heap.alloc (Chain.all_ofList ha), hm.scope⟩, ?_, hfault⟩
      rintro _ ⟨⟩
      rfl
  | newFunction params body =>
      cases h
      refine ⟨⟨hm.heap, hm.scope⟩, ?_, hfault⟩
      rintro _ ⟨⟩
      exact ha
  | operate op left right =>
      cases h
      exact ⟨hm, exitsInLines_applyOperator hm.heap op left right, hfault⟩
  | add ref value =>
      cases h
      exact ⟨⟨hm.heap.modify_push ref ha, hm.scope⟩, fun _ _ => trivial, hfault⟩
  | set ref index value =>
      change setElement ref index value m = _ at h
      unfold setElement at h
      dsimp only at h
      split at h
      · next c hset =>
          cases h
          have hc : c.All _ := (hm.heap.get ref).set? ha hset
          exact ⟨⟨hm.heap.put ref hc, hm.scope⟩, fun _ _ => trivial, hfault⟩
      · cases h
        exact ⟨hm, nofun, hfault⟩
  | remove ref index =>
      change removeElement ref index m = _ at h
      unfold removeElement at h
      dsimp only at h
      split at h
      · next value c hremove =>
          cases h
          obtain ⟨hvalue, hc⟩ := (hm.heap.get ref).remove? hremove
          refine ⟨⟨hm.heap.put ref hc, hm.scope⟩, ?_, hfault⟩
          rintro _ ⟨⟩
          exact hvalue
      · cases h
        exact ⟨hm, nofun, hfault⟩
  | count name delta operation =>
      exact keeps_stepVariable name delta operation m r m' hm h
  | read type => exact keeps_readValue type m r m' hm h
  | print text =>
      cases h
      exact ⟨⟨hm.heap, hm.scope⟩, fun _ _ => trivial, hfault⟩
  | bind call params args =>
      cases h
      exact ⟨hm, fun _ => exitsInLines_bindArguments ha, hfault⟩
  | isOutside =>
      cases h
      exact ⟨hm, fun _ _ => trivial, hfault⟩
  | next ref walk =>
      cases h
      refine ⟨hm, ?_, hfault⟩
      rintro ⟨found, walk'⟩ hnext value rfl
      exact (hm.heap.get ref).next (Except.ok.inj hnext)

/-! ### Tasks -/

/-- The value that a function is left with, if it is, has its exits in lines. -/
def Flow.ExitsInLines (flow : Flow) : Prop :=
  ∀ value ∈ flow.value?, value.exitsInLines = true

theorem Flow.exitsInLines_of_value? {flow : Flow} (h : flow.value? = none) :
    flow.ExitsInLines := by
  intro value hvalue
  rw [h] at hvalue
  cases hvalue

/-- Every `Exit` in the trees of the task is a line of a block. -/
def Task.ExitsInLines : Task α → Prop
  | expr e => e.exitsInLines = true
  | exprs es => Expr.exitsInLinesOf es = true
  | arguments args => Argument.exitsInLinesOf args = true
  | call c => c.exitsInLines = true
  | stmt s => s.exitsInLines = true
  | stmts ss => Stmt.exitsInLinesOf ss = true
  | body b => b.exitsInLines = true
  | loop condition b => condition.exitsInLines = true ∧ b.exitsInLines = true
  | forEach _ _ _ b => b.exitsInLines = true

/-- What the task gives has its exits in lines. -/
def Task.Gives : Task α → α → Prop
  | expr _ => fun value => value.exitsInLines = true
  | exprs _ => fun values => ∀ value ∈ values, value.exitsInLines = true
  | arguments _ => fun args => ∀ arg ∈ args, arg.value.exitsInLines = true
  | call _ => fun given => ∀ value ∈ given, value.exitsInLines = true
  | stmt _ | stmts _ | body _ | loop _ _ | forEach _ _ _ _ =>
      Flow.ExitsInLines

/-- Following the script keeps machines and exits as they should be. -/
def Script.Keeps (n : Nat) (x : Script α) (Q : α → Prop) : Prop :=
  (x.run n).Keeps Q

namespace Script.Keeps

variable {n : Nat} {R : α → Prop} {Q : β → Prop}

theorem pure {a : α} (h : R a) : Keeps n (Pure.pure a) R := Run.Keeps.pure h

theorem bind {x : Script α} {f : α → Script β} (hx : Keeps n x R)
    (hf : ∀ a, R a → Keeps n (f a) Q) : Keeps n (x >>= f) Q :=
  Run.Keeps.bind hx hf

theorem fail {cause : Fault.Cause} (h : cause ≠ .exit) :
    Keeps n (.act (.fail cause)) R :=
  Run.Keeps.fail h

theorem located {x : Script α} (hx : Keeps n x R) (span : Span) :
    Keeps n (.located span x) R :=
  Run.Keeps.located hx span

theorem act {a : Action α} (ha : a.ExitsInLines) : Keeps n (.act a) a.Gives :=
  Action.keeps ha

end Script.Keeps

/-- What a loop does after its body. -/
theorem afterTurn_keeps {n : Nat} {again : Script Flow} {Q : Flow → Prop}
    (hagain : again.Keeps n Q) (hnormal : Q .normal) {flow : Flow}
    (hflow : Q flow) : (afterTurn again flow).Keeps n Q := by
  cases flow with
  | normal => exact hagain
  | leave => exact .pure hnormal
  | result value => exact .pure hflow

section Tasks

variable {n : Nat} (ih : ∀ {α : Type} (t : Task α), t.ExitsInLines →
  (t.run n).Keeps t.Gives)
include ih

theorem Script.Keeps.perform {s : Setting} {t : Task α} (hs : s.ExitsInLines)
    (ht : t.ExitsInLines) : Script.Keeps n (.perform s t) t.Gives :=
  Setting.keeps_around hs (ih t ht)

theorem exprScript_keeps {e : Expr} (he : e.exitsInLines = true) :
    (exprScript e).Keeps n (·.exitsInLines = true) := by
  have eval {e : Expr} (he : e.exitsInLines = true) :=
    Script.Keeps.perform ih (s := .here) (t := .expr e) trivial he
  cases e with
  | integer _ _ | real _ _ | text _ _ | truth _ _ => exact .pure rfl
  | name name span => exact .act (a := .lookup name) trivial
  | list items span =>
      refine .bind (.perform ih trivial he) fun values hvalues => ?_
      exact .act (a := .newList values) hvalues
  | function params body span =>
      exact .act (a := .newFunction params body) he
  | group inner span => exact eval he
  | result call span =>
      refine .bind (.perform ih trivial he) fun given hgiven => ?_
      cases given with
      | some value => exact .pure (hgiven value rfl)
      | none => exact .fail nofun
  | binary op left right span =>
      obtain ⟨hleft, hright⟩ := Bool.and_eq_true_iff.1 he
      refine .bind (eval hleft) fun left _ => ?_
      refine .bind (eval hright) fun right _ => ?_
      exact .act (a := .operate op left right) trivial

theorem callScript_keeps {c : Call} (hc : c.exitsInLines = true) :
    (callScript c).Keeps n fun given =>
      ∀ value ∈ given, value.exitsInLines = true := by
  obtain ⟨callee, args, span⟩ := c
  obtain ⟨hcallee, hargs⟩ := Bool.and_eq_true_iff.1 hc
  refine .bind (.perform ih (t := .expr callee) trivial hcallee) ?_
  intro value hvalue
  refine .bind (.act (a := .function callee value) hvalue) fun f hf => ?_
  refine .bind (.perform ih (t := .arguments args) trivial hargs) ?_
  intro passed hpassed
  refine .bind (.act (a := .bind _ f.params passed) hpassed) fun frame hframe => ?_
  have hbody : (Task.stmts f.body.stmts).ExitsInLines := by
    obtain ⟨number, params, ⟨stmts, span⟩⟩ := f
    exact hf
  refine .bind (.perform ih (s := .call _ frame) hframe hbody) fun flow hflow => ?_
  cases flow with
  | result value => exact .pure hflow
  | normal | leave => exact .pure nofun

theorem stmtScript_keeps {s : Stmt} (hs : s.exitsInLines = true) :
    (stmtScript s).Keeps n Flow.ExitsInLines := by
  have eval {e : Expr} (he : e.exitsInLines = true) :=
    Script.Keeps.perform ih (s := .here) (t := .expr e) trivial he
  have normal : (Pure.pure .normal : Script Flow).Keeps n Flow.ExitsInLines :=
    .pure (Flow.exitsInLines_of_value? rfl)
  cases s with
  | assign target value span =>
      obtain ⟨htarget, hvalue⟩ := Bool.and_eq_true_iff.1 hs
      cases target with
      | name name =>
          refine .bind (eval hvalue) fun value hvalue => ?_
          exact .bind (.act (a := .assign name value) hvalue) fun _ _ => normal
      | position list index =>
          obtain ⟨hlist, hindex⟩ := Bool.and_eq_true_iff.1 htarget
          refine .bind (eval hvalue) fun value hvalue => ?_
          refine .bind (eval hlist) fun found _ => ?_
          refine .bind (.act (a := .list list found) trivial) fun ref _ => ?_
          refine .bind (eval hindex) fun found _ => ?_
          refine .bind (.act (a := .integer index found) trivial) fun i _ => ?_
          refine .bind (.located (.act (a := .set ref i value) hvalue) _) ?_
          exact fun _ _ => normal
  | print value span =>
      refine .bind (eval hs) fun value _ => ?_
      exact .bind (.act (a := .print value.toText) trivial) fun _ _ => normal
  | inspect value span =>
      refine .bind (eval hs) fun value _ => ?_
      exact .bind (.act (a := .print value.toAnswer) trivial) fun _ _ => normal
  | read type target span =>
      refine .bind (.act (a := .read type) trivial) fun value hvalue => ?_
      exact .bind (.act (a := .assign target value) hvalue) fun _ _ => normal
  | add value list span =>
      obtain ⟨hvalue, hlist⟩ := Bool.and_eq_true_iff.1 hs
      refine .bind (eval hlist) fun found _ => ?_
      refine .bind (.act (a := .list list found) trivial) fun ref _ => ?_
      refine .bind (eval hvalue) fun value hvalue => ?_
      exact .bind (.act (a := .add ref value) hvalue) fun _ _ => normal
  | remove list index span =>
      obtain ⟨hlist, hindex⟩ := Bool.and_eq_true_iff.1 hs
      refine .bind (eval hlist) fun found _ => ?_
      refine .bind (.act (a := .list list found) trivial) fun ref _ => ?_
      refine .bind (eval hindex) fun found _ => ?_
      refine .bind (.act (a := .integer index found) trivial) fun i _ => ?_
      exact .bind (.act (a := .remove ref i) trivial) fun _ _ => normal
  | loop condition body span =>
      exact .perform ih (t := .loop condition body) trivial
        (Bool.and_eq_true_iff.1 hs)
  | branch condition body alternative span =>
      have hparts : condition.exitsInLines = true ∧ body.exitsInLines = true ∧
          ∀ other ∈ alternative, other.exitsInLines = true := by
        cases alternative <;> simpa [Stmt.exitsInLines, and_assoc] using hs
      obtain ⟨hcondition, hbody, halternative⟩ := hparts
      refine .bind (eval hcondition) fun found _ => ?_
      refine .bind (.act (a := .truth condition found) trivial) fun truth _ => ?_
      cases truth with
      | true =>
          exact .perform ih (t := .body body) Setting.exitsInLines_empty hbody
      | false =>
          cases alternative with
          | none => exact normal
          | some other =>
              exact .perform ih (t := .body other) Setting.exitsInLines_empty
                (halternative other rfl)
  | forEach item list body span =>
      obtain ⟨hlist, hbody⟩ := Bool.and_eq_true_iff.1 hs
      refine .bind (eval hlist) fun found _ => ?_
      refine .bind (.act (a := .list list found) trivial) fun ref _ => ?_
      exact .perform ih (t := .forEach item ref .start body) trivial hbody
  | increment name span | decrement name span =>
      exact .bind (.act (a := .count name _ _) trivial) fun _ _ => normal
  | exit span => cases hs
  | run call span =>
      exact .bind (.perform ih (t := .call call) trivial hs) fun _ _ => normal
  | result value span =>
      refine .bind (.act (a := .isOutside) trivial) fun outside _ => ?_
      cases outside with
      | true => exact .fail nofun
      | false =>
          refine .bind (eval hs) fun value hvalue => .pure ?_
          rintro _ ⟨⟩
          exact hvalue

theorem script_keeps {t : Task α} (ht : t.ExitsInLines) :
    t.script.Keeps n t.Gives := by
  cases t with
  | expr e => exact (exprScript_keeps ih ht).located _
  | exprs es =>
      cases es with
      | nil => exact .pure (List.forall_mem_nil _)
      | cons e es =>
          obtain ⟨he, hes⟩ := Bool.and_eq_true_iff.1 ht
          refine .bind (.perform ih (t := .expr e) trivial he) ?_
          intro value hvalue
          refine .bind (.perform ih (t := .exprs es) trivial hes) ?_
          intro values hvalues
          exact .pure (List.forall_mem_cons.2 ⟨hvalue, hvalues⟩)
  | arguments args =>
      cases args with
      | nil => exact .pure (List.forall_mem_nil _)
      | cons arg args =>
          obtain ⟨name, nameSpan, value⟩ := arg
          obtain ⟨hvalue, hargs⟩ := Bool.and_eq_true_iff.1 ht
          refine .bind (.perform ih (t := .expr value) trivial hvalue) ?_
          intro value hvalue
          refine .bind (.perform ih (t := .arguments args) trivial hargs) ?_
          intro rest hrest
          exact .pure (List.forall_mem_cons.2 ⟨hvalue, hrest⟩)
  | call c => exact callScript_keeps ih ht
  | stmt s => exact (stmtScript_keeps ih ht).located _
  | stmts ss =>
      cases ss with
      | nil => exact .pure (Flow.exitsInLines_of_value? rfl)
      | cons s rest =>
          obtain ⟨hs, hrest⟩ := Bool.and_eq_true_iff.1 ht
          rw [Task.script]
          split
          · exact .pure (Flow.exitsInLines_of_value? rfl)
          · next hexit =>
              -- The line is no `Exit`, so its own exits are in lines.
              have hs : s.exitsInLines = true := by simpa [hexit] using hs
              refine .bind (.perform ih (t := .stmt s) trivial hs) ?_
              intro flow hflow
              cases flow with
              | normal => exact .perform ih (t := .stmts rest) trivial hrest
              | leave | result value => exact .pure hflow
  | body b =>
      cases b with
      | block block =>
          obtain ⟨stmts, span⟩ := block
          exact .perform ih (t := .stmts stmts) trivial ht
      | sentence s => exact .perform ih (t := .stmt s) trivial ht
  | loop condition b =>
      refine .bind (.perform ih (t := .expr condition) trivial ht.1) ?_
      intro found _
      refine .bind (.act (a := .truth condition found) trivial) fun truth _ => ?_
      cases truth with
      | false => exact .pure (Flow.exitsInLines_of_value? rfl)
      | true =>
          refine .bind (.perform ih (t := .body b)
            Setting.exitsInLines_empty ht.2) ?_
          intro flow hflow
          refine afterTurn_keeps ?_ ?_ hflow
          · exact .perform ih (t := .loop condition b) trivial ht
          · exact Flow.exitsInLines_of_value? rfl
  | forEach item ref walk b =>
      refine .bind (.act (a := .next ref walk) trivial) ?_
      rintro ⟨_ | value, walk⟩ hfound
      · exact .pure (Flow.exitsInLines_of_value? rfl)
      · have hframe : (Frame.empty.declare item value).All
            (·.exitsInLines = true) :=
          Frame.all_empty.declare item (hfound value rfl)
        refine .bind (.perform ih (t := .body b) hframe ht) ?_
        intro flow hflow
        refine afterTurn_keeps ?_ ?_ hflow
        · exact .perform ih (t := .forEach item ref walk b) trivial ht
        · exact Flow.exitsInLines_of_value? rfl

end Tasks

/-- Where every `Exit` is a line of a block, no run asks the program to end, and
what it leaves and gives is such that no later run does. -/
theorem Task.keeps (n : Nat) {t : Task α} (ht : t.ExitsInLines) :
    (t.run n).Keeps t.Gives := by
  induction n generalizing α with
  | zero =>
      intro m r m' _ h
      rw [t.run_zero] at h
      cases h
  | succ n ih =>
      rw [t.run_succ]
      exact script_keeps (fun t => ih) ht

end Eval

end Prose
