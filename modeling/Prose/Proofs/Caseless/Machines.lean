import Prose.Eval.Arguments
import Prose.Eval.Interpreter
import Prose.Proofs.Caseless.Values

/-!
Machines whatever the case of names. Names are compared in lower case, so
finding and changing a binding does not depend on case. Faults keep the names
and words they are about; their texts, and the names in a backtrace, are
compared in lower case.
-/

namespace Prose

open Text

/-! ### Faults -/

/-- A cause with the names and words in it in lower case. -/
def Fault.Cause.caseless : Fault.Cause → Fault.Cause
  | noSuchVariable name => noSuchVariable (lowerString name)
  | unknownParameter name => unknownParameter (lowerString name)
  | duplicateParameter name => duplicateParameter (lowerString name)
  | notUnderstood message => notUnderstood (lowerString message)
  | cause => cause

def Fault.caseless (fault : Fault) : Fault :=
  ⟨fault.cause.caseless, fault.span?, fault.backtrace.map lowerString⟩

namespace Fault

theorem caseless_ofCause (cause : Cause) :
    (ofCause cause).caseless = ofCause cause.caseless := rfl

variable (fault : Fault)

@[simp] theorem isExit_caseless : fault.caseless.isExit = fault.isExit := by
  obtain ⟨cause, span?, backtrace⟩ := fault
  cases cause <;> rfl

theorem caseless_locate (span : Span) :
    (fault.locate span).caseless = fault.caseless.locate span := by
  rw [locate, locate, isExit_caseless]
  split
  · rfl
  · obtain ⟨cause, span?, backtrace⟩ := fault
    cases span? <;> rfl

theorem caseless_leaveCall (span : Span) (name : String) :
    (fault.leaveCall span name).caseless =
      fault.caseless.leaveCall span (lowerString name) := by
  rw [leaveCall, leaveCall, isExit_caseless]
  split
  · rfl
  · simp only [caseless, List.map_append, List.map_cons, List.map_nil]

@[simp] theorem code_caseless : fault.caseless.code = fault.code := by
  obtain ⟨cause, span?, backtrace⟩ := fault
  cases cause <;> rfl

end Fault

/-! ### Calls -/

def CallFrame.caseless (frame : CallFrame) : CallFrame :=
  ⟨lowerString frame.name, frame.span⟩

def CallStack.caseless (calls : CallStack) : CallStack :=
  ⟨calls.frames.map CallFrame.caseless, calls.limit⟩

namespace CallStack

variable (calls : CallStack)

theorem push_caseless (frame : CallFrame) :
    calls.caseless.push frame.caseless =
      (calls.push frame).map CallStack.caseless := by
  obtain ⟨frames, limit⟩ := calls
  cases limit with
  | none => rfl
  | some limit =>
      have hdepth : (caseless ⟨frames, some limit⟩).depth =
          depth ⟨frames, some limit⟩ := List.length_map ..
      rw [push, push, hdepth]
      dsimp only [caseless]
      split <;> rfl

theorem pop_caseless : calls.caseless.pop.2 = calls.pop.2.caseless := by
  obtain ⟨frames, limit⟩ := calls
  cases frames <;> rfl

theorem isEmpty_caseless : calls.caseless.isEmpty = calls.isEmpty := by
  obtain ⟨frames, limit⟩ := calls
  cases frames <;> rfl

end CallStack

/-! ### Scopes -/

@[simp] theorem Name.beq_caseless (m n : Name) :
    (m.caseless == n.caseless) = (m == n) := by
  change (m.caseless.key == n.caseless.key) = (m.key == n.key)
  rw [key_caseless, key_caseless]

def caselessBinding (binding : Name × Value) : Name × Value :=
  (binding.1.caseless, binding.2.caseless)

def Frame.caseless (frame : Frame) : Frame :=
  ⟨frame.bindings.map caselessBinding⟩

def Scope.caseless (scope : Scope) : Scope :=
  ⟨scope.inner.caseless, scope.outer.map Frame.caseless⟩

namespace Frame

variable (frame : Frame) (name : Name)

theorem get?_caseless :
    frame.caseless.get? name.caseless =
      (frame.get? name).map Value.caseless := by
  obtain ⟨bindings⟩ := frame
  simp only [get?, caseless]
  induction bindings with
  | nil => rfl
  | cons b bindings ih =>
      simp only [List.map_cons, List.find?_cons, caselessBinding,
        Name.beq_caseless]
      cases b.1 == name with
      | true => rfl
      | false => exact ih

@[simp] theorem binds_caseless :
    frame.caseless.binds name.caseless = frame.binds name := by
  simp only [binds, caseless, List.any_map, Function.comp_def, caselessBinding,
    Name.beq_caseless]

theorem update_caseless (value : Value) :
    frame.caseless.update name.caseless value.caseless =
      (frame.update name value).caseless := by
  simp only [update, caseless, List.map_map]
  congr 1
  apply List.map_congr_left
  intro b _
  simp only [Function.comp_apply, caselessBinding, Name.beq_caseless]
  split <;> rfl

theorem declare_caseless (value : Value) :
    frame.caseless.declare name.caseless value.caseless =
      (frame.declare name value).caseless := by
  simp only [declare, binds_caseless, update_caseless]
  split
  · rfl
  · simp only [caseless, List.map_append, List.map_cons, List.map_nil]
    rfl

end Frame

namespace Scope

variable (scope : Scope) (name : Name)

theorem enter_caseless (frame : Frame) :
    scope.caseless.enter frame.caseless = (scope.enter frame).caseless := rfl

theorem leave_caseless : scope.caseless.leave = scope.leave.caseless := by
  obtain ⟨inner, outer⟩ := scope
  cases outer <;> rfl

theorem frames_caseless :
    scope.caseless.frames = scope.frames.map Frame.caseless := rfl

theorem get?_caseless :
    scope.caseless.get? name.caseless =
      (scope.get? name).map Value.caseless := by
  rw [get?, frames_caseless, get?]
  induction scope.frames with
  | nil => rfl
  | cons frame frames ih =>
      rw [List.map_cons, List.findSome?_cons, List.findSome?_cons,
        Frame.get?_caseless, ih]
      cases frame.get? name <;> rfl

theorem updateFirst?_caseless (value : Value) (frames : List Frame) :
    updateFirst? name.caseless value.caseless (frames.map Frame.caseless) =
      (updateFirst? name value frames).map (List.map Frame.caseless) := by
  induction frames with
  | nil => rfl
  | cons frame frames ih =>
      simp only [List.map_cons, updateFirst?, Frame.binds_caseless,
        Frame.update_caseless, ih]
      split
      · rfl
      · cases updateFirst? name value frames <;> rfl

theorem assign_caseless (value : Value) :
    scope.caseless.assign name.caseless value.caseless =
      (scope.assign name value).caseless := by
  rw [assign, frames_caseless, updateFirst?_caseless, assign]
  rcases updateFirst? name value scope.frames with _ | _ | ⟨frame, frames⟩
  · simp only [Option.map_none, declare, caseless, Frame.declare_caseless]
  · simp only [Option.map_some, List.map_nil, declare, caseless,
      Frame.declare_caseless]
  · rfl

end Scope

/-! ### Answers -/

/-- Both give values that are related, or both fail for the same reason. -/
inductive Answers {α : Type} (R : α → α → Prop) :
    Except Fault α → Except Fault α → Prop where
  | ok {a b : α} (h : R a b) : Answers R (.ok a) (.ok b)
  | error {fault fault' : Fault} (h : fault.caseless = fault'.caseless) :
      Answers R (.error fault) (.error fault')

theorem Answers.of_map_eq {α : Type} {f : α → α} {r r' : Except Fault α}
    (h : r.map f = r'.map f) : Answers (fun a b => f a = f b) r r' := by
  cases r with
  | ok a =>
      cases r' with
      | ok b => exact .ok (Except.ok.inj h)
      | error fault => cases h
  | error fault =>
      cases r' with
      | ok b => cases h
      | error fault' => exact .error (congrArg _ (Except.error.inj h))

/-- The same value up to the case of names. -/
def Value.Alike (v w : Value) : Prop := v.caseless = w.caseless

/-- A name that is not found is named in the fault. -/
theorem Scope.lookup_alike {scope scope' : Scope} {name name' : Name}
    (hscope : scope.caseless = scope'.caseless)
    (hname : name.caseless = name'.caseless) :
    Answers Value.Alike (scope.lookup name) (scope'.lookup name') := by
  have hget : (scope.get? name).map Value.caseless =
      (scope'.get? name').map Value.caseless := by
    rw [← get?_caseless, hscope, hname, get?_caseless]
  rw [lookup, lookup]
  cases hfound : scope.get? name with
  | some value =>
      obtain ⟨value', hfound', hvalue⟩ :
          ∃ value', scope'.get? name' = some value' ∧
            value'.caseless = value.caseless := by
        rw [hfound] at hget
        exact Option.map_eq_some_iff.1 hget.symm
      rw [hfound']
      exact .ok hvalue.symm
  | none =>
      rw [hfound, Option.map_none, eq_comm, Option.map_eq_none_iff] at hget
      rw [hget]
      apply Answers.error
      simp only [Fault.caseless_ofCause, Fault.Cause.caseless,
        Name.lowerString_text, Name.caseless_eq_iff.1 hname]

/-! ### Arguments -/

namespace Eval

def Passed.caseless (arg : Passed) : Passed :=
  ⟨arg.name.caseless, arg.nameSpan, arg.value.caseless⟩

theorem contains_caseless (params : List Name) (name : Name) :
    (params.map Name.caseless).contains name.caseless =
      params.contains name := by
  simp only [List.contains_eq_any_beq, List.any_map, Function.comp_def,
    Name.beq_caseless]

theorem bindEach_alike {params params' : List Name}
    (hparams : params.map Name.caseless = params'.map Name.caseless)
    {frame frame' : Frame} (hframe : frame.caseless = frame'.caseless)
    {args args' : List Passed}
    (hargs : args.map Passed.caseless = args'.map Passed.caseless) :
    Answers (fun f f' => f.caseless = f'.caseless)
      (bindEach params frame args) (bindEach params' frame' args') := by
  induction args generalizing frame frame' args' with
  | nil =>
      rw [List.map_nil, eq_comm, List.map_eq_nil_iff] at hargs
      rw [hargs]
      exact .ok hframe
  | cons arg args ih =>
      cases args' with
      | nil => cases hargs
      | cons arg' args' =>
          rw [List.map_cons, List.map_cons, List.cons.injEq, Passed.caseless,
            Passed.caseless, Passed.mk.injEq] at hargs
          obtain ⟨⟨hname, hspan, hvalue⟩, hrest⟩ := hargs
          have hcontains :
              params.contains arg.name = params'.contains arg'.name := by
            rw [← contains_caseless, hparams, hname, contains_caseless]
          have hbinds : frame.binds arg.name = frame'.binds arg'.name := by
            rw [← Frame.binds_caseless, hframe, hname, Frame.binds_caseless]
          have hfault (cause : String → Fault.Cause)
              (hcause : ∀ name, (cause name).caseless =
                cause (lowerString name)) :
              ((Fault.ofCause (cause arg.name.text)).locate
                arg.nameSpan).caseless =
              ((Fault.ofCause (cause arg'.name.text)).locate
                arg'.nameSpan).caseless := by
            rw [Fault.caseless_locate, Fault.caseless_locate,
              Fault.caseless_ofCause, Fault.caseless_ofCause, hcause, hcause,
              Name.lowerString_text, Name.lowerString_text,
              Name.caseless_eq_iff.1 hname, hspan]
          simp only [bindEach, hcontains, hbinds]
          split
          · exact .error (hfault .unknownParameter fun _ => rfl)
          · split
            · exact .error (hfault .duplicateParameter fun _ => rfl)
            · apply ih _ hrest
              rw [← Frame.declare_caseless, hframe, hname, hvalue,
                Frame.declare_caseless]

/-- Arguments find their parameters whatever the case of names. -/
theorem bindArguments_alike {params params' : List Name}
    (hparams : params.map Name.caseless = params'.map Name.caseless)
    (span : Span) {args args' : List Passed}
    (hargs : args.map Passed.caseless = args'.map Passed.caseless) :
    Answers (fun f f' => f.caseless = f'.caseless)
      (bindArguments params span args) (bindArguments params' span args') := by
  have hcount : params.length = params'.length := by
    simpa using congrArg List.length hparams
  have hgiven : args.length = args'.length := by
    simpa using congrArg List.length hargs
  rw [bindArguments, bindArguments, hcount, hgiven]
  split
  · exact .error rfl
  · exact bindEach_alike hparams rfl hargs

end Eval

/-! ### Machines -/

/-- The same machine up to the case of names. -/
structure Machine.Alike (m m' : Machine) : Prop where
  heap : m.heap.caseless = m'.heap.caseless
  functions : m.functions = m'.functions
  scope : m.scope.caseless = m'.scope.caseless
  calls : m.calls.caseless = m'.calls.caseless
  output : m.output = m'.output
  input : m.input = m'.input

theorem Machine.Alike.refl (m : Machine) : m.Alike m :=
  ⟨rfl, rfl, rfl, rfl, rfl, rfl⟩

/-! ### Runs -/

/-- Two runs end alike, on machines that are alike, or neither ends. -/
inductive Run.Ends {α : Type} (R : α → α → Prop) :
    Option (Except Fault α × Machine) → Option (Except Fault α × Machine) →
      Prop where
  | unfinished : Ends R none none
  | ended {r r' : Except Fault α} {m m' : Machine} (hr : Answers R r r')
      (hm : m.Alike m') : Ends R (some (r, m)) (some (r', m'))

/-- Two steps end alike on machines that are alike. -/
def Run.Alike {α : Type} (R : α → α → Prop) (x y : Run α) : Prop :=
  ∀ m m' : Machine, m.Alike m' → Run.Ends R (x m) (y m')

namespace Run.Alike

variable {α β : Type} {R : α → α → Prop} {S : β → β → Prop} {x y : Run α}

theorem ofExcept {r r' : Except Fault α} (h : Answers R r r') :
    Run.Alike R (Run.ofExcept r) (Run.ofExcept r') :=
  fun _ _ hm => .ended h hm

theorem pure {a b : α} (h : R a b) :
    Run.Alike R (Pure.pure a : Run α) (Pure.pure b) :=
  ofExcept (.ok h)

theorem fault {f f' : Fault} (h : f.caseless = f'.caseless) :
    Run.Alike R (Run.fault f : Run α) (Run.fault f') :=
  ofExcept (.error h)

theorem bind {f g : α → Run β} (hx : Run.Alike R x y)
    (hf : ∀ a b, R a b → Run.Alike S (f a) (g b)) :
    Run.Alike S (x >>= f) (y >>= g) := by
  intro m m' hm
  change Run.Ends S (Run.bind x f m) (Run.bind y g m')
  have hends := hx m m' hm
  rw [Run.bind, Run.bind]
  generalize x m = first at hends
  generalize y m' = first' at hends
  cases hends with
  | unfinished => exact .unfinished
  | ended hr hm =>
      cases hr with
      | ok hab => exact hf _ _ hab _ _ hm
      | error h => exact .ended (.error h) hm

theorem located (hx : Run.Alike R x y) (span : Span) :
    Run.Alike R (Run.located span x) (Run.located span y) := by
  intro m m' hm
  have hends := hx m m' hm
  rw [Run.located, Run.located]
  generalize x m = first at hends
  generalize y m' = first' at hends
  cases hends with
  | unfinished => exact .unfinished
  | ended hr hm =>
      cases hr with
      | ok hab => exact .ended (.ok hab) hm
      | error h =>
          refine .ended (.error ?_) hm
          rw [Fault.caseless_locate, Fault.caseless_locate, h]

theorem inFrame (hx : Run.Alike R x y) {frame frame' : Frame}
    (hframe : frame.caseless = frame'.caseless) :
    Run.Alike R (Run.inFrame frame x) (Run.inFrame frame' y) := by
  intro m m' hm
  have hinside : Machine.Alike { m with scope := m.scope.enter frame }
      { m' with scope := m'.scope.enter frame' } :=
    { hm with
      scope := by
        rw [← Scope.enter_caseless, hm.scope, hframe, Scope.enter_caseless] }
  have hends := hx _ _ hinside
  rw [Run.inFrame, Run.inFrame]
  generalize x _ = first at hends
  generalize y _ = first' at hends
  cases hends with
  | unfinished => exact .unfinished
  | ended hr hm =>
      refine .ended hr { hm with scope := ?_ }
      rw [← Scope.leave_caseless, hm.scope, Scope.leave_caseless]

theorem inCall (hx : Run.Alike R x y) {call call' : CallFrame}
    (hcall : call.caseless = call'.caseless) :
    Run.Alike R (Run.inCall call x) (Run.inCall call' y) := by
  intro m m' hm
  have hpush : (m.calls.push call).map CallStack.caseless =
      (m'.calls.push call').map CallStack.caseless := by
    rw [← CallStack.push_caseless, hm.calls, hcall, CallStack.push_caseless]
  obtain ⟨hname, hspan⟩ := CallFrame.mk.inj hcall
  rw [Run.inCall, Run.inCall]
  have hpushed := Answers.of_map_eq hpush
  generalize m.calls.push call = pushed at hpushed
  generalize m'.calls.push call' = pushed' at hpushed
  cases hpushed with
  | error h => exact .ended (.error h) hm
  | @ok calls calls' h =>
      have hends := hx _ _ (⟨hm.heap, hm.functions, hm.scope, h, hm.output,
        hm.input⟩ : Machine.Alike { m with calls := calls }
          { m' with calls := calls' })
      dsimp only
      generalize x _ = first at hends
      generalize y _ = first' at hends
      cases hends with
      | unfinished => exact .unfinished
      | @ended r r' inner inner' hr hm =>
          have hleft : Machine.Alike
              { inner with calls := inner.calls.pop.2 }
              { inner' with calls := inner'.calls.pop.2 } :=
            { hm with
              calls := by
                rw [← CallStack.pop_caseless, hm.calls,
                  CallStack.pop_caseless] }
          cases hr with
          | ok hab => exact .ended (.ok hab) hleft
          | error h =>
              refine .ended (.error ?_) hleft
              rw [Fault.caseless_leaveCall, Fault.caseless_leaveCall, h, hspan,
                hname]

end Run.Alike

end Prose
