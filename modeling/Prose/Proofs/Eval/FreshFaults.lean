import Prose.Proofs.Eval.Steady

/-!
Faults as they are raised. What is done at once raises faults that have left no
call. Most have no place yet; a few actions know a closer place than the
expression or the statement they are done for, and name it. None of them is an
exit, but for the one that an `Exit` sentence asks for.
-/

namespace Prose

namespace Fault

/-- A fault that was just raised: it has left no call, and has no place yet or
one of those given. An exit has no place. -/
structure Fresh (spans : List Span) (f : Fault) : Prop where
  backtrace : f.backtrace = []
  place : ∀ span, f.span? = some span → f.isExit = false ∧ span ∈ spans

theorem fresh_ofCause (spans : List Span) (cause : Cause) :
    (ofCause cause).Fresh spans := by
  constructor <;> simp [ofCause]

/-- Only a fault that has no place is given one. -/
theorem locate_cases (f : Fault) (span : Span) :
    f.locate span = f ∨
      f.isExit = false ∧ f.span? = none ∧
        f.locate span = { f with span? := some span } := by
  unfold locate
  split
  · exact Or.inl rfl
  · next hexit =>
      split
      · exact Or.inl rfl
      · next hnone => exact Or.inr ⟨by simpa using hexit, hnone, rfl⟩

theorem span?_locate_ne_none {f : Fault} {span : Span}
    (h : (f.locate span).isExit = false) : (f.locate span).span? ≠ none := by
  unfold locate at h ⊢
  split
  · next hexit => simp [hexit] at h
  · split
    · next hplace => simp [hplace]
    · simp

theorem fresh_locate {spans : List Span} {span : Span} (hspan : span ∈ spans)
    (cause : Cause) : ((ofCause cause).locate span).Fresh spans := by
  rcases locate_cases (ofCause cause) span with hsame | ⟨hexit, _, hplaced⟩
  · rw [hsame]
    exact fresh_ofCause spans cause
  · rw [hplaced]
    refine ⟨rfl, ?_⟩
    rintro place ⟨⟩
    exact ⟨hexit, hspan⟩

/-- A fault that is no exit and was just raised, with no place yet or at one of
those given. -/
inductive Raised (spans : List Span) : Fault → Prop where
  | ofCause {cause : Cause} (hcause : cause ≠ .exit) :
      Raised spans (.ofCause cause)
  | locate {cause : Cause} (hcause : cause ≠ .exit) {span : Span}
      (hspan : span ∈ spans) : Raised spans ((Fault.ofCause cause).locate span)

theorem isExit_ofCause {cause : Cause} (hcause : cause ≠ .exit) :
    (ofCause cause).isExit = false := by
  cases cause <;> first | rfl | contradiction

@[simp] theorem isExit_locate (f : Fault) (span : Span) :
    (f.locate span).isExit = f.isExit := by
  rcases locate_cases f span with hsame | ⟨_, _, hplaced⟩
  · rw [hsame]
  · rw [hplaced]
    rfl

namespace Raised

variable {spans : List Span} {f : Fault}

theorem fresh (h : f.Raised spans) : f.Fresh spans := by
  cases h with
  | ofCause _ => exact fresh_ofCause spans _
  | locate _ hspan => exact fresh_locate hspan _

theorem isExit (h : f.Raised spans) : f.isExit = false := by
  cases h with
  | ofCause hcause => exact isExit_ofCause hcause
  | locate hcause _ => rw [isExit_locate, isExit_ofCause hcause]

end Raised

end Fault

/-- The fault of a computation, if it has one, was just raised and is no exit. -/
def Raises {α : Type} (places : List Span) (r : Except Fault α) : Prop :=
  ∀ f, r = .error f → f.Raised places

section Raises

variable {α : Type} {places : List Span}

@[simp] theorem raises_ok (a : α) :
    Raises places (.ok a : Except Fault α) := by
  intro f h
  contradiction

theorem raises_error {f : Fault} (hf : f.Raised places) :
    Raises places (.error f : Except Fault α) := by
  rintro f ⟨⟩
  exact hf

@[simp] theorem raises_ofCause {cause : Fault.Cause} (hcause : cause ≠ .exit) :
    Raises places (.error (.ofCause cause) : Except Fault α) :=
  raises_error (.ofCause hcause)

@[simp] theorem raises_fail {cause : Fault.Cause} (hcause : cause ≠ .exit) :
    Raises places (Eval.fail cause : Except Fault α) :=
  raises_ofCause hcause

end Raises

variable {places : List Span}

/-! ### Scopes and input -/

theorem Scope.raises_lookup (s : Scope) (name : Name) :
    Raises places (s.lookup name) := by
  unfold lookup
  split <;> simp

namespace Input

theorem raises_line (input : Input) : Raises places input.line.1 := by
  unfold line
  split
  · simp
  · simp
  · next fault rest hline =>
      unfold line? at hline
      split at hline <;> cases hline
      simp

theorem raises_wordUpTo (n : Nat) (input : Input) :
    Raises places (wordUpTo n input).1 := by
  induction n generalizing input with
  | zero => exact input.raises_line
  | succ n ih =>
      have hline : Raises places input.line.1 := input.raises_line
      unfold wordUpTo
      split
      · next fault rest heq =>
          rw [heq] at hline
          exact hline
      · split
        · simp
        · exact ih _

theorem raises_word (input : Input) : Raises places input.word.1 :=
  raises_wordUpTo _ input

end Input

namespace Eval

/-! ### Operators -/

theorem raises_exact (operation : String) (n : Int) :
    Raises places (exact operation n) := by
  unfold exact
  split <;> simp

theorem raises_power (a b : Int64) : Raises places (power a b) := by
  unfold power
  split
  · simp
  · split <;> simp

theorem raises_numbers (op : Operator) (left right : Value) :
    Raises places (numbers op left right) := by
  have hreals : ∀ a b, Raises places (reals op left right a b) := by
    intro a b
    cases op <;> simp [reals]
  cases left <;> cases right <;> try first
    | exact hreals _ _
    | exact raises_fail nofun
  -- Two integers: some operators stay among the integers.
  cases op <;> first
    | exact raises_exact _ _
    | exact raises_power _ _
    | exact raises_ok _
    | exact raises_fail nofun

theorem raises_element (heap : Heap) (ref : ListRef) (index : Int64) :
    Raises places (element heap ref index) := by
  unfold element
  dsimp only
  split
  · simp
  · exact raises_ofCause nofun

theorem raises_applyByKind (heap : Heap) (op : Operator)
    (left right : Value) : Raises places (applyByKind heap op left right) := by
  unfold applyByKind
  split
  · split
    · exact raises_numbers op _ right
    · simp
  · split
    · exact raises_numbers op _ right
    · simp
  · split <;> simp
  · split
    · exact raises_element heap _ _
    · simp
    · simp
  · simp
  · simp

theorem raises_applyOperator (heap : Heap) (op : Operator)
    (left right : Value) :
    Raises places (applyOperator heap op left right) := by
  unfold applyOperator
  split
  · simp
  · simp
  · exact raises_applyByKind heap op left right

/-! ### Arguments and reading -/

/-- A parameter that is missing or given twice is named where it is written. -/
theorem raises_bindEach {params : List Name} {args : List Passed}
    (hplaces : ∀ arg ∈ args, arg.nameSpan ∈ places) (frame : Frame) :
    Raises places (bindEach params frame args) := by
  induction args generalizing frame with
  | nil => simp [bindEach]
  | cons arg rest ih =>
      rw [List.forall_mem_cons] at hplaces
      unfold bindEach
      split
      · exact raises_error (.locate (by simp) hplaces.1)
      · split
        · exact raises_error (.locate (by simp) hplaces.1)
        · exact ih hplaces.2 _

theorem raises_bindArguments {params : List Name} {span : Span}
    {args : List Passed} (hspan : span ∈ places)
    (hplaces : ∀ arg ∈ args, arg.nameSpan ∈ places) :
    Raises places (bindArguments params span args) := by
  unfold bindArguments
  split
  · exact raises_error (.locate (by simp) hspan)
  · exact raises_bindEach hplaces .empty

theorem raises_readKind {type : Option ReadType}
    (hplaces : ∀ t ∈ type, t.span ∈ places) :
    Raises places (readKind type) := by
  cases type with
  | none => simp [readKind]
  | some t =>
      unfold readKind
      dsimp only
      split
      · simp
      · split
        · simp
        · split
          · simp
          · exact raises_error (.locate (by simp) (hplaces t rfl))

/-! ### Actions -/

/-- The places that an action may itself give a fault. -/
def Action.spans {α : Type} : Action α → List Span
  | truth e _ | list e _ | integer e _ | function e _ => [e.span]
  | read type => type.toList.map (·.span)
  | bind call _ args => call.span :: args.map (·.nameSpan)
  | _ => []

variable {α : Type} {m m' : Machine} {f : Fault}

theorem raised_stepVariable {name : Name} {delta : Int} {operation : String}
    (h : stepVariable name delta operation m = some (.error f, m')) :
    f.Raised places := by
  rcases Run.bind_eq_some h with ⟨fault, hfound, ⟨⟩⟩ | ⟨value, m₁, hfound, h⟩
  · exact m.scope.raises_lookup name f (Run.answer_inj hfound).1
  · cases value with
    | integer n =>
        rcases Run.bind_eq_some h with ⟨fault, hnext, ⟨⟩⟩ | ⟨next, m₂, hnext, ⟨⟩⟩
        exact raises_exact _ _ f (Run.answer_inj hnext).1
    | real _ | text _ | truth _ | list _ | function _ =>
        cases h
        exact .ofCause nofun

theorem raised_readValue {type : Option ReadType}
    (h : readValue type m = some (.error f, m')) :
    f.Raised (type.toList.map (·.span)) := by
  rcases Run.bind_eq_some h with ⟨fault, hkind, ⟨⟩⟩ | ⟨kind, m₁, hkind, h⟩
  · refine raises_readKind ?_ f (Run.answer_inj hkind).1
    rintro t ⟨⟩
    simp
  · cases kind with
    | line =>
        rcases Run.bind_eq_some h with ⟨fault, hline, ⟨⟩⟩ | ⟨line, m₂, _, ⟨⟩⟩
        exact Input.raises_line _ f (Run.answer_inj hline).1
    | integer | real | truth =>
        rcases Run.bind_eq_some h with ⟨fault, hword, ⟨⟩⟩ | ⟨word, m₂, _, h⟩
        · exact Input.raises_word m₁.input f
            (Run.answer_inj hword).1
        · generalize readWord? _ word = found at h
          cases found with
          | some value => cases h
          | none =>
              cases h
              exact .ofCause nofun

/-- The fault of an action was just raised, at a place of the action if
anywhere, and is no exit unless the action asks for one. -/
theorem Action.raised {a : Action α} (h : a.run m = some (.error f, m')) :
    f.Raised a.spans ∨ ∃ cause, a = .fail cause ∧ f = .ofCause cause := by
  cases a with
  | fail cause => cases h; exact Or.inr ⟨cause, rfl, rfl⟩
  | truth e value | list e value | integer e value | function e value =>
      cases value <;> cases h <;>
        exact Or.inl (.locate (by simp) (List.mem_singleton_self _))
  | lookup name =>
      exact Or.inl (m.scope.raises_lookup name f (Run.answer_inj h).1)
  | operate op left right =>
      exact Or.inl (raises_applyOperator _ op left right f (Run.answer_inj h).1)
  | set ref index value =>
      change setElement ref index value m = _ at h
      unfold setElement at h
      dsimp only at h
      split at h
      · cases h
      · cases h; exact Or.inl (.ofCause nofun)
  | remove ref index =>
      change removeElement ref index m = _ at h
      unfold removeElement at h
      dsimp only at h
      split at h
      · cases h
      · cases h; exact Or.inl (.ofCause nofun)
  | count name delta operation => exact Or.inl (raised_stepVariable h)
  | read type => exact Or.inl (raised_readValue h)
  | bind call params args =>
      refine Or.inl (raises_bindArguments ?_ ?_ f (Run.answer_inj h).1)
      · exact List.mem_cons_self
      · intro arg harg
        exact List.mem_cons_of_mem _ (List.mem_map_of_mem harg)
  | assign _ _ | newList _ | newFunction _ _ | add _ _ | print _ | isOutside
  | next _ _ => cases h

/-- The fault of an action was just raised, at a place of the action if
anywhere. -/
theorem Action.fresh {a : Action α} (h : a.run m = some (.error f, m')) :
    f.Fresh a.spans := by
  rcases a.raised h with hraised | ⟨cause, _, rfl⟩
  · exact hraised.fresh
  · exact Fault.fresh_ofCause _ _

end Eval

end Prose
