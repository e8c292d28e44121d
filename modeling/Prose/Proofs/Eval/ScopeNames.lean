import Prose.Proofs.Eval.OnScope

/-!
Names stay where they are. Evaluating an expression leaves the names of every
frame as they were. Running a statement leaves those of every outer frame, and
gives the innermost frame at most one new name: the target of an assignment to a
variable or of a `Read`, if that name was bound nowhere.
-/

namespace Prose

namespace Stmt

/-- The name that a statement may bind where it stands. -/
def declared? : Stmt → Option Name
  | assign (.name name) _ _ => some name
  | read _ name _ => some name
  | _ => none

end Stmt

namespace Frame

@[simp] theorem names_update (f : Frame) (name : Name) (value : Value) :
    (f.update name value).names = f.names := by
  simp only [names, update, List.map_map]
  apply List.map_congr_left
  intro binding _
  simp only [Function.comp_apply]
  split <;> rfl

theorem names_declare_of_not_binds {f : Frame} {name : Name}
    (h : f.binds name = false) (value : Value) :
    (f.declare name value).names = f.names ++ [name] := by
  simp [declare, h, names]

end Frame

namespace Scope

/-- The names of all frames, innermost first, as they were spelled first. -/
def names (s : Scope) : List (List Name) := s.frames.map Frame.names

/-- The names of the frames around the innermost one. -/
def outerNames (s : Scope) : List (List Name) := s.outer.map Frame.names

theorem names_eq (s : Scope) : s.names = s.inner.names :: s.outerNames := rfl

def binds (s : Scope) (name : Name) : Bool := s.frames.any (·.binds name)

theorem updateFirst?_eq_none {name : Name} {value : Value} {frames : List Frame}
    (h : updateFirst? name value frames = none) :
    ∀ f ∈ frames, f.binds name = false := by
  induction frames with
  | nil => simp
  | cons f rest ih =>
      rw [updateFirst?] at h
      split at h
      · contradiction
      · next hbinds =>
          intro g hg
          rcases List.mem_cons.mp hg with rfl | hrest
          · simpa using hbinds
          · exact ih (by simpa using h) g hrest

theorem names_updateFirst? {name : Name} {value : Value}
    {frames frames' : List Frame}
    (h : updateFirst? name value frames = some frames') :
    frames'.map Frame.names = frames.map Frame.names := by
  induction frames generalizing frames' with
  | nil => simp [updateFirst?] at h
  | cons f rest ih =>
      rw [updateFirst?] at h
      split at h
      · obtain rfl := Option.some.inj h
        simp
      · obtain ⟨rest', hrest, rfl⟩ := Option.map_eq_some_iff.mp h
        simp [ih hrest]

/-- Assigning changes a binding where it is, or makes one in the innermost
frame. -/
theorem names_assign (s : Scope) (name : Name) (value : Value) :
    (s.assign name value).names = s.names ∨
      s.binds name = false ∧
        (s.assign name value).outer = s.outer ∧
        (s.assign name value).inner.names = s.inner.names ++ [name] := by
  unfold assign
  cases h : updateFirst? name value s.frames with
  | none =>
      have hnone := updateFirst?_eq_none h
      right
      refine ⟨by simpa [binds] using hnone, rfl, ?_⟩
      exact Frame.names_declare_of_not_binds
        (hnone s.inner (by simp [frames])) value
  | some frames' =>
      left
      have hnames := names_updateFirst? h
      cases frames' with
      | nil => simp [frames] at hnames
      | cons inner outer => exact hnames

/-- A name that is bound somewhere is not bound anew. -/
theorem names_assign_of_binds {s : Scope} {name : Name}
    (h : s.binds name = true) (value : Value) :
    (s.assign name value).names = s.names := by
  rcases names_assign s name value with hkept | ⟨hunbound, _⟩
  · exact hkept
  · simp [h] at hunbound

theorem binds_eq_names (s : Scope) (name : Name) :
    s.binds name = s.names.any fun names => names.any (· == name) := by
  simp only [binds, names, List.any_map]
  apply congrArg (List.any s.frames)
  funext f
  simp [Frame.binds, Frame.names, List.any_map, Function.comp_def]

theorem binds_of_lookup {s : Scope} {name : Name} {value : Value}
    (h : s.lookup name = .ok value) : s.binds name = true := by
  unfold lookup at h
  split at h
  · next found hfound =>
      obtain ⟨f, hf, hget⟩ := List.exists_of_findSome?_eq_some hfound
      obtain ⟨binding, hbinding, _⟩ := Option.map_eq_some_iff.mp hget
      simp only [binds, List.any_eq_true]
      refine ⟨f, hf, ?_⟩
      simp only [Frame.binds, List.any_eq_true]
      exact ⟨binding, List.mem_of_find?_eq_some hbinding,
        by simpa using List.find?_some hbinding⟩
  · contradiction

/-! ### What may happen to names -/

def KeepsNames (s t : Scope) : Prop := t.names = s.names

/-- Every frame but the innermost keeps its names. -/
def KeepsOuterNames (s t : Scope) : Prop := t.outerNames = s.outerNames

/-- Every frame keeps its names, except that the innermost one may also bind a
declared name, if no frame bound it before. -/
def Declares (declared : Option Name) (s t : Scope) : Prop :=
  t.outerNames = s.outerNames ∧
    (t.inner.names = s.inner.names ∨
      ∃ name, declared = some name ∧ s.binds name = false ∧
        t.inner.names = s.inner.names ++ [name])

theorem keepsNames_refl (s : Scope) : KeepsNames s s := rfl

theorem keepsNames_trans (s t u : Scope) (hst : KeepsNames s t)
    (htu : KeepsNames t u) : KeepsNames s u := htu.trans hst

theorem KeepsNames.outer {s t : Scope} (h : KeepsNames s t) :
    KeepsOuterNames s t := by
  rw [KeepsNames, names_eq, names_eq] at h
  exact (List.cons.inj h).2

theorem KeepsNames.declares {s t : Scope} (h : KeepsNames s t)
    (declared : Option Name) : Declares declared s t := by
  refine ⟨h.outer, Or.inl ?_⟩
  rw [KeepsNames, names_eq, names_eq] at h
  exact (List.cons.inj h).1

/-- Declaring after other work is declaring. -/
theorem declares_of_keepsNames {declared : Option Name} (s t u : Scope)
    (hst : KeepsNames s t) (htu : Declares declared t u) :
    Declares declared s u := by
  have hinner := (hst.declares none).2
  simp only [reduceCtorEq, false_and, exists_false, or_false] at hinner
  refine ⟨htu.1.trans hst.outer, ?_⟩
  rcases htu.2 with hkept | ⟨name, hname, hunbound, hgained⟩
  · exact Or.inl (hkept.trans hinner)
  · rw [binds_eq_names, hst, ← binds_eq_names] at hunbound
    exact Or.inr ⟨name, hname, hunbound, hinner ▸ hgained⟩

theorem declares_assign (s : Scope) (name : Name) (value : Value) :
    Declares (some name) s (s.assign name value) := by
  rcases names_assign s name value with hkept | ⟨hunbound, houter, hinner⟩
  · exact KeepsNames.declares hkept (some name)
  · exact ⟨by rw [outerNames, houter, outerNames],
      Or.inr ⟨name, rfl, hunbound, hinner⟩⟩

/-- A frame that was entered and left takes its names with it. -/
theorem keepsNames_leave {s t : Scope} {frame : Frame}
    (h : KeepsOuterNames (s.enter frame) t) : KeepsNames s t.leave := by
  obtain ⟨inner, outer⟩ := t
  cases outer with
  | nil => simp [KeepsOuterNames, outerNames, enter] at h
  | cons next rest => exact h

end Scope

/-! ### Steps of a program -/

namespace Eval

open Run Scope

section Steps

variable {α β : Type} {x : Run α} {f : α → Run β}

theorem keepsNames_bind (hx : OnScope KeepsNames x)
    (hf : ∀ a, OnScope KeepsNames (f a)) : OnScope KeepsNames (x >>= f) :=
  hx.bind hf (fun _ _ h => h) keepsNames_trans

theorem keepsOuterNames_bind (hx : OnScope KeepsOuterNames x)
    (hf : ∀ a, OnScope KeepsOuterNames (f a)) :
    OnScope KeepsOuterNames (x >>= f) :=
  hx.bind hf (fun _ _ h => h) fun _ _ _ hst htu => htu.trans hst

theorem declares_bind {declared : Option Name} (hx : OnScope KeepsNames x)
    (hf : ∀ a, OnScope (Declares declared) (f a)) :
    OnScope (Declares declared) (x >>= f) :=
  hx.bind hf (fun _ _ h => h.declares declared) declares_of_keepsNames

theorem keepsNames_inFrame (hx : OnScope KeepsOuterNames x) (frame : Frame) :
    OnScope KeepsNames (Run.inFrame frame x) :=
  hx.inFrame frame fun _ _ h => keepsNames_leave h

theorem keepsNames_pure (a : α) : OnScope KeepsNames (Pure.pure a : Run α) :=
  onScope_pure keepsNames_refl a

theorem keepsOuterNames_pure (a : α) :
    OnScope KeepsOuterNames (Pure.pure a : Run α) :=
  (keepsNames_pure a).mono fun _ _ h => h.outer

theorem keepsNames_of_fixed
    (hx : ∀ m r m', x m = some (r, m') → m'.scope = m.scope) :
    OnScope KeepsNames x :=
  onScope_of_fixed keepsNames_refl hx

end Steps

theorem keepsNames_asTruth (e : Expr) (value : Value) :
    OnScope KeepsNames (asTruth e value) := by
  apply keepsNames_of_fixed
  cases value <;> rintro m r m' ⟨⟩ <;> rfl

theorem keepsNames_asList (e : Expr) (value : Value) :
    OnScope KeepsNames (asList e value) := by
  apply keepsNames_of_fixed
  cases value <;> rintro m r m' ⟨⟩ <;> rfl

theorem keepsNames_asInteger (e : Expr) (value : Value) :
    OnScope KeepsNames (asInteger e value) := by
  apply keepsNames_of_fixed
  cases value <;> rintro m r m' ⟨⟩ <;> rfl

theorem keepsNames_asFunction (e : Expr) (value : Value) :
    OnScope KeepsNames (asFunction e value) := by
  apply keepsNames_of_fixed
  cases value <;> rintro m r m' ⟨⟩ <;> rfl

theorem keepsNames_setElement (ref : ListRef) (index : Int64) (value : Value) :
    OnScope KeepsNames (setElement ref index value) := by
  apply keepsNames_of_fixed
  intro m r m' hrun
  unfold setElement at hrun
  dsimp only at hrun
  split at hrun <;> (cases hrun; rfl)

theorem keepsNames_removeElement (ref : ListRef) (index : Int64) :
    OnScope KeepsNames (removeElement ref index) := by
  apply keepsNames_of_fixed
  intro m r m' hrun
  unfold removeElement at hrun
  dsimp only at hrun
  split at hrun <;> (cases hrun; rfl)

/-- A variable that is counted up or down is bound already. -/
theorem keepsNames_stepVariable (name : Name) (delta : Int)
    (operation : String) :
    OnScope KeepsNames (stepVariable name delta operation) := by
  intro m r m' hrun
  change Run.bind (Run.lookup name) _ m = _ at hrun
  simp only [Run.bind, Run.lookup] at hrun
  cases hlookup : m.scope.lookup name with
  | error fault =>
      simp only [hlookup] at hrun
      cases hrun
      rfl
  | ok value =>
      have hbound := binds_of_lookup hlookup
      simp only [hlookup] at hrun
      cases value with
      | integer n =>
          change Run.bind (Run.ofExcept _) _ m = _ at hrun
          cases hnext : exact operation (n.toInt + delta) with
          | error fault =>
              simp only [Run.bind, Run.ofExcept, hnext] at hrun
              cases hrun
              rfl
          | ok next =>
              simp only [Run.bind, Run.ofExcept, hnext] at hrun
              cases hrun
              exact names_assign_of_binds hbound next
      | real _ | text _ | truth _ | list _ | function _ =>
          cases hrun
          rfl

theorem keepsNames_readValue (type : Option ReadType) :
    OnScope KeepsNames (readValue type) := by
  apply keepsNames_bind
  · apply keepsNames_of_fixed
    rintro m r m' ⟨⟩
    rfl
  · intro kind
    cases kind with
    | line =>
        apply keepsNames_bind
        · apply keepsNames_of_fixed
          rintro m r m' ⟨⟩
          rfl
        · intro line
          exact keepsNames_pure _
    | integer | real | truth =>
        apply keepsNames_bind
        · apply keepsNames_of_fixed
          rintro m r m' ⟨⟩
          rfl
        · intro word
          apply keepsNames_of_fixed
          generalize readWord? _ word = found
          cases found <;> rintro m r m' ⟨⟩ <;> rfl

/-! ### Programs -/

/-- What programs that take at most `n` nested or repeated steps do to names. -/
structure NamesKept (n : Nat) : Prop where
  expr : ∀ e, OnScope KeepsNames (evalExpr n e)
  exprs : ∀ es, OnScope KeepsNames (evalExprs n es)
  arguments : ∀ args, OnScope KeepsNames (evalArguments n args)
  call : ∀ call, OnScope KeepsNames (runCall n call)
  stmt : ∀ s, OnScope (Declares s.declared?) (runStmt n s)
  stmts : ∀ ss, OnScope KeepsOuterNames (runStmts n ss)
  body : ∀ body, OnScope KeepsOuterNames (runBody n body)
  loop : ∀ condition body, OnScope KeepsNames (runLoop n condition body)
  forEach : ∀ item ref walk body,
    OnScope KeepsNames (runForEach n item ref walk body)

theorem namesKept_zero : NamesKept 0 := by
  constructor <;> intros <;> exact onScope_unfinished

theorem NamesKept.expr_succ {n : Nat} (h : NamesKept n) (e : Expr) :
    OnScope KeepsNames (evalExpr (n + 1) e) := by
  unfold evalExpr
  apply OnScope.located
  cases e with
  | integer _ _ | real _ _ | text _ _ | truth _ _ => exact keepsNames_pure _
  | name name _ =>
      apply keepsNames_of_fixed
      rintro m r m' ⟨⟩
      rfl
  | list items _ =>
      apply keepsNames_bind (h.exprs items)
      intro values
      apply keepsNames_of_fixed
      rintro m r m' ⟨⟩
      rfl
  | function params body _ =>
      apply keepsNames_of_fixed
      rintro m r m' ⟨⟩
      rfl
  | group inner _ => exact h.expr inner
  | result call _ =>
      apply keepsNames_bind (h.call call)
      intro value
      apply keepsNames_of_fixed
      cases value <;> rintro m r m' ⟨⟩ <;> rfl
  | binary op left right _ =>
      apply keepsNames_bind (h.expr left)
      intro left
      apply keepsNames_bind (h.expr right)
      intro right
      apply keepsNames_of_fixed
      rintro m r m' ⟨⟩
      rfl

theorem NamesKept.exprs_succ {n : Nat} (h : NamesKept n) (es : List Expr) :
    OnScope KeepsNames (evalExprs (n + 1) es) := by
  cases es with
  | nil => exact keepsNames_pure _
  | cons e es =>
      apply keepsNames_bind (h.expr e)
      intro value
      apply keepsNames_bind (h.exprs es)
      intro values
      exact keepsNames_pure _

theorem NamesKept.arguments_succ {n : Nat} (h : NamesKept n)
    (args : List Argument) : OnScope KeepsNames (evalArguments (n + 1) args) := by
  cases args with
  | nil => exact keepsNames_pure _
  | cons arg args =>
      obtain ⟨name, nameSpan, value⟩ := arg
      apply keepsNames_bind (h.expr value)
      intro value
      apply keepsNames_bind (h.arguments args)
      intro rest
      exact keepsNames_pure _

/-- The frame of a call is a new one inside the caller's, and it is left however
the body ends. -/
theorem NamesKept.call_succ {n : Nat} (h : NamesKept n) (call : Call) :
    OnScope KeepsNames (runCall (n + 1) call) := by
  obtain ⟨callee, args, span⟩ := call
  apply keepsNames_bind (h.expr callee)
  intro value
  apply keepsNames_bind (keepsNames_asFunction callee value)
  intro f
  apply keepsNames_bind (h.arguments args)
  intro passed
  apply keepsNames_bind
  · apply keepsNames_of_fixed
    rintro m r m' ⟨⟩
    rfl
  · intro frame
    apply keepsNames_bind
    · apply OnScope.inCall _ keepsNames_refl
      exact keepsNames_inFrame (h.stmts f.body.stmts) frame
    · intro flow
      cases flow <;> exact keepsNames_pure _

theorem declares_assignment (name : Name) (value : Value) :
    OnScope (Declares (some name))
      (Run.assign name value >>= fun _ => Pure.pure Flow.normal) := by
  rintro m r m' ⟨⟩
  exact declares_assign m.scope name value

/-- A list and an index, as they are found before an element is changed. -/
theorem NamesKept.element {n : Nat} (h : NamesKept n) (list index : Expr)
    {β : Type} {f : ListRef → Int64 → Run β}
    (hf : ∀ ref i, OnScope KeepsNames (f ref i)) :
    OnScope KeepsNames (do
      let ref ← asList list (← evalExpr n list)
      let i ← asInteger index (← evalExpr n index)
      f ref i) := by
  apply keepsNames_bind (h.expr list)
  intro found
  apply keepsNames_bind (keepsNames_asList list found)
  intro ref
  apply keepsNames_bind (h.expr index)
  intro found
  apply keepsNames_bind (keepsNames_asInteger index found)
  intro i
  exact hf ref i

/-- A statement other than an assignment to a variable or a `Read` declares
nothing. -/
theorem NamesKept.stmt_keepsNames {n : Nat} (h : NamesKept n) {s : Stmt}
    (hs : s.declared? = none) : OnScope KeepsNames (runStmt (n + 1) s) := by
  unfold runStmt
  apply OnScope.located
  cases s with
  | assign target value _ =>
      cases target with
      | name name => contradiction
      | position list index =>
          apply keepsNames_bind (h.expr value)
          intro value
          apply h.element
          intro ref i
          apply keepsNames_bind
          · exact (keepsNames_setElement ref i value).located index.span
          · intro _
            exact keepsNames_pure _
  | print value _ | inspect value _ =>
      apply keepsNames_bind (h.expr value)
      intro value
      apply keepsNames_of_fixed
      rintro m r m' ⟨⟩
      rfl
  | read type target _ => contradiction
  | add value list _ =>
      apply keepsNames_bind (h.expr list)
      intro found
      apply keepsNames_bind (keepsNames_asList list found)
      intro ref
      apply keepsNames_bind (h.expr value)
      intro value
      apply keepsNames_of_fixed
      rintro m r m' ⟨⟩
      rfl
  | remove list index _ =>
      apply h.element
      intro ref i
      apply keepsNames_bind (keepsNames_removeElement ref i)
      intro _
      exact keepsNames_pure _
  | loop condition body _ => exact h.loop condition body
  | branch condition body alternative _ =>
      apply keepsNames_bind (h.expr condition)
      intro found
      apply keepsNames_bind (keepsNames_asTruth condition found)
      intro truth
      cases truth with
      | true => exact keepsNames_inFrame (h.body body) .empty
      | false =>
          cases alternative with
          | none => exact keepsNames_pure _
          | some body => exact keepsNames_inFrame (h.body body) .empty
  | forEach item list body _ =>
      apply keepsNames_bind (h.expr list)
      intro found
      apply keepsNames_bind (keepsNames_asList list found)
      intro ref
      exact h.forEach item ref .start body
  | increment name _ | decrement name _ =>
      apply keepsNames_bind (keepsNames_stepVariable name _ _)
      intro _
      exact keepsNames_pure _
  | exit _ =>
      apply keepsNames_of_fixed
      rintro m r m' ⟨⟩
      rfl
  | run call _ =>
      apply keepsNames_bind (h.call call)
      intro _
      exact keepsNames_pure _
  | result value _ =>
      apply keepsNames_bind
      · apply keepsNames_of_fixed
        rintro m r m' ⟨⟩
        rfl
      · intro m
        split
        · apply keepsNames_of_fixed
          rintro m r m' ⟨⟩
          rfl
        · apply keepsNames_bind (h.expr value)
          intro value
          exact keepsNames_pure _

/-- A statement declares at most its own target. -/
theorem NamesKept.stmt_succ {n : Nat} (h : NamesKept n) (s : Stmt) :
    OnScope (Declares s.declared?) (runStmt (n + 1) s) := by
  cases hdeclared : s.declared? with
  | none =>
      exact (h.stmt_keepsNames hdeclared).mono
        fun _ _ hkept => hkept.declares none
  | some name =>
      unfold runStmt
      apply OnScope.located
      unfold Stmt.declared? at hdeclared
      split at hdeclared
      · cases hdeclared
        apply declares_bind (h.expr _)
        intro value
        exact declares_assignment name value
      · cases hdeclared
        apply declares_bind (keepsNames_readValue _)
        intro value
        exact declares_assignment name value
      · contradiction

theorem NamesKept.stmts_succ {n : Nat} (h : NamesKept n) (ss : List Stmt) :
    OnScope KeepsOuterNames (runStmts (n + 1) ss) := by
  cases ss with
  | nil => exact keepsOuterNames_pure _
  | cons s rest =>
      unfold runStmts
      split
      · exact keepsOuterNames_pure _
      · have hfirst : OnScope KeepsOuterNames (runStmt n s) :=
          (h.stmt s).mono fun _ _ hdeclares => hdeclares.1
        apply keepsOuterNames_bind hfirst
        intro flow
        cases flow with
        | normal => exact h.stmts rest
        | leave | result _ => exact keepsOuterNames_pure _

theorem NamesKept.body_succ {n : Nat} (h : NamesKept n) (body : Body) :
    OnScope KeepsOuterNames (runBody (n + 1) body) := by
  cases body with
  | block block =>
      obtain ⟨stmts, _⟩ := block
      exact h.stmts stmts
  | sentence s => exact (h.stmt s).mono fun _ _ hdeclares => hdeclares.1

/-- Every turn of a loop has a frame of its own. -/
theorem NamesKept.loop_succ {n : Nat} (h : NamesKept n) (condition : Expr)
    (body : Body) : OnScope KeepsNames (runLoop (n + 1) condition body) := by
  apply keepsNames_bind (h.expr condition)
  intro found
  apply keepsNames_bind (keepsNames_asTruth condition found)
  intro truth
  cases truth with
  | false => exact keepsNames_pure _
  | true =>
      apply keepsNames_bind (keepsNames_inFrame (h.body body) .empty)
      intro flow
      cases flow with
      | normal => exact h.loop condition body
      | leave | result _ => exact keepsNames_pure _

theorem NamesKept.forEach_succ {n : Nat} (h : NamesKept n) (item : Name)
    (ref : ListRef) (walk : Walk) (body : Body) :
    OnScope KeepsNames (runForEach (n + 1) item ref walk body) := by
  apply keepsNames_bind
  · apply keepsNames_of_fixed
    rintro m r m' ⟨⟩
    rfl
  · intro m
    rcases walk.next (m.heap.get ref) with ⟨_ | value, walk⟩
    · exact keepsNames_pure _
    · apply keepsNames_bind (keepsNames_inFrame (h.body body) _)
      intro flow
      cases flow with
      | normal => exact h.forEach item ref walk body
      | leave | result _ => exact keepsNames_pure _

theorem namesKept (n : Nat) : NamesKept n := by
  induction n with
  | zero => exact namesKept_zero
  | succ n ih =>
      exact
        { expr := ih.expr_succ
          exprs := ih.exprs_succ
          arguments := ih.arguments_succ
          call := ih.call_succ
          stmt := ih.stmt_succ
          stmts := ih.stmts_succ
          body := ih.body_succ
          loop := ih.loop_succ
          forEach := ih.forEach_succ }

/-- No name is leaked into a scope or lost from it. An expression leaves the
names of every frame as they were, in spelling and order; a statement leaves
those of every outer frame, and the innermost frame gains at most the target of
an assignment to a variable or of a `Read`. Both hold however the run ends. -/
theorem run_keeps_names_in_scopes :
    (∀ (n : Nat) (e : Expr) (m m' : Machine) (r : Except Fault Value),
      evalExpr n e m = some (r, m') → m'.scope.names = m.scope.names) ∧
    (∀ (n : Nat) (s : Stmt) (m m' : Machine) (r : Except Fault Flow),
      runStmt n s m = some (r, m') →
        m'.scope.outerNames = m.scope.outerNames ∧
          (m'.scope.inner.names = m.scope.inner.names ∨
            ∃ name, s.declared? = some name ∧ m.scope.binds name = false ∧
              m'.scope.inner.names = m.scope.inner.names ++ [name])) := by
  constructor
  · intro n e m m' r hrun
    exact (namesKept n).expr e m r m' hrun
  · intro n s m m' r hrun
    exact (namesKept n).stmt s m r m' hrun

/-- A function body that binds `x`, called where the value is assigned to `y`. -/
theorem run_keeps_names_in_scopes_call :
    let body : Block := .mk
      [.assign (.name (.ofString "x")) (.integer 1 .nowhere) .nowhere,
        .result (.name (.ofString "x") .nowhere) .nowhere] .nowhere
    let call : Expr := .result
      (.mk (.function [] body .nowhere) [] .nowhere) .nowhere
    let s : Stmt := .assign (.name (.ofString "y")) call .nowhere
    let m : Machine := .start default none
    (∃ r m', evalExpr 8 call m = some (r, m') ∧
      m'.scope.names = m.scope.names) ∧
    ∃ r m', runStmt 9 s m = some (r, m') ∧
      m'.scope.outerNames = m.scope.outerNames ∧
        (m'.scope.inner.names = m.scope.inner.names ∨
          ∃ name, s.declared? = some name ∧ m.scope.binds name = false ∧
            m'.scope.inner.names = m.scope.inner.names ++ [name]) := by
  intro body call s m
  exact ⟨⟨_, _, rfl, run_keeps_names_in_scopes.1 8 call m _ _ rfl⟩,
    _, _, rfl, run_keeps_names_in_scopes.2 9 s m _ _ rfl⟩

end Eval

end Prose
