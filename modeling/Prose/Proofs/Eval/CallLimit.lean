import Prose.Proofs.Eval.FreshFaults
import Prose.Proofs.Eval.MoreSteps

/-!
What the limit on calls does. Nothing but beginning a call looks at the limit,
so two runs that differ only in their limits go on in lockstep until a call is
refused under the lower one. That run is cut short there: the fault leaves all
calls and statements around it and nothing more is printed, while the other run
may go on and print more.
-/

namespace Prose

/-- The first limit is no greater than the second one. No limit is the
greatest. -/
def CallStack.LimitLe (limit limit' : Option Nat) : Prop :=
  ∀ k', limit' = some k' → ∃ k, limit = some k ∧ k ≤ k'

def Machine.withLimit (m : Machine) (limit : Option Nat) : Machine :=
  { m with calls := { m.calls with limit := limit } }

/-- Whether a call was refused because too many were running. -/
def Fault.isTooDeep (f : Fault) : Bool :=
  match f.cause with
  | .callDepthExceeded _ => true
  | _ => false

/-- Whether a program failed because too many calls were running. -/
def Problem.isTooDeep : Problem → Bool
  | fault f _ => f.isTooDeep
  | _ => false

/-- Whether a program ended because too many calls were running. -/
def Program.Ended.isTooDeep (e : Program.Ended) : Bool :=
  match e.outcome with
  | .error problem => problem.isTooDeep
  | .ok _ => false

/-- The second machine has printed what the first one has, and maybe more. -/
def Machine.PrintsOn (m m' : Machine) : Prop :=
  ∃ more, m'.output = m.output ++ more

/-! ### Output -/

theorem Machine.PrintsOn.refl (m : Machine) : m.PrintsOn m :=
  ⟨"", by simp⟩

theorem Machine.PrintsOn.trans {m₁ m₂ m₃ : Machine} (h₁ : m₁.PrintsOn m₂)
    (h₂ : m₂.PrintsOn m₃) : m₁.PrintsOn m₃ := by
  obtain ⟨more₁, h₁⟩ := h₁
  obtain ⟨more₂, h₂⟩ := h₂
  exact ⟨more₁ ++ more₂, by rw [h₂, h₁, String.append_assoc]⟩

/-- What has been printed stays. -/
theorem Eval.steady_output : Eval.Steady Machine.PrintsOn where
  refl := .refl
  trans := .trans
  change h := by
    cases h with
    | printed text => exact ⟨text ++ "\n", String.append_assoc⟩
    | _ => exact .refl _
  around s m inner m' henter h := by
    cases s with
    | here => cases henter; exact h
    | frame f => cases henter; exact h
    | call c f =>
        obtain rfl := Eval.Setting.enter_call_eq_ok henter
        exact h

/-! ### What does not look at the limit -/

/-- The step does the same whatever the limit is, and leaves the limit alone. -/
def Run.IgnoresLimit {α : Type} (x : Run α) : Prop :=
  ∀ m limit, x (m.withLimit limit) =
    (x m).map fun p => (p.1, p.2.withLimit limit)

namespace Run.IgnoresLimit

variable {α β : Type} {x : Run α} {f : α → Run β}

theorem pure (a : α) : IgnoresLimit (Pure.pure a : Run α) :=
  fun _ _ => rfl

theorem ofExcept (r : Except Fault α) : IgnoresLimit (Run.ofExcept r) :=
  fun _ _ => rfl

theorem bind (hx : x.IgnoresLimit) (hf : ∀ a, (f a).IgnoresLimit) :
    (x >>= f).IgnoresLimit := by
  intro m limit
  change Run.bind x f _ = Option.map _ (Run.bind x f m)
  rw [Run.bind, Run.bind, hx]
  rcases x m with _ | ⟨fault | a, m₁⟩
  · rfl
  · rfl
  · exact hf a m₁ limit

end Run.IgnoresLimit

namespace Eval

variable {α β : Type} {n : Nat}

theorem stepVariable_ignoresLimit (name : Name) (delta : Int)
    (operation : String) :
    (stepVariable name delta operation).IgnoresLimit := by
  refine .bind (fun _ _ => rfl) fun value => ?_
  cases value with
  | integer n => exact .bind (.ofExcept _) fun _ _ _ => rfl
  | _ => exact fun _ _ => rfl

theorem readValue_ignoresLimit (type : Option ReadType) :
    (readValue type).IgnoresLimit := by
  refine .bind (.ofExcept _) fun kind => ?_
  cases kind with
  | line => exact .bind (fun _ _ => rfl) fun _ => .pure _
  | integer | real | truth =>
      refine .bind (fun _ _ => rfl) fun word => ?_
      generalize readWord? _ word = found
      cases found with
      | some value => exact .pure value
      | none => exact fun _ _ => rfl

theorem Action.ignoresLimit (a : Action α) : a.run.IgnoresLimit := by
  cases a with
  | truth e value | list e value | integer e value | function e value =>
      cases value <;> exact fun _ _ => rfl
  | set ref index value =>
      intro m limit
      simp only [Action.run, setElement, Machine.withLimit]
      cases (m.heap.get ref).set? index.toInt value <;> rfl
  | remove ref index =>
      intro m limit
      simp only [Action.run, removeElement, Machine.withLimit]
      cases (m.heap.get ref).remove? index.toInt <;> rfl
  | count name delta operation =>
      exact stepVariable_ignoresLimit name delta operation
  | read type => exact readValue_ignoresLimit type
  | _ => exact fun _ _ => rfl

end Eval

/-! ### Lockstep -/

/-- How a run under a lower limit stands to the run under a higher one: they are
in lockstep, or the first was cut short by a fault of depth and the second has
printed at least as much, if it ended. -/
inductive Cut {ε α : Type} (isTooDeep : ε → Bool) (limit limit' : Option Nat) :
    Option (Except ε α × Machine) → Option (Except ε α × Machine) → Prop where
  | unfinished : Cut isTooDeep limit limit' none none
  | same (r : Except ε α) (m : Machine) : Cut isTooDeep limit limit'
      (some (r, m.withLimit limit)) (some (r, m.withLimit limit'))
  | short {e : ε} {m : Machine} {ended : Option (Except ε α × Machine)}
      (hdeep : isTooDeep e = true)
      (hprints : ∀ r m', ended = some (r, m') → m.PrintsOn m') :
      Cut isTooDeep limit limit' (some (.error e, m)) ended

/-- Under the lower limit the step is at most cut short. -/
def Run.CutShort {α : Type} (limit limit' : Option Nat) (x : Run α) : Prop :=
  ∀ m : Machine, Cut Fault.isTooDeep limit limit' (x (m.withLimit limit))
    (x (m.withLimit limit'))

/-- The step only adds to what has been printed. -/
def Run.Prints {α : Type} (x : Run α) : Prop :=
  ∀ m r m', x m = some (r, m') → m.PrintsOn m'

namespace Run

variable {α β : Type} {limit limit' : Option Nat} {x : Run α}

theorem IgnoresLimit.cutShort (hx : x.IgnoresLimit) :
    x.CutShort limit limit' := by
  intro m
  rw [hx m limit, hx m limit']
  rcases x m with _ | ⟨r, m₁⟩
  · exact .unfinished
  · exact .same r m₁

theorem CutShort.bind {f : α → Run β} (hx : x.CutShort limit limit')
    (hf : ∀ a, (f a).CutShort limit limit') (hprints : ∀ a, (f a).Prints) :
    (x >>= f).CutShort limit limit' := by
  intro m
  change Cut _ _ _ (Run.bind x f _) (Run.bind x f _)
  rw [Run.bind, Run.bind]
  have hfirst := hx m
  generalize x (m.withLimit limit) = low at hfirst
  generalize x (m.withLimit limit') = high at hfirst
  cases hfirst with
  | unfinished => exact .unfinished
  | same r m₁ =>
      cases r with
      | error fault => exact .same _ m₁
      | ok a => exact hf a m₁
  | short hdeep hmore =>
      -- The first run is over; whatever the second one does adds to its output.
      refine .short hdeep fun r m₃ h => ?_
      rcases high with _ | ⟨fault | a, m₂⟩
      · cases h
      · cases h
        exact hmore _ _ rfl
      · exact (hmore _ _ rfl).trans (hprints a m₂ r m₃ h)

end Run

/-- What is done to the outcome afterwards keeps the runs in lockstep, if it
keeps faults of depth and what has been printed. -/
theorem Cut.map {ε ε' α β : Type} {isTooDeep : ε → Bool}
    {isTooDeep' : ε' → Bool} {limit limit' : Option Nat}
    {low high : Option (Except ε α × Machine)}
    (h : Cut isTooDeep limit limit' low high) {f : Except ε α → Except ε' β}
    (hf : ∀ e, isTooDeep e = true →
      ∃ e', f (.error e) = .error e' ∧ isTooDeep' e' = true)
    {g : Machine → Machine}
    (hlimit : ∀ m limit, g (m.withLimit limit) = (g m).withLimit limit)
    (houtput : ∀ m, (g m).output = m.output) :
    Cut isTooDeep' limit limit' (low.map fun p => (f p.1, g p.2))
      (high.map fun p => (f p.1, g p.2)) := by
  cases h with
  | unfinished => exact .unfinished
  | same r m =>
      simp only [Option.map_some, hlimit]
      exact .same (f r) (g m)
  | @short e m ended hdeep hprints =>
      obtain ⟨e', he', hdeep'⟩ := hf e hdeep
      simp only [Option.map_some, he']
      refine .short hdeep' fun r m' hended => ?_
      obtain ⟨⟨r₁, m₁⟩, rfl, hmapped⟩ := Option.map_eq_some_iff.1 hended
      cases hmapped
      obtain ⟨more, hmore⟩ := hprints r₁ m₁ rfl
      exact ⟨more, by rw [houtput, houtput, hmore]⟩

namespace Run

variable {α : Type} {limit limit' : Option Nat} {x : Run α}

theorem located_eq (span : Span) (x : Run α) (m : Machine) :
    Run.located span x m =
      (x m).map fun p => (p.1.mapError (·.locate span), p.2) := by
  rw [Run.located]
  rcases x m with _ | ⟨_ | _, _⟩ <;> rfl

theorem CutShort.located (hx : x.CutShort limit limit') (span : Span) :
    (Run.located span x).CutShort limit limit' := by
  intro m
  rw [located_eq, located_eq]
  refine (hx m).map (fun fault hdeep => ?_) (fun _ _ => rfl) fun _ => rfl
  refine ⟨fault.locate span, rfl, ?_⟩
  rcases fault.locate_cases span with hsame | ⟨_, _, hplaced⟩
  · rw [hsame, hdeep]
  · rw [hplaced]
    exact hdeep

end Run

/-- A call is refused under the lower limit, or it begins under both. -/
theorem CallStack.push_cases {limit limit' : Option Nat}
    (hle : LimitLe limit limit') (frames : List CallFrame) (frame : CallFrame) :
    (∃ fault, (⟨frames, limit⟩ : CallStack).push frame = .error fault ∧
      fault.isTooDeep = true) ∨
    (⟨frames, limit⟩ : CallStack).push frame = .ok ⟨frame :: frames, limit⟩ ∧
      (⟨frames, limit'⟩ : CallStack).push frame =
        .ok ⟨frame :: frames, limit'⟩ := by
  have hroom (k : Nat) (hk : frames.length < k) :
      (⟨frames, some k⟩ : CallStack).push frame =
        .ok ⟨frame :: frames, some k⟩ :=
    if_neg (Nat.not_le_of_lt hk)
  cases limit' with
  | none =>
      cases limit with
      | none => exact Or.inr ⟨rfl, rfl⟩
      | some k =>
          by_cases hk : frames.length < k
          · exact Or.inr ⟨hroom k hk, rfl⟩
          · exact Or.inl ⟨_, if_pos (Nat.le_of_not_lt hk), rfl⟩
  | some k' =>
      obtain ⟨k, rfl, hkk'⟩ := hle k' rfl
      by_cases hk : frames.length < k
      · exact Or.inr ⟨hroom k hk, hroom k' (Nat.lt_of_lt_of_le hk hkk')⟩
      · exact Or.inl ⟨_, if_pos (Nat.le_of_not_lt hk), rfl⟩

namespace Eval

variable {α β : Type} {n : Nat} {limit limit' : Option Nat}

theorem Setting.prints_around (s : Setting) {x : Run α} (hx : x.Prints) :
    (s.around x).Prints := by
  intro m r m' h
  rcases Setting.around_eq_some h with
    ⟨_, _, _, rfl⟩ | ⟨inner, r₁, m₁, henter, hinner, _, rfl⟩
  · exact .refl _
  · exact steady_output.around s henter (hx inner r₁ m₁ hinner)

/-- A fault of depth stays one when it leaves a setting. -/
theorem Setting.isTooDeep_outside (s : Setting) {fault : Fault}
    (h : fault.isTooDeep = true) : (s.outside fault).isTooDeep = true := by
  cases s with
  | here | frame f => exact h
  | call c f =>
      rw [outside, Fault.leaveCall]
      split <;> exact h

/-- A setting is refused under the lower limit, or it is entered under both. -/
theorem Setting.enter_cases (hle : CallStack.LimitLe limit limit')
    (s : Setting) (m : Machine) :
    (∃ fault, s.enter (m.withLimit limit) = .error fault ∧
      fault.isTooDeep = true) ∨
    ∃ inner : Machine,
      s.enter (m.withLimit limit) = .ok (inner.withLimit limit) ∧
      s.enter (m.withLimit limit') = .ok (inner.withLimit limit') := by
  cases s with
  | here => exact Or.inr ⟨m, rfl, rfl⟩
  | frame f => exact Or.inr ⟨{ m with scope := m.scope.enter f }, rfl, rfl⟩
  | call c f =>
      rcases CallStack.push_cases hle m.calls.frames c.frame with
        ⟨fault, hrefused, hdeep⟩ | ⟨hpush, hpush'⟩
      · refine Or.inl ⟨fault, ?_, hdeep⟩
        simp only [enter, Machine.withLimit, hrefused, Except.map]
      · refine Or.inr ⟨{ m with
          calls := { m.calls with frames := c.frame :: m.calls.frames }
          scope := m.scope.enter f }, ?_, ?_⟩
        · simp only [enter, Machine.withLimit, hpush, Except.map]
        · simp only [enter, Machine.withLimit, hpush', Except.map]

theorem Setting.leave_withLimit (s : Setting) (m : Machine)
    (limit : Option Nat) :
    s.leave (m.withLimit limit) = (s.leave m).withLimit limit := by
  obtain ⟨_, _, _, ⟨frames, _⟩, _, _⟩ := m
  cases s with
  | here | frame f => rfl
  | call c f => cases frames <;> rfl

theorem cutShort_around (hle : CallStack.LimitLe limit limit') {x : Run α}
    (hx : x.CutShort limit limit') (hprints : x.Prints) (s : Setting) :
    (s.around x).CutShort limit limit' := by
  intro m
  rcases s.enter_cases hle m with ⟨fault, hrefused, hdeep⟩ | ⟨inner, hlow, hhigh⟩
  · have hlow : s.around x (m.withLimit limit) =
        some (.error fault, m.withLimit limit) := by
      rw [Setting.around_eq, hrefused]
    rw [hlow]
    refine .short hdeep fun r m' h => ?_
    exact s.prints_around hprints (m.withLimit limit') r m' h
  · rw [Setting.around_eq, Setting.around_eq, hlow, hhigh]
    refine (hx inner).map ?_ s.leave_withLimit ?_
    · exact fun fault hdeep => ⟨_, rfl, s.isTooDeep_outside hdeep⟩
    · intro m₁
      cases s <;> rfl

theorem Script.prints (x : Script α) : (x.run n).Prints :=
  fun _ _ _ h => steady_output.script (fun t => steady_output.task t) x h

theorem Script.cutShort (hle : CallStack.LimitLe limit limit')
    (htask : ∀ {α : Type} (t : Task α), (t.run n).CutShort limit limit')
    (x : Script α) : (x.run n).CutShort limit limit' := by
  induction x with
  | give a => exact (Run.IgnoresLimit.pure a).cutShort
  | act a => exact a.ignoresLimit.cutShort
  | perform s t =>
      exact cutShort_around hle (htask t)
        (fun _ _ _ h => steady_output.task t h) s
  | andThen first rest ihfirst ihrest =>
      exact ihfirst.bind ihrest fun a => (rest a).prints
  | located span inner ih => exact ih.located span

/-- Under the lower limit a task is at most cut short. -/
theorem Task.cutShort (hle : CallStack.LimitLe limit limit') (n : Nat)
    (t : Task α) : (t.run n).CutShort limit limit' := by
  induction n generalizing α with
  | zero =>
      intro m
      rw [t.run_zero, t.run_zero]
      exact .unfinished
  | succ n ih =>
      rw [t.run_succ]
      exact t.script.cutShort hle fun t => ih t

end Eval

/-! ### Programs -/

variable {limit limit' : Option Nat}

/-- What the outcome of a statement is to the program it is part of. -/
def completionOf : Except Fault Eval.Flow → Except Fault Completion
  | .ok _ => .ok .finished
  | .error fault => if fault.isExit then .ok .exited else .error fault

theorem runTopLevel_eq (n : Nat) (stmt : Stmt) (m : Machine) :
    runTopLevel n stmt m =
      (Eval.runStmt n stmt m).map fun p => (completionOf p.1, p.2) := by
  rw [runTopLevel]
  rcases Eval.runStmt n stmt m with _ | ⟨_ | _, _⟩ <;> rfl

theorem execute_eq {statement : Layout.Statement} {stmt : Stmt}
    (hparse : parseText statement.text = .ok stmt) (n : Nat) (m : Machine) :
    execute n statement m = (runTopLevel n stmt m).map fun p =>
      (p.1.mapError (Problem.fault · statement), p.2) := by
  simp only [execute, hparse]
  rcases runTopLevel n stmt m with _ | ⟨_ | _, _⟩ <;> rfl

theorem Fault.isExit_of_isTooDeep {f : Fault} (h : f.isTooDeep = true) :
    f.isExit = false := by
  unfold isTooDeep at h
  unfold isExit
  split at h
  · next hcause => rw [hcause]
  · cases h

theorem execute_cut (hle : CallStack.LimitLe limit limit') (n : Nat)
    (statement : Layout.Statement) (m : Machine) :
    Cut Problem.isTooDeep limit limit'
      (execute n statement (m.withLimit limit))
      (execute n statement (m.withLimit limit')) := by
  cases hparse : parseText statement.text with
  | error e =>
      simp only [execute, hparse]
      exact .same _ m
  | ok stmt =>
      rw [execute_eq hparse, execute_eq hparse, runTopLevel_eq, runTopLevel_eq]
      have hrun := Eval.Task.cutShort hle n (.stmt stmt) m
      have htop : Cut Fault.isTooDeep limit limit' _ _ :=
        hrun.map (f := completionOf) (g := id)
          (fun fault hdeep => ⟨fault, if_neg (by
            rw [fault.isExit_of_isTooDeep hdeep]
            exact Bool.false_ne_true), hdeep⟩)
          (fun _ _ => rfl) fun _ => rfl
      exact htop.map (f := Except.mapError (Problem.fault · statement))
        (g := id) (fun fault hdeep => ⟨_, rfl, hdeep⟩) (fun _ _ => rfl)
        fun _ => rfl

namespace Program

theorem next_withLimit (p : Program) (m : Machine) (limit : Option Nat) :
    p.next (m.withLimit limit) =
      ((p.next m).1, (p.next m).2.1, (p.next m).2.2.withLimit limit) := by
  obtain ⟨reader, lines⟩ := p
  obtain ⟨heap, functions, scope, calls, output, input⟩ := m
  cases lines with
  | some lines => rfl
  | none => cases input <;> rfl

/-- A program that ends under the lower limit ends in the same way under the
higher one, or it was cut short. -/
theorem run_same_or_short (hle : CallStack.LimitLe limit limit') {n : Nat}
    {p : Program} {m : Machine} {e : Ended}
    (h : p.run n (m.withLimit limit) = some e) :
    (∃ last : Machine, e.machine = last.withLimit limit ∧
      p.run n (m.withLimit limit') =
        some { e with machine := last.withLimit limit' }) ∨
    e.isTooDeep = true ∧ ∀ e', p.run n (m.withLimit limit') = some e' →
      e.machine.PrintsOn e'.machine := by
  induction n generalizing p m with
  | zero => cases h
  | succ n ih =>
      rw [run, next_withLimit] at h
      rw [run, next_withLimit]
      generalize p.next m = read at h ⊢
      obtain ⟨error | _ | statement, p₁, m₁⟩ := read
      · cases h
        exact Or.inl ⟨m₁, rfl, rfl⟩
      · cases h
        exact Or.inl ⟨m₁, rfl, rfl⟩
      · dsimp only at h ⊢
        have hcut := execute_cut hle n statement m₁
        generalize execute n statement (m₁.withLimit limit) = low at h hcut
        generalize execute n statement (m₁.withLimit limit') = high at hcut ⊢
        cases hcut with
        | unfinished => cases h
        | same r m₂ =>
            rcases r with problem | _ | _
            · cases h
              exact Or.inl ⟨m₂, rfl, rfl⟩
            · exact ih h
            · cases h
              exact Or.inl ⟨m₂, rfl, rfl⟩
        | short hdeep hprints =>
            cases h
            refine Or.inr ⟨hdeep, fun e' he' => ?_⟩
            rcases high with _ | ⟨problem | _ | _, m₂⟩
            · cases he'
            · cases he'
              exact hprints _ _ rfl
            · exact (hprints _ _ rfl).trans (Eval.steady_output.program he')
            · cases he'
              exact hprints _ _ rfl

/-- The limit on calls only cuts runs short. A program that ends under a limit,
and not because of it, ends under any greater limit in the same way: with the
same outcome, output, variables and lists. A program that ends because of the
limit has printed what it prints under a greater one, as far as it got. -/
theorem limit_only_cuts_short (p : Program) (input : Input)
    (hle : CallStack.LimitLe limit limit') {n : Nat} {e : Ended}
    (he : p.run n (.start input limit) = some e) :
    (e.isTooDeep = false → p.run n (.start input limit') =
      some { e with machine := e.machine.withLimit limit' }) ∧
    (e.isTooDeep = true → ∀ n' e', p.run n' (.start input limit') = some e' →
      ∃ more, e'.machine.output = e.machine.output ++ more) := by
  have hstart (limit : Option Nat) :
      Machine.start input limit = (Machine.start input none).withLimit limit :=
    rfl
  rw [hstart limit] at he
  rw [hstart limit']
  constructor
  · intro hdeep
    rcases run_same_or_short hle he with ⟨last, hlast, hrun⟩ | ⟨hshort, _⟩
    · rw [hrun, hlast]
      rfl
    · rw [hdeep] at hshort
      cases hshort
  · intro _ n' e' he'
    -- Both runs are over within `n + n'` steps.
    have hlow := run_add he n'
    have hhigh := run_add he' n
    rw [Nat.add_comm] at hhigh
    rcases run_same_or_short hle hlow with ⟨last, hlast, hrun⟩ | ⟨_, hprints⟩
    · rw [hhigh] at hrun
      cases hrun
      exact ⟨"", by rw [hlast, String.append_empty]; rfl⟩
    · exact hprints e' hhigh

/-- The function `f` prints a number and runs `g`, which prints another one. -/
def twoCallsSource : List Char :=
  ("g is a function:\n  Print 2.\n" ++
    "f is a function:\n  Print 1.\n  Run g.\nRun f.\nPrint 3.\n").toList

/-- One call is not enough for the program, and two are. -/
theorem limit_only_cuts_short_two_calls :
    ∃ low enough free : Ended,
      (ofText twoCallsSource).run 40 (.start .none (some 1)) = some low ∧
      (ofText twoCallsSource).run 40 (.start .none (some 2)) = some enough ∧
      (ofText twoCallsSource).run 50 (.start .none none) = some free ∧
      low.isTooDeep = true ∧ low.machine.output = "1\n" ∧
      (∃ more, free.machine.output = low.machine.output ++ more) ∧
      enough.isTooDeep = false ∧ enough.machine.output = "1\n2\n3\n" ∧
      free = { enough with machine := enough.machine.withLimit none } := by
  have hended (n : Nat) (limit : Option Nat) (deep : Bool) (output : String)
      (h : ((ofText twoCallsSource).run n (.start .none limit)).map
        (fun e => (e.isTooDeep, e.machine.output)) = some (deep, output)) :
      ∃ e, (ofText twoCallsSource).run n (.start .none limit) = some e ∧
        e.isTooDeep = deep ∧ e.machine.output = output := by
    obtain ⟨e, he, hshown⟩ := Option.map_eq_some_iff.1 h
    exact ⟨e, he, congrArg Prod.fst hshown, congrArg Prod.snd hshown⟩
  obtain ⟨low, hlow, hdeep, hlowOutput⟩ :=
    hended 40 (some 1) true "1\n" (by decide +kernel)
  obtain ⟨enough, henough, hnotDeep, henoughOutput⟩ :=
    hended 40 (some 2) false "1\n2\n3\n" (by decide +kernel)
  have hle (k : Nat) : CallStack.LimitLe (some k) none := by
    rintro k' ⟨⟩
  obtain ⟨-, hshort⟩ := limit_only_cuts_short _ .none (hle 1) hlow
  obtain ⟨hsame, -⟩ := limit_only_cuts_short _ .none (hle 2) henough
  have hfree := run_add (hsame hnotDeep) 10
  exact ⟨low, enough, _, hlow, henough, hfree, hdeep, hlowOutput,
    hshort hdeep 50 _ hfree, hnotDeep, henoughOutput, rfl⟩

end Program

end Prose
