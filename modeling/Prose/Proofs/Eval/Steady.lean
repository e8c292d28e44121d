import Prose.Proofs.Eval.Script
import Prose.Proofs.Value.LinkedHeap
import Prose.Session

/-!
What every run respects. An action changes the machine in one of a few ways; a
relation between machines that respects these, and the frames and calls that are
entered and left, holds between the machines before and after any run, however
the run ends.
-/

namespace Prose

namespace Run

variable {α β : Type} {m m' : Machine}

/-- A step that ends gives one answer and leaves one machine. -/
theorem answer_inj {r r' : Except Fault α}
    (h : some (r, m) = some (r', m')) : r = r' ∧ m = m' :=
  Prod.mk.inj (Option.some.inj h)

/-- One step after another: the first ends the run with a fault, or the second
goes on from where it got. -/
theorem bind_eq_some {x : Run α} {f : α → Run β} {r : Except Fault β}
    (h : (x >>= f) m = some (r, m')) :
    (∃ fault, x m = some (.error fault, m') ∧ r = .error fault) ∨
      ∃ a m₁, x m = some (.ok a, m₁) ∧ f a m₁ = some (r, m') := by
  change Run.bind x f m = some (r, m') at h
  rw [Run.bind] at h
  split at h
  · contradiction
  · next fault m₁ hfirst =>
      obtain ⟨rfl, rfl⟩ := Run.answer_inj h
      exact Or.inl ⟨fault, hfirst, rfl⟩
  · next a m₁ hfirst => exact Or.inr ⟨a, m₁, hfirst, h⟩

theorem located_eq_some {span : Span} {x : Run α} {r : Except Fault α}
    (h : Run.located span x m = some (r, m')) :
    ∃ r₁, x m = some (r₁, m') ∧ r = r₁.mapError (·.locate span) := by
  rw [Run.located] at h
  split at h
  · contradiction
  · next fault m₁ hinner =>
      obtain ⟨rfl, rfl⟩ := Run.answer_inj h
      exact ⟨_, hinner, rfl⟩
  · next a m₁ hinner =>
      obtain ⟨rfl, rfl⟩ := Run.answer_inj h
      exact ⟨_, hinner, rfl⟩

end Run

namespace Eval

variable {α : Type} {m m' : Machine}

theorem Setting.around_eq_some {s : Setting} {x : Run α} {r : Except Fault α}
    (h : s.around x m = some (r, m')) :
    (∃ fault, s.enter m = .error fault ∧ r = .error fault ∧ m' = m) ∨
      ∃ inner r₁ m₁, s.enter m = .ok inner ∧ x inner = some (r₁, m₁) ∧
        r = r₁.mapError s.outside ∧ m' = s.leave m₁ := by
  rw [s.around_eq] at h
  split at h
  · next fault henter =>
      obtain ⟨rfl, rfl⟩ := Run.answer_inj h
      exact Or.inl ⟨fault, henter, rfl, rfl⟩
  · next inner henter =>
      obtain ⟨⟨r₁, m₁⟩, hinner, hleft⟩ := Option.map_eq_some_iff.mp h
      obtain ⟨rfl, rfl⟩ := Prod.mk.inj hleft
      exact Or.inr ⟨inner, r₁, m₁, henter, hinner, rfl, rfl⟩

/-! ### What an action does -/

/-- What an action may do to the machine. -/
inductive Change (m : Machine) : Machine → Prop where
  | nothing : Change m m
  | assigned (name : Name) (value : Value) :
      Change m { m with scope := m.scope.assign name value }
  | listMade (values : List Value) :
      Change m { m with heap := (m.heap.alloc (.ofList values)).2 }
  | functionMade : Change m { m with functions := m.functions + 1 }
  | elementAdded (ref : ListRef) (value : Value) :
      Change m { m with heap := m.heap.modify ref (·.push value) }
  | elementSet (ref : ListRef) (i : Int) (value : Value) (c : Chain Value)
      (h : (m.heap.get ref).set? i value = some c) :
      Change m { m with heap := m.heap.put ref c }
  | elementRemoved (ref : ListRef) (i : Int) (value : Value) (c : Chain Value)
      (h : (m.heap.get ref).remove? i = some (value, c)) :
      Change m { m with heap := m.heap.put ref c }
  | printed (text : String) :
      Change m { m with output := m.output ++ text ++ "\n" }
  | inputRead (input : Input) : Change m { m with input := input }

theorem change_stepVariable {name : Name} {delta : Int} {operation : String}
    {r : Except Fault Unit}
    (h : stepVariable name delta operation m = some (r, m')) : Change m m' := by
  rcases Run.bind_eq_some h with ⟨fault, hfound, _⟩ | ⟨value, m₁, hfound, h⟩
  · obtain ⟨_, rfl⟩ := Run.answer_inj hfound
    exact .nothing
  · obtain ⟨_, rfl⟩ := Run.answer_inj hfound
    cases value with
    | integer n =>
        rcases Run.bind_eq_some h with ⟨fault, hnext, _⟩ | ⟨next, m₂, hnext, ⟨⟩⟩
        · obtain ⟨_, rfl⟩ := Run.answer_inj hnext
          exact .nothing
        · obtain ⟨_, rfl⟩ := Run.answer_inj hnext
          exact .assigned name next
    | real _ | text _ | truth _ | list _ | function _ =>
        cases h
        exact .nothing

/-- Reading, and then work that leaves the machine alone. -/
theorem change_fromInput {β : Type} {read : Input → Except Fault α × Input}
    {f : α → Run β} {r : Except Fault β}
    (hf : ∀ a m r m', f a m = some (r, m') → m' = m)
    (h : (Run.fromInput read >>= f) m = some (r, m')) : Change m m' := by
  rcases Run.bind_eq_some h with ⟨fault, hread, _⟩ | ⟨a, m₁, hread, h⟩
  · obtain ⟨_, rfl⟩ := Run.answer_inj hread
    exact .inputRead _
  · obtain ⟨_, rfl⟩ := Run.answer_inj hread
    rw [hf _ _ _ _ h]
    exact .inputRead _

theorem change_readValue {type : Option ReadType} {r : Except Fault Value}
    (h : readValue type m = some (r, m')) : Change m m' := by
  rcases Run.bind_eq_some h with ⟨fault, hkind, _⟩ | ⟨kind, m₁, hkind, h⟩
  · obtain ⟨_, rfl⟩ := Run.answer_inj hkind
    exact .nothing
  · obtain ⟨_, rfl⟩ := Run.answer_inj hkind
    cases kind with
    | line =>
        apply change_fromInput _ h
        rintro line m r m' ⟨⟩
        rfl
    | integer | real | truth =>
        apply change_fromInput _ h
        intro word m r m' hvalue
        generalize readWord? _ word = found at hvalue
        cases found <;> (cases hvalue; rfl)

/-- An action makes one change. -/
theorem Action.change {a : Action α} {r : Except Fault α}
    (h : a.run m = some (r, m')) : Change m m' := by
  cases a with
  | fail cause => cases h; exact .nothing
  | truth e value | list e value | integer e value | function e value =>
      cases value <;> cases h <;> exact .nothing
  | lookup name => cases h; exact .nothing
  | assign name value => cases h; exact .assigned name value
  | newList values => cases h; exact .listMade values
  | newFunction params body => cases h; exact .functionMade
  | operate op left right => cases h; exact .nothing
  | add ref value => cases h; exact .elementAdded ref value
  | set ref index value =>
      change setElement ref index value m = _ at h
      unfold setElement at h
      dsimp only at h
      split at h
      · next c hset => cases h; exact .elementSet ref _ value c hset
      · cases h; exact .nothing
  | remove ref index =>
      change removeElement ref index m = _ at h
      unfold removeElement at h
      dsimp only at h
      split at h
      · next value c hremove => cases h; exact .elementRemoved ref _ value c hremove
      · cases h; exact .nothing
  | count name delta operation => exact change_stepVariable h
  | read type => exact change_readValue h
  | print text => cases h; exact .printed _
  | bind call params args => cases h; exact .nothing
  | isOutside => cases h; exact .nothing
  | next ref walk => cases h; exact .nothing

/-! ### What a run does -/

/-- A relation that holds between machines before and after changes and between
those around a setting if it does inside. -/
structure Steady (R : Machine → Machine → Prop) : Prop where
  refl : ∀ m, R m m
  trans : ∀ {m₁ m₂ m₃}, R m₁ m₂ → R m₂ m₃ → R m₁ m₃
  change : ∀ {m m'}, Change m m' → R m m'
  around : ∀ (s : Setting) {m inner m'}, s.enter m = .ok inner →
    R inner m' → R m (s.leave m')

namespace Steady

variable {R : Machine → Machine → Prop}

theorem script (hR : Steady R) {n : Nat}
    (htask : ∀ {α : Type} (t : Task α) {m m' : Machine} {r : Except Fault α},
      t.run n m = some (r, m') → R m m')
    (x : Script α) {r : Except Fault α} (h : x.run n m = some (r, m')) :
    R m m' := by
  induction x generalizing m m' with
  | give a => cases h; exact hR.refl _
  | act action => exact hR.change (Action.change h)
  | perform s t =>
      rcases Setting.around_eq_some h with
        ⟨fault, _, _, rfl⟩ | ⟨inner, r₁, m₁, henter, hinner, _, rfl⟩
      · exact hR.refl _
      · exact hR.around s henter (htask t hinner)
  | andThen first rest ihfirst ihrest =>
      rcases Run.bind_eq_some h with ⟨fault, hfirst, _⟩ | ⟨a, m₁, hfirst, hrest⟩
      · exact ihfirst hfirst
      · exact hR.trans (ihfirst hfirst) (ihrest a hrest)
  | located span inner ih =>
      obtain ⟨r₁, hinner, _⟩ := Run.located_eq_some h
      exact ih hinner

theorem task (hR : Steady R) {n : Nat} (t : Task α) {r : Except Fault α}
    (h : t.run n m = some (r, m')) : R m m' := by
  induction n generalizing α m m' with
  | zero =>
      rw [t.run_zero] at h
      contradiction
  | succ n ih =>
      rw [t.run_succ] at h
      exact hR.script (fun t => ih t) t.script h

end Steady

/-! ### The stack of calls -/

theorem frames_of_push {calls pushed : CallStack} {frame : CallFrame}
    (h : calls.push frame = .ok pushed) :
    pushed = { calls with frames := frame :: calls.frames } := by
  unfold CallStack.push at h
  split at h
  · exact (Except.ok.inj h).symm
  · split at h
    · contradiction
    · exact (Except.ok.inj h).symm

theorem Setting.enter_call_eq_ok {c : Call} {f : Frame} {inner : Machine}
    (h : (Setting.call c f).enter m = .ok inner) :
    inner = { m with
      calls := { m.calls with frames := c.frame :: m.calls.frames }
      scope := m.scope.enter f } := by
  rw [enter] at h
  cases hpush : m.calls.push c.frame with
  | error fault =>
      rw [hpush] at h
      contradiction
  | ok pushed =>
      rw [hpush] at h
      rw [← frames_of_push hpush]
      exact (Except.ok.inj h).symm

theorem steady_calls : Steady fun m m' => m'.calls = m.calls where
  refl _ := rfl
  trans h₁ h₂ := h₂.trans h₁
  change h := by cases h <;> rfl
  around s m inner m' henter h := by
    cases s with
    | here => cases henter; exact h
    | frame f => cases henter; exact h
    | call c f =>
        obtain rfl := Setting.enter_call_eq_ok henter
        simp only [Setting.leave, h, CallStack.pop]

/-- However a run ends, the calls it began are over. -/
theorem Task.calls_eq {n : Nat} {t : Task α} {r : Except Fault α}
    (h : t.run n m = some (r, m')) : m'.calls = m.calls := by
  exact steady_calls.task t h

theorem Script.calls_eq {n : Nat} {x : Script α} {r : Except Fault α}
    (h : x.run n m = some (r, m')) : m'.calls = m.calls := by
  exact steady_calls.script (fun t => Task.calls_eq) x h

/-! ### The heap -/

theorem steady_heap :
    Steady fun m m' => m.heap.Linked → m'.heap.Linked where
  refl _ h := h
  trans h₁ h₂ h := h₂ (h₁ h)
  change hchange h := by
    cases hchange with
    | listMade values => exact h.alloc values
    | elementAdded ref value => exact h.modify_push ref value
    | elementSet ref i value c hset =>
        obtain ⟨cells, hcells⟩ := h ref
        exact h.put ref (hcells.of_set? hset)
    | elementRemoved ref i value c hremove =>
        obtain ⟨cells, hcells⟩ := h ref
        exact h.put ref (hcells.of_remove? hremove)
    | nothing | assigned _ _ | functionMade | printed _ | inputRead _ => exact h
  around s m inner m' henter hinner h := by
    cases s with
    | here => cases henter; exact hinner h
    | frame f => cases henter; exact hinner h
    | call c f =>
        obtain rfl := Setting.enter_call_eq_ok henter
        exact hinner h

end Eval

/-! ### Programs -/

theorem runStmt_of_runTopLevel {n : Nat} {stmt : Stmt} {m m' : Machine}
    {r : Except Fault Completion} (h : runTopLevel n stmt m = some (r, m')) :
    ∃ r₁, Eval.runStmt n stmt m = some (r₁, m') := by
  unfold runTopLevel at h
  split at h
  · contradiction
  · next flow m₁ hrun =>
      cases h
      exact ⟨_, hrun⟩
  · next fault m₁ hrun =>
      cases h
      exact ⟨_, hrun⟩

namespace Eval.Steady

variable {R : Machine → Machine → Prop} {m m' : Machine} {n : Nat}

theorem execute (hR : Steady R) {statement : Layout.Statement}
    {r : Except Problem Completion}
    (h : Prose.execute n statement m = some (r, m')) : R m m' := by
  have htop : ∀ {stmt r₁ m₁}, runTopLevel n stmt m = some (r₁, m₁) →
      R m m₁ := by
    intro stmt r₁ m₁ htop
    obtain ⟨_, hrun⟩ := runStmt_of_runTopLevel htop
    exact hR.task (.stmt stmt) hrun
  unfold Prose.execute at h
  split at h
  · cases h
    exact hR.refl m
  · split at h
    · contradiction
    · next hrun =>
        cases h
        exact htop hrun
    · next hrun =>
        cases h
        exact htop hrun

/-- Reading a statement takes lines of the input at most. -/
theorem next (hR : Steady R) (p : Program) (m : Machine) :
    R m (p.next m).2.2 := by
  unfold Program.next
  split
  · exact hR.refl m
  · exact hR.change (.inputRead _)
  · exact hR.refl m

/-- What a statement respects, a program does, however it ends. -/
theorem program (hR : Steady R) {p : Program} {ended : Program.Ended}
    (h : p.run n m = some ended) : R m ended.machine := by
  induction n generalizing p m with
  | zero => cases h
  | succ n ih =>
      have hnext := hR.next p m
      rw [Program.run] at h
      generalize p.next m = read at h hnext
      obtain ⟨error | _ | statement, p₁, m₁⟩ := read
      · cases h
        exact hnext
      · cases h
        exact hnext
      · dsimp only at h hnext
        split at h
        · contradiction
        · next m₂ hexecute =>
            exact hR.trans (hR.trans hnext (hR.execute hexecute)) (ih h)
        · next m₂ hexecute =>
            cases h
            exact hR.trans hnext (hR.execute hexecute)
        · next problem m₂ hexecute =>
            cases h
            exact hR.trans hnext (hR.execute hexecute)

end Eval.Steady

/-- The lists of a program stay in good shape, however the program ends. -/
theorem Program.heap_linked_of_run {n : Nat} {p : Program} {m : Machine}
    {ended : Ended} (h : p.run n m = some ended) (hheap : m.heap.Linked) :
    ended.machine.heap.Linked :=
  Eval.steady_heap.program h hheap

/-- A machine that has run nothing has no lists, so nothing need be asked of it. -/
theorem Program.heap_linked_of_start {n : Nat} {p : Program} {input : Input}
    {limit : Option Nat} {ended : Ended}
    (h : p.run n (.start input limit) = some ended) : ended.machine.heap.Linked :=
  heap_linked_of_run h Heap.linked_empty

end Prose
