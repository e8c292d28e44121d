import Prose.Proofs.Eval.Script
import Prose.Session

/-!
The number of steps a run is allowed. A run that ends within some number of
steps ends in the same way within any greater number, so how a program ends does
not depend on the number it was allowed.
-/

namespace Prose

/-- Whenever the first step ends, the second one ends in the same way. -/
def Run.Within {α : Type} (x y : Run α) : Prop :=
  ∀ (m : Machine) (ended : Except Fault α × Machine),
    x m = some ended → y m = some ended

namespace Run.Within

variable {α β : Type} {x y : Run α}

theorem bind {f g : α → Run β} (hx : x.Within y)
    (hf : ∀ a, (f a).Within (g a)) : (x >>= f).Within (y >>= g) := by
  intro m ended h
  change Run.bind x f m = some ended at h
  change Run.bind y g m = some ended
  rw [Run.bind] at h ⊢
  cases hfirst : x m with
  | none =>
      rw [hfirst] at h
      cases h
  | some first =>
      rw [hfirst] at h
      rw [hx m first hfirst]
      obtain ⟨fault | a, m₁⟩ := first
      · exact h
      · exact hf a m₁ ended h

theorem located (hx : x.Within y) (span : Span) :
    (Run.located span x).Within (Run.located span y) := by
  intro m ended h
  rw [Run.located] at h ⊢
  cases hfirst : x m with
  | none =>
      rw [hfirst] at h
      cases h
  | some first =>
      rw [hfirst] at h
      rw [hx m first hfirst]
      exact h

theorem around (hx : x.Within y) (s : Eval.Setting) :
    (s.around x).Within (s.around y) := by
  intro m ended h
  rw [s.around_eq] at h ⊢
  cases hentered : s.enter m with
  | error fault =>
      rw [hentered] at h
      exact h
  | ok inner =>
      rw [hentered] at h
      obtain ⟨first, hfirst, hended⟩ := Option.map_eq_some_iff.1 h
      simp only [hx inner first hfirst, Option.map_some, hended]

end Run.Within

namespace Eval

theorem Script.run_within {n n' : Nat}
    (htask : ∀ {α : Type} (t : Task α), (t.run n).Within (t.run n'))
    {α : Type} (s : Script α) : (s.run n).Within (s.run n') := by
  induction s with
  | give a => exact fun _ _ h => h
  | act action => exact fun _ _ h => h
  | perform setting task => exact (htask task).around setting
  | andThen first rest ihFirst ihRest => exact ihFirst.bind ihRest
  | located span inner ih => exact ih.located span

theorem Task.run_within_succ (n : Nat) {α : Type} (t : Task α) :
    (t.run n).Within (t.run (n + 1)) := by
  induction n generalizing α with
  | zero =>
      intro m ended h
      rw [run_zero] at h
      cases h
  | succ n ih =>
      rw [run_succ, run_succ]
      exact t.script.run_within fun t => ih t

end Eval

/-! ### Programs -/

theorem runTopLevel_succ {n : Nat} {stmt : Stmt} {m : Machine}
    {ended : Except Fault Completion × Machine}
    (h : runTopLevel n stmt m = some ended) :
    runTopLevel (n + 1) stmt m = some ended := by
  rw [runTopLevel] at h ⊢
  cases hrun : Eval.runStmt n stmt m with
  | none =>
      rw [hrun] at h
      cases h
  | some first =>
      rw [hrun] at h
      rw [show Eval.runStmt (n + 1) stmt m = some first from
        Eval.Task.run_within_succ n (.stmt stmt) m first hrun]
      exact h

theorem execute_succ {n : Nat} {statement : Layout.Statement} {m : Machine}
    {ended : Except Problem Completion × Machine}
    (h : execute n statement m = some ended) :
    execute (n + 1) statement m = some ended := by
  rw [execute] at h ⊢
  cases hparse : parseText statement.text with
  | error e =>
      rw [hparse] at h
      exact h
  | ok stmt =>
      rw [hparse] at h
      dsimp only at h ⊢
      cases hrun : runTopLevel n stmt m with
      | none =>
          rw [hrun] at h
          cases h
      | some first =>
          rw [hrun] at h
          rw [runTopLevel_succ hrun]
          exact h

theorem execute_of_le {n n' : Nat} (hle : n ≤ n')
    {statement : Layout.Statement} {m : Machine}
    {ended : Except Problem Completion × Machine}
    (h : execute n statement m = some ended) :
    execute n' statement m = some ended := by
  induction hle with
  | refl => exact h
  | step _ ih => exact execute_succ ih

namespace Program

theorem run_succ_of_run {n : Nat} {p : Program} {m : Machine} {e : Ended}
    (h : p.run n m = some e) : p.run (n + 1) m = some e := by
  induction n generalizing p m with
  | zero => cases h
  | succ n ih =>
      rw [run] at h ⊢
      generalize p.next m = read at h ⊢
      rcases read with ⟨error | _ | statement, p, m⟩
      · exact h
      · exact h
      · dsimp only at h ⊢
        cases hexecute : execute n statement m with
        | none =>
            rw [hexecute] at h
            cases h
        | some ended =>
            rw [hexecute] at h
            rw [execute_succ hexecute]
            obtain ⟨problem | _ | _, m⟩ := ended
            · exact h
            · exact ih h
            · exact h

/-- A program that ends within some number of steps does so within more. -/
theorem run_add {n : Nat} {p : Program} {m : Machine} {e : Ended}
    (h : p.run n m = some e) (k : Nat) : p.run (n + k) m = some e := by
  induction k with
  | zero => exact h
  | succ k ih => exact run_succ_of_run ih

/-- A program ends in one way, however many steps it is allowed. -/
theorem run_unique {n n' : Nat} {p : Program} {m : Machine} {e e' : Ended}
    (h : p.run n m = some e) (h' : p.run n' m = some e') : e = e' := by
  have hboth := run_add h n'
  rw [Nat.add_comm, run_add h' n] at hboth
  exact (Option.some.inj hboth).symm

end Program

end Prose
