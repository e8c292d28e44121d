import Prose.Proofs.Eval.Contained
import Prose.Proofs.Eval.MoreSteps

/-!
How tasks end, whatever number of steps they are allowed. A task that ends does
so in one way. The endings of a script are those of its parts put together, so
the endings of a task are read off its script.
-/

namespace Prose

def Machine.enter (m : Machine) (frame : Frame) : Machine :=
  { m with scope := m.scope.enter frame }

def Machine.leave (m : Machine) : Machine := { m with scope := m.scope.leave }

/-- A step in a frame is done inside, and then the frame is left. -/
theorem Run.inFrame_eq_some_iff {α : Type} {frame : Frame} {x : Run α}
    {m m' : Machine} {r : Except Fault α} :
    Run.inFrame frame x m = some (r, m') ↔
      ∃ m₁, x (m.enter frame) = some (r, m₁) ∧ m' = m₁.leave := by
  rw [Run.inFrame, ← Machine.enter]
  rcases x (m.enter frame) with _ | ⟨r₁, m₁⟩
  · simp
  · simp only [Option.some.injEq, Prod.mk.injEq]
    constructor
    · rintro ⟨rfl, rfl⟩
      exact ⟨m₁, ⟨rfl, rfl⟩, rfl⟩
    · rintro ⟨_, ⟨rfl, rfl⟩, rfl⟩
      exact ⟨rfl, rfl⟩

namespace Eval

variable {α β : Type} {m m' : Machine}

/-- Run on a machine, the task ends with an outcome and leaves a machine. -/
def Task.Ends (t : Task α) (m : Machine) (r : Except Fault α) (m' : Machine) :
    Prop :=
  ∃ n, t.run n m = some (r, m')

/-- Followed on a machine, the script ends with an outcome and leaves a
machine. -/
def Script.Ends (x : Script α) (m : Machine) (r : Except Fault α)
    (m' : Machine) : Prop :=
  ∃ n, x.run n m = some (r, m')

/-! ### Tasks -/

theorem Task.run_within {n n' : Nat} (hle : n ≤ n') (t : Task α) :
    (t.run n).Within (t.run n') := by
  induction hle with
  | refl => exact fun _ _ h => h
  | step _ ih =>
      intro m ended h
      exact t.run_within_succ _ m ended (ih m ended h)

theorem Script.run_of_le {n n' : Nat} (hle : n ≤ n') {x : Script α}
    {ended : Except Fault α × Machine} (h : x.run n m = some ended) :
    x.run n' m = some ended :=
  x.run_within (fun t => t.run_within hle) m ended h

/-- A script ends in one way, however many steps its tasks are allowed. -/
theorem Script.Ends.unique {x : Script α} {r₁ r₂ : Except Fault α}
    {m₁ m₂ : Machine} (h₁ : x.Ends m r₁ m₁) (h₂ : x.Ends m r₂ m₂) :
    r₁ = r₂ ∧ m₁ = m₂ := by
  obtain ⟨n₁, h₁⟩ := h₁
  obtain ⟨n₂, h₂⟩ := h₂
  have hboth := run_of_le (Nat.le_max_left n₁ n₂) h₁
  rw [run_of_le (Nat.le_max_right n₁ n₂) h₂] at hboth
  exact Run.answer_inj hboth.symm

/-- A task ends as its script does. -/
theorem Task.ends_iff {t : Task α} {r : Except Fault α} :
    t.Ends m r m' ↔ t.script.Ends m r m' := by
  constructor
  · rintro ⟨n, h⟩
    cases n with
    | zero =>
        rw [t.run_zero] at h
        cases h
    | succ n => exact ⟨n, t.run_succ n ▸ h⟩
  · rintro ⟨n, h⟩
    exact ⟨n + 1, (t.run_succ n).symm ▸ h⟩

theorem Task.Ends.unique {t : Task α} {r₁ r₂ : Except Fault α}
    {m₁ m₂ : Machine} (h₁ : t.Ends m r₁ m₁) (h₂ : t.Ends m r₂ m₂) :
    r₁ = r₂ ∧ m₁ = m₂ :=
  (Task.ends_iff.1 h₁).unique (Task.ends_iff.1 h₂)

/-- How a task ends is all there is to say about its ending. -/
theorem Task.Ends.iff {t : Task α} {r₁ r : Except Fault α} {m₁ : Machine}
    (h : t.Ends m r₁ m₁) : t.Ends m r m' ↔ r = r₁ ∧ m' = m₁ := by
  constructor
  · exact fun h' => h'.unique h
  · rintro ⟨rfl, rfl⟩
    exact h

/-! ### Scripts -/

namespace Script

theorem ends_pure {a : α} {r : Except Fault α} :
    (Pure.pure a : Script α).Ends m r m' ↔ r = .ok a ∧ m' = m := by
  constructor
  · rintro ⟨n, ⟨⟩⟩
    exact ⟨rfl, rfl⟩
  · rintro ⟨rfl, rfl⟩
    exact ⟨0, rfl⟩

theorem ends_act {a : Action α} {r : Except Fault α} :
    (act a).Ends m r m' ↔ a.run m = some (r, m') :=
  ⟨fun ⟨_, h⟩ => h, fun h => ⟨0, h⟩⟩

theorem ends_here {t : Task α} {r : Except Fault α} :
    (perform .here t).Ends m r m' ↔ t.Ends m r m' :=
  Iff.rfl

/-- A script in two parts: the first ends it with a fault, or the second goes on
from where the first got. -/
theorem ends_bind {x : Script α} {f : α → Script β} {r : Except Fault β} :
    (x >>= f).Ends m r m' ↔
      (∃ fault, x.Ends m (.error fault) m' ∧ r = .error fault) ∨
        ∃ a m₁, x.Ends m (.ok a) m₁ ∧ (f a).Ends m₁ r m' := by
  constructor
  · rintro ⟨n, h⟩
    rcases Run.bind_eq_some h with ⟨fault, hfirst, rfl⟩ | ⟨a, m₁, hfirst, hrest⟩
    · exact Or.inl ⟨fault, ⟨n, hfirst⟩, rfl⟩
    · exact Or.inr ⟨a, m₁, ⟨n, hfirst⟩, n, hrest⟩
  · rintro (⟨fault, ⟨n, hfirst⟩, rfl⟩ | ⟨a, m₁, ⟨n₁, hfirst⟩, n₂, hrest⟩)
    · refine ⟨n, ?_⟩
      change Run.bind (x.run n) _ m = _
      rw [Run.bind, hfirst]
    · refine ⟨max n₁ n₂, ?_⟩
      change Run.bind (x.run _) _ m = _
      rw [Run.bind, run_of_le (Nat.le_max_left n₁ n₂) hfirst]
      exact run_of_le (Nat.le_max_right n₁ n₂) hrest

/-- Once the first part has ended well, the script ends as the second part
does. -/
theorem ends_bind_of_ends {x : Script α} {f : α → Script β} {a : α}
    {m₁ : Machine} (hx : x.Ends m (.ok a) m₁) {r : Except Fault β} :
    (x >>= f).Ends m r m' ↔ (f a).Ends m₁ r m' := by
  rw [ends_bind]
  constructor
  · rintro (⟨_, hfault, _⟩ | ⟨b, m₂, hb, h⟩)
    · cases (hx.unique hfault).1
    · obtain ⟨⟨⟩, rfl⟩ := hx.unique hb
      exact h
  · exact fun h => Or.inr ⟨a, m₁, hx, h⟩

/-- The place that faults are given does not change an outcome that is none. -/
theorem ends_located {x : Script α} {span : Span} {a : α} :
    (located span x).Ends m (.ok a) m' ↔ x.Ends m (.ok a) m' := by
  constructor
  · rintro ⟨n, h⟩
    obtain ⟨r, hinner, hr⟩ := Run.located_eq_some h
    cases r with
    | error fault => cases hr
    | ok b =>
        cases hr
        exact ⟨n, hinner⟩
  · rintro ⟨n, h⟩
    refine ⟨n, ?_⟩
    change Run.located span (x.run n) m = _
    rw [Run.located, h]

theorem ends_frame {t : Task α} {frame : Frame} {r : Except Fault α} :
    (perform (.frame frame) t).Ends m r m' ↔
      ∃ m₁, t.Ends (m.enter frame) r m₁ ∧ m' = m₁.leave := by
  constructor
  · rintro ⟨n, h⟩
    obtain ⟨m₁, hinner, rfl⟩ := Run.inFrame_eq_some_iff.1 h
    exact ⟨m₁, ⟨n, hinner⟩, rfl⟩
  · rintro ⟨m₁, ⟨n, h⟩, rfl⟩
    exact ⟨n, Run.inFrame_eq_some_iff.2 ⟨m₁, h, rfl⟩⟩

theorem ends_perform {s : Setting} {t : Task α} {a : α} {inner m₁ : Machine}
    (henter : s.enter m = .ok inner) (ht : t.Ends inner (.ok a) m₁) :
    (perform s t).Ends m (.ok a) (s.leave m₁) := by
  obtain ⟨n, h⟩ := ht
  refine ⟨n, ?_⟩
  change s.around (t.run n) m = _
  rw [s.around_eq, henter]
  dsimp only
  rw [h]
  rfl

end Script

/-- What depends on a condition, once the condition has given its truth value. -/
theorem Script.ends_condition {condition : Expr} {truth : Bool} {m₁ : Machine}
    (h : (Task.expr condition).Ends m (.ok (.truth truth)) m₁)
    {f : Bool → Script β} {r : Except Fault β} :
    (eval condition >>= fun value =>
      act (.truth condition value) >>= f).Ends m r m' ↔
      (f truth).Ends m₁ r m' := by
  refine (ends_bind_of_ends (ends_here.2 h)).trans ?_
  exact ends_bind_of_ends (ends_act.2 rfl)

/-- A list that an expression gave. -/
theorem Script.ends_list (e : Expr) (ref : ListRef) (m : Machine) :
    (act (.list e (.list ref))).Ends m (.ok ref) m :=
  ends_act.2 rfl

/-! ### Lines -/

/-- A statement that ends without a fault is no `Exit`. -/
theorem Task.Ends.isExit {s : Stmt} {flow : Flow}
    (h : (Task.stmt s).Ends m (.ok flow) m') : s.isExit = false := by
  cases s with
  | exit span =>
      have hscript := Script.ends_located.1 (Task.ends_iff.1 h)
      cases Script.ends_act.1 hscript
  | _ => rfl

/-- After a line that ends as usual, the lines after it are next. -/
theorem ends_lines_of_normal {s : Stmt} {rest : List Stmt} {m₁ : Machine}
    (h : (Task.stmt s).Ends m (.ok .normal) m₁) {r : Except Fault Flow} :
    (Task.stmts (s :: rest)).Ends m r m' ↔ (Task.stmts rest).Ends m₁ r m' := by
  rw [Task.ends_iff, Task.script, if_neg (by simp [h.isExit])]
  exact Script.ends_bind_of_ends (Script.ends_here.2 h)

/-- After a line that does not end as usual, no line is run. -/
theorem ends_lines_of_ne_normal {s : Stmt} {rest : List Stmt} {flow : Flow}
    {m₁ : Machine} (h : (Task.stmt s).Ends m (.ok flow) m₁)
    (hflow : flow ≠ .normal) {r : Except Fault Flow} :
    (Task.stmts (s :: rest)).Ends m r m' ↔ r = .ok flow ∧ m' = m₁ := by
  rw [Task.ends_iff, Task.script, if_neg (by simp [h.isExit])]
  refine (Script.ends_bind_of_ends (Script.ends_here.2 h)).trans ?_
  cases flow with
  | normal => contradiction
  | leave | result value => exact Script.ends_pure

end Eval

end Prose
