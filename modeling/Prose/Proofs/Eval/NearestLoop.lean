import Prose.Proofs.Eval.ExitSignal
import Prose.Proofs.Eval.LoopExits
import Prose.Proofs.Eval.Starts

/-!
Sessions in which every `Exit` is a line of a block. The statements of a session
are run one after the other on one machine, and each may call functions that
earlier ones left there. If every `Exit` that was ever parsed is a line of a
block, then none of them ends the program: each leaves the nearest loop of the
function body it stands in, and only that loop.
-/

namespace Prose

/-- Every `Exit` in the statement, if it can be parsed, is a line of a block. -/
def Layout.Statement.exitsInLines (statement : Layout.Statement) : Bool :=
  match parseText statement.text with
  | .ok stmt => stmt.exitsInLines
  | .error _ => true

theorem Layout.Statement.exitsInLines_iff {statement : Layout.Statement} :
    statement.exitsInLines = true ↔
      ∀ s ∈ (parseText statement.text).toOption, s.exitsInLines = true := by
  unfold exitsInLines
  cases parseText statement.text <;> simp [Except.toOption]

/-- The machines of a session in which every `Exit` is a line of a block: from a
machine that has run nothing, statements are read and run, and what they print is
taken, in any order and number. -/
inductive InSession : Machine → Prop where
  | start (input : Input) (limit : Option Nat) : InSession (.start input limit)
  | read {m : Machine} (p : Program) : InSession m → InSession (p.next m).2.2
  | executed {n : Nat} {statement : Layout.Statement} {m m' : Machine}
      {r : Except Problem Completion} :
      InSession m → statement.exitsInLines = true →
      execute n statement m = some (r, m') → InSession m'
  | printed {m : Machine} : InSession m → InSession m.takeOutput.2

variable {n : Nat} {p : Program} {m m' : Machine}

/-- Reading a statement takes lines of the input at most. -/
theorem Machine.ExitsInLines.next (hm : m.ExitsInLines) (p : Program) :
    (p.next m).2.2.ExitsInLines := by
  unfold Program.next
  split
  · exact hm
  · exact ⟨hm.heap, hm.scope⟩
  · exact hm

theorem Machine.ExitsInLines.runStmt (hm : m.ExitsInLines) {s : Stmt}
    (hs : s.exitsInLines = true) {r : Except Fault Eval.Flow}
    (h : Eval.runStmt n s m = some (r, m')) :
    m'.ExitsInLines ∧ ∀ f, r = .error f → f.isExit = false := by
  have hkept := Eval.Task.keeps n (t := .stmt s) hs m r m' hm h
  exact ⟨hkept.machine, hkept.fault⟩

theorem Machine.ExitsInLines.execute (hm : m.ExitsInLines)
    {statement : Layout.Statement} (hs : statement.exitsInLines = true)
    {r : Except Problem Completion}
    (h : Prose.execute n statement m = some (r, m')) :
    m'.ExitsInLines ∧ r ≠ .ok .exited := by
  unfold Prose.execute at h
  unfold Layout.Statement.exitsInLines at hs
  cases hparse : parseText statement.text with
  | error e =>
      rw [hparse] at h
      cases h
      exact ⟨hm, nofun⟩
  | ok stmt =>
      rw [hparse] at h hs
      dsimp only [runTopLevel] at h hs
      cases hrun : Eval.runStmt n stmt m with
      | none =>
          rw [hrun] at h
          cases h
      | some ended =>
          obtain ⟨fault | flow, m₁⟩ := ended
          · obtain ⟨hm₁, hfault⟩ := hm.runStmt hs hrun
            rw [hrun] at h
            dsimp only at h
            rw [hfault fault rfl] at h
            cases h
            exact ⟨hm₁, nofun⟩
          · rw [hrun] at h
            cases h
            exact ⟨(hm.runStmt hs hrun).1, nofun⟩

theorem InSession.exitsInLines (h : InSession m) : m.ExitsInLines := by
  induction h with
  | start input limit => exact Machine.exitsInLines_start input limit
  | read p _ ih => exact ih.next p
  | executed _ hs hexecute ih => exact (ih.execute hs hexecute).1
  | printed _ ih => exact ⟨ih.heap, ih.scope⟩

/-- A program stays in the session, and does not exit. -/
theorem InSession.run {ended : Program.Ended} (hm : InSession m)
    (hstarts : ∀ st ∈ p.starts n m, st.statement.exitsInLines = true)
    (h : p.run n m = some ended) :
    ended.outcome ≠ .ok .exited ∧ InSession ended.machine := by
  induction n generalizing p m with
  | zero => cases h
  | succ n ih =>
      have hread : InSession (p.next m).2.2 := .read p hm
      rw [Program.run] at h
      rw [Program.starts] at hstarts
      generalize p.next m = read at h hread hstarts
      obtain ⟨error | _ | statement, p₁, m₁⟩ := read
      · cases h
        exact ⟨by simp, hread⟩
      · cases h
        exact ⟨by simp, hread⟩
      · dsimp only at h hread hstarts
        rw [List.forall_mem_cons] at hstarts
        obtain ⟨hstatement, hrest⟩ := hstarts
        cases hexecute : execute n statement m₁ with
        | none =>
            rw [hexecute] at h
            cases h
        | some outcome =>
            obtain ⟨r, m₂⟩ := outcome
            have hm₂ : InSession m₂ := .executed hread hstatement hexecute
            have hr := (hread.exitsInLines.execute hstatement hexecute).2
            rw [hexecute] at h hrest
            obtain problem | _ | _ := r
            · cases h
              exact ⟨by simp, hm₂⟩
            · exact ih hm₂ hrest h
            · contradiction

/-- The first step of a program that goes on after problems, if it reads a
statement: the statement is run, and unless it exits the program goes on. -/
theorem trace_eq_cons {statement : Layout.Statement} {p₁ : Program}
    {m₁ last : Machine} {steps : List Trace.Step}
    (hnext : p.next m = (.ok (some statement), p₁, m₁))
    (h : trace (n + 1) p m = some (steps, last)) :
    ∃ r m₂ more, execute n statement m₁ = some (r, m₂) ∧
      steps = ⟨.ok statement, (parseText statement.text).toOption, r,
        m₂.takeOutput.1, m₂.takeOutput.2⟩ :: more ∧
      (r = .ok .exited ∨ trace n p₁ m₂.takeOutput.2 = some (more, last)) := by
  rw [trace, hnext] at h
  dsimp only at h
  cases hexecute : execute n statement m₁ with
  | none =>
      rw [hexecute] at h
      cases h
  | some outcome =>
      obtain ⟨r, m₂⟩ := outcome
      rw [hexecute] at h
      dsimp only at h
      split at h
      · cases h
        exact ⟨_, m₂, [], rfl, rfl, Or.inl rfl⟩
      · obtain ⟨⟨more, last₁⟩, hmore, hended⟩ := Option.map_eq_some_iff.1 h
        obtain ⟨rfl, rfl⟩ := Prod.mk.inj hended
        exact ⟨r, m₂, more, rfl, rfl, Or.inr hmore⟩

/-- Nor does a program exit that goes on after problems. -/
theorem InSession.trace {steps : List Trace.Step} {last : Machine}
    (hm : InSession m)
    (hsteps : ∀ step ∈ steps, ∀ s ∈ step.stmt?, s.exitsInLines = true)
    (h : Prose.trace n p m = some (steps, last)) :
    (∀ step ∈ steps, step.outcome ≠ .ok .exited) ∧ InSession last := by
  induction n generalizing p m steps with
  | zero => cases h
  | succ n ih =>
      have hread : InSession (p.next m).2.2 := .read p hm
      cases hnext : p.next m with
      | mk result rest =>
          obtain ⟨p₁, m₁⟩ := rest
          rw [hnext] at hread
          obtain error | _ | statement := result
          · rw [Prose.trace, hnext] at h
            obtain ⟨⟨more, last₁⟩, hmore, hended⟩ := Option.map_eq_some_iff.1 h
            obtain ⟨rfl, rfl⟩ := Prod.mk.inj hended
            rw [List.forall_mem_cons] at hsteps ⊢
            obtain ⟨hrest, hlast⟩ := ih hread hsteps.2 hmore
            exact ⟨⟨by simp, hrest⟩, hlast⟩
          · rw [Prose.trace, hnext] at h
            obtain ⟨rfl, rfl⟩ := Prod.mk.inj (Option.some.inj h)
            exact ⟨List.forall_mem_nil _, hread⟩
          · obtain ⟨r, m₂, more, hexecute, rfl, hmore⟩ := trace_eq_cons hnext h
            rw [List.forall_mem_cons] at hsteps ⊢
            have hs : statement.exitsInLines = true :=
              Layout.Statement.exitsInLines_iff.2 hsteps.1
            have hm₂ : InSession m₂ := .executed hread hs hexecute
            have hr := (hread.exitsInLines.execute hs hexecute).2
            obtain ⟨hrest, hlast⟩ :=
              ih hm₂.printed hsteps.2 (hmore.resolve_left hr)
            exact ⟨⟨hr, hrest⟩, hlast⟩

open Eval

/-- An `Exit` that is a line of a block leaves the nearest loop, and nothing
else. In a session in which every `Exit` is such a line, no statement asks the
program to end and no program ends by exiting, whether it stops at the first
problem or goes on. Running a part of a function body ends by leaving a loop
exactly if the part meets an `Exit` line outside loops of its own, and then the
machine is as it was at that line, whatever lines come after it. A loop ends as
usual exactly if, after whole turns, it begins no further turn or an `Exit` line
is met in the next one; a loop statement in which one is met ends there and in
no other way, and the line after the statement is next. A call in which one is
met outside the loops of the function gives no result, and the statement that
makes the call ends as usual. -/
theorem exit_lines_leave_nearest_loop :
    (∀ m, InSession m →
      (∀ n s f m', s.exitsInLines = true →
        runStmt n s m = some (.error f, m') → f.isExit = false) ∧
      (∀ n (statement : Layout.Statement) r m',
        statement.exitsInLines = true →
        execute n statement m = some (r, m') → r ≠ .ok .exited) ∧
      (∀ n (p : Program) ended,
        (∀ st ∈ p.starts n m, st.statement.exitsInLines = true) →
        p.run n m = some ended →
          ended.outcome ≠ .ok .exited ∧ InSession ended.machine) ∧
      (∀ n p steps last,
        (∀ step ∈ steps, ∀ s ∈ step.stmt?, s.exitsInLines = true) →
        trace n p m = some (steps, last) →
          (∀ step ∈ steps, step.outcome ≠ .ok .exited) ∧ InSession last)) ∧
    (∀ (part : Part) m m', part.task.Ends m (.ok .leave) m' ↔
      part.MeetsExit m m') ∧
    (∀ ss more m m', (Part.lines ss).MeetsExit m m' →
      (Part.lines (ss ++ more)).MeetsExit m m') ∧
    (∀ (loop : Loop) m m', loop.task.Ends m (.ok .normal) m' ↔
      ∃ loop₁ m₁, loop.Turns m loop₁ m₁ ∧
        (loop₁.RunsOut m₁ m' ∨ loop₁.Exits m₁ m')) ∧
    (∀ s m m₁, ExitsLoop s m m₁ →
      (∀ r m', (Task.stmt s).Ends m r m' ↔ r = .ok .normal ∧ m' = m₁) ∧
      ∀ rest r m', (Task.stmts (s :: rest)).Ends m r m' ↔
        (Task.stmts rest).Ends m₁ r m') ∧
    (∀ c m m₁, ExitsCall c m m₁ →
      (∀ r m', (Task.call c).Ends m r m' ↔ r = .ok none ∧ m' = m₁) ∧
      ∀ span r m', (Task.stmt (.run c span)).Ends m r m' ↔
        r = .ok .normal ∧ m' = m₁) := by
  refine ⟨?_, ?_, ?_, ?_, ?_, ?_⟩
  · intro m hm
    refine ⟨?_, ?_, ?_, ?_⟩
    · intro n s f m' hs h
      exact (hm.exitsInLines.runStmt hs h).2 f rfl
    · intro n statement r m' hs h
      exact (hm.exitsInLines.execute hs h).2
    · intro n p ended hstarts h
      exact hm.run hstarts h
    · intro n p steps last hsteps h
      exact hm.trace hsteps h
  · intro part m m'
    exact Part.ends_leave_iff
  · intro ss more m m' h
    exact h.append more
  · intro loop m m'
    exact Loop.ends_normal_iff
  · intro s m m₁ h
    exact ⟨fun r m' => h.ends.iff, fun rest r m' => ends_lines_of_normal h.ends⟩
  · intro c m m₁ h
    exact ⟨fun r m' => h.ends.iff, fun span r m' => (h.ends_run span).iff⟩

/-- A function that leaves its `For each` by an `Exit` line inside a branch and
goes on to its result, called in a `While` that is left the same way; such a
`While` on its own; and a function whose body is an `Exit` line. -/
theorem exit_lines_leave_nearest_loop_search :
    let text := "Set f to a function given n:\n For each x in [1, 2]:\n" ++
      "  If x equals n:\n   Exit.\n  Print x.\n The result is n.\n" ++
      "While true:\n Print the result of f with n as 2.\n" ++
      " If true:\n  Exit.\n"
    let p := Program.ofText text.toList
    let m := Machine.start .none none
    let branch : Stmt := .branch (.truth true ⟨16, 20⟩)
      (.block (.mk [.exit ⟨23, 27⟩] ⟨22, 29⟩)) none ⟨13, 29⟩
    let s : Stmt := .loop (.truth true ⟨6, 10⟩)
      (.block (.mk [branch, .print (.integer 9 ⟨36, 37⟩) ⟨30, 37⟩] ⟨12, 39⟩))
      ⟨0, 39⟩
    let f : Function := ⟨0, [], .mk [.exit ⟨23, 27⟩] ⟨22, 29⟩⟩
    let c : Call := .mk (.name (.ofString "f") ⟨4, 5⟩) [] ⟨4, 5⟩
    let m₁ : Machine :=
      { m with scope := ⟨⟨[(.ofString "f", .function f)]⟩, []⟩ }
    InSession m ∧ (∀ st ∈ p.starts 18 m, st.statement.exitsInLines = true) ∧
    (∃ ended, p.run 18 m = some ended ∧ ended.machine.output = "1\n2\n" ∧
      ended.outcome ≠ .ok .exited ∧ InSession ended.machine) ∧
    (ExitsLoop s m m ∧ ∀ r m', (Task.stmts [s]).Ends m r m' ↔
      (Task.stmts []).Ends m r m') ∧
    (ExitsCall c m₁ m₁ ∧ ∀ r m', (Task.call c).Ends m₁ r m' ↔
      r = .ok none ∧ m' = m₁) := by
  intro text p m branch s f c m₁
  have hm : InSession m := .start _ _
  obtain ⟨hall, houtput⟩ :
      (p.starts 18 m).all (·.statement.exitsInLines) = true ∧
        (p.run 18 m).map (·.machine.output) = some "1\n2\n" := by
    decide +kernel
  have hstarts := List.all_eq_true.1 hall
  obtain ⟨ended, hrun, hprinted⟩ := Option.map_eq_some_iff.1 houtput
  have hloop : ExitsLoop s m m := by
    change ExitsLoop s m ((m.enter .empty).enter .empty).leave.leave
    refine ⟨_, m, _, m, .loop, .none, .intro (.test ⟨2, rfl⟩) ?_⟩
    exact .block (.inside (.chosen ⟨2, rfl⟩ (.block .here)))
  have hcall : ExitsCall c m₁ m₁ := by
    refine ⟨f, .empty, _, _, ⟨m₁, [], m₁, ⟨2, ?_⟩, ⟨1, rfl⟩, rfl, rfl⟩, .here, ?_⟩
    · rfl
    · rfl
  obtain ⟨hsession, -, -, -, hloops, hcalls⟩ := exit_lines_leave_nearest_loop
  obtain ⟨-, -, hprograms, -⟩ := hsession m hm
  refine ⟨hm, hstarts, ⟨ended, hrun, hprinted, hprograms 18 p ended hstarts hrun⟩,
    ⟨hloop, ?_⟩, hcall, ?_⟩
  · exact (hloops s m m hloop).2 []
  · exact (hcalls c m₁ m₁ hcall).1

end Prose
