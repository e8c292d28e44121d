import Prose.Proofs.Eval.Steady

/-!
What stays inside. A loop takes the wish to leave it, a call takes the result of
its body or the wish to leave it, and outside all calls nothing gives a result.
However a run ends, the stack of calls is then what it was when the run began;
on the way it holds further calls on top of these, and never more than its limit
allows. So every statement of a program begins and ends outside all calls.
-/

namespace Prose

namespace CallStack

/-- No more calls are running than the limit allows. -/
def Fits (s : CallStack) : Prop := ∀ limit, s.limit = some limit → s.depth ≤ limit

/-- The second stack has the calls of the first one at the bottom and the same
limit, which it keeps if the first one does. -/
structure Extends (s s' : CallStack) : Prop where
  frames : s.frames <:+ s'.frames
  limit : s'.limit = s.limit
  fits : s.Fits → s'.Fits

theorem Extends.refl (s : CallStack) : s.Extends s :=
  ⟨List.suffix_refl _, rfl, id⟩

theorem Extends.trans {s₁ s₂ s₃ : CallStack} (h₁ : s₁.Extends s₂)
    (h₂ : s₂.Extends s₃) : s₁.Extends s₃ :=
  ⟨h₁.frames.trans h₂.frames, h₂.limit.trans h₁.limit, h₂.fits ∘ h₁.fits⟩

/-- A call begins only where the limit leaves room for it. -/
theorem extends_of_push {s pushed : CallStack} {frame : CallFrame}
    (h : s.push frame = .ok pushed) : s.Extends pushed := by
  obtain rfl := Eval.frames_of_push h
  refine ⟨List.suffix_cons _ _, rfl, fun _ limit hlimit => ?_⟩
  change s.limit = some limit at hlimit
  unfold push at h
  rw [hlimit] at h
  dsimp only at h
  split at h
  · cases h
  · next hroom => exact Nat.lt_of_not_le hroom

end CallStack

namespace Eval

variable {α β : Type} {n : Nat} {m m' m₁ : Machine}

/-! ### The machines on the way -/

/-- The machines that following a script passes through, from the one it begins
on to the last one it gets to. -/
def Script.passes (n : Nat)
    (ofTask : {α : Type} → Task α → Machine → List Machine) {α : Type} :
    Script α → Machine → List Machine
  | .give _, m => [m]
  | .act a, m => m :: (a.run m).toList.map (·.2)
  | .perform s t, m =>
      m :: match s.enter m with
        | .error _ => []
        | .ok inner =>
            ofTask t inner ++ (t.run n inner).toList.map fun p => s.leave p.2
  | .andThen first rest, m =>
      first.passes n ofTask m ++ match first.run n m with
        | some (.ok a, m) => (rest a).passes n ofTask m
        | _ => []
  | .located _ inner, m => inner.passes n ofTask m

/-- The machines that a task passes through within a number of steps, also if it
does not end within them. -/
def Task.passes : Nat → {α : Type} → Task α → Machine → List Machine
  | 0, _, _, m => [m]
  | n + 1, _, t, m => t.script.passes n (fun t => t.passes n) m

theorem Setting.extends_enter {s : Setting} {inner : Machine}
    (h : s.enter m = .ok inner) : m.calls.Extends inner.calls := by
  cases s with
  | here | frame f =>
      cases h
      exact .refl _
  | call c f =>
      rw [enter] at h
      cases hpush : m.calls.push c.frame with
      | error fault =>
          rw [hpush] at h
          cases h
      | ok pushed =>
          rw [hpush] at h
          cases h
          exact CallStack.extends_of_push hpush

/-- A relation between the machine a run begins on and the machines on the way:
it holds wherever a steady relation does, it goes on from there, and it holds
outside a setting if it does inside. -/
structure Passing (R P : Machine → Machine → Prop) : Prop where
  steady : Steady R
  of_steady : ∀ {m m'}, R m m' → P m m'
  after : ∀ {m m₁ m₂}, R m m₁ → P m₁ m₂ → P m m₂
  inside : ∀ (s : Setting) {m inner m₁}, s.enter m = .ok inner →
    P inner m₁ → P m m₁

namespace Passing

variable {R P : Machine → Machine → Prop}

theorem script (hP : Passing R P)
    {ofTask : {α : Type} → Task α → Machine → List Machine}
    (htask : ∀ {α : Type} (t : Task α) {m m₁ : Machine}, m₁ ∈ ofTask t m →
      P m m₁)
    {x : Script α} (h : m₁ ∈ x.passes n ofTask m) : P m m₁ := by
  have hfirst : ∀ m, P m m := fun m => hP.of_steady (hP.steady.refl m)
  induction x generalizing m with
  | give a =>
      rw [List.mem_singleton.1 h]
      exact hfirst m
  | act a =>
      rcases List.mem_cons.1 h with rfl | h
      · exact hfirst _
      · obtain ⟨⟨r, m'⟩, hrun, rfl⟩ := List.mem_map.1 h
        exact hP.of_steady (hP.steady.change (Action.change (Option.mem_toList.1 hrun)))
  | perform s t =>
      rcases List.mem_cons.1 h with rfl | h
      · exact hfirst _
      · cases henter : s.enter m with
        | error fault =>
            rw [henter] at h
            cases h
        | ok inner =>
            rw [henter] at h
            rcases List.mem_append.1 h with h | h
            · exact hP.inside s henter (htask t h)
            · obtain ⟨⟨r, m'⟩, hrun, rfl⟩ := List.mem_map.1 h
              have hinner := hP.steady.task t (Option.mem_toList.1 hrun)
              exact hP.of_steady (hP.steady.around s henter hinner)
  | andThen first rest ihfirst ihrest =>
      rw [Script.passes] at h
      rcases List.mem_append.1 h with h | h
      · exact ihfirst h
      · split at h
        · next a m' hrun =>
            have hfirst' := hP.steady.script (fun t => hP.steady.task t) first hrun
            exact hP.after hfirst' (ihrest a h)
        · cases h
  | located span inner ih => exact ih h

/-- What passes through a script passes through every task. -/
theorem task (hP : Passing R P) {t : Task α} (h : m₁ ∈ t.passes n m) :
    P m m₁ := by
  induction n generalizing α m m₁ with
  | zero =>
      rw [Task.passes, List.mem_singleton] at h
      rw [h]
      exact hP.of_steady (hP.steady.refl m)
  | succ n ih => exact hP.script (fun t => ih) h

end Passing

theorem passing_calls : Passing (fun m m' => m'.calls = m.calls)
    (fun m m₁ => m.calls.Extends m₁.calls) where
  steady := steady_calls
  of_steady h := h ▸ .refl _
  after h h₁ := h ▸ h₁
  inside _ _ _ _ henter h := (Setting.extends_enter henter).trans h

/-- On its way a task keeps the calls that were running when it began, and the
limit on calls. -/
theorem Task.extends_of_mem_passes {t : Task α} (h : m₁ ∈ t.passes n m) :
    m.calls.Extends m₁.calls :=
  passing_calls.task h

/-! ### How tasks end -/

/-- The value that a function is left with, if it is. -/
def Flow.value? : Flow → Option Value
  | .result value => some value
  | .normal | .leave => none

/-- Whatever the script gives when it is followed on a stack of calls of one
kind has a property. -/
def Script.Gives (n : Nat) (P : CallStack → Prop) (x : Script α)
    (Q : α → Prop) : Prop :=
  ∀ m a m', P m.calls → x.run n m = some (.ok a, m') → Q a

namespace Script.Gives

variable {P : CallStack → Prop} {R : α → Prop} {Q : β → Prop}

theorem pure {a : α} (h : R a) : Gives n P (Pure.pure a) R := by
  rintro m _ m' _ ⟨⟩
  exact h

theorem fail (cause : Fault.Cause) :
    Gives n P (Script.act (.fail cause) : Script α) R := by
  rintro m _ m' _ ⟨⟩

theorem bind {x : Script α} {f : α → Script β} (hx : Gives n P x R)
    (hf : ∀ a, R a → Gives n P (f a) Q) : Gives n P (x >>= f) Q := by
  intro m b m' hcalls h
  rcases Run.bind_eq_some h with ⟨_, _, ⟨⟩⟩ | ⟨a, m₁, hfirst, hrest⟩
  have hkept : m₁.calls = m.calls := Script.calls_eq hfirst
  exact hf a (hx m a m₁ hcalls hfirst) m₁ b m' (hkept.symm ▸ hcalls) hrest

/-- What the first part gives does not matter. -/
theorem andThen {x : Script α} {f : α → Script β}
    (hf : ∀ a, Gives n P (f a) Q) : Gives n P (x >>= f) Q :=
  bind (R := fun _ => True) (fun _ _ _ _ _ => trivial) fun a _ => hf a

theorem located {x : Script α} (hx : Gives n P x R) (span : Span) :
    Gives n P (Script.located span x) R := by
  intro m a m' hcalls h
  obtain ⟨r₁, hinner, hr⟩ := Run.located_eq_some h
  cases r₁ with
  | error fault => cases hr
  | ok b =>
      cases hr
      exact hx m a m' hcalls hinner

theorem frame {f : Frame} {t : Task α}
    (ht : ∀ m a m', P m.calls → t.run n m = some (.ok a, m') → R a) :
    Gives n P (Script.perform (.frame f) t) R := by
  intro m a m' hcalls h
  rcases Setting.around_eq_some h with
    ⟨_, ⟨⟩, _⟩ | ⟨inner, r₁, m₁, ⟨⟩, hinner, hr, _⟩
  cases r₁ with
  | error fault => cases hr
  | ok b =>
      cases hr
      exact ht { m with scope := m.scope.enter f } a m₁ hcalls hinner

end Script.Gives

/-- What a loop ends with after its body. -/
theorem gives_afterTurn {P : CallStack → Prop} {Q : Flow → Prop}
    {again : Script Flow} (hagain : again.Gives n P Q) (hnormal : Q .normal)
    {flow : Flow} (hresult : ∀ value, flow = .result value → Q flow) :
    (afterTurn again flow).Gives n P Q := by
  cases flow with
  | normal => exact hagain
  | leave => exact .pure hnormal
  | result value => exact .pure (hresult value rfl)

/-- A loop does not end by leaving the loop around it. -/
theorem runLoop_ne_leave {condition : Expr} {body : Body} {flow : Flow}
    (h : runLoop n condition body m = some (.ok flow, m')) :
    flow ≠ .leave := by
  induction n generalizing m m' flow with
  | zero => cases h
  | succ n ih =>
      have hscript : (Task.loop condition body).script.Gives n (fun _ => True)
          (· ≠ .leave) := by
        refine .andThen fun value => .andThen fun truth => ?_
        cases truth with
        | false => exact .pure nofun
        | true =>
            refine .andThen fun turn => gives_afterTurn ?_ nofun ?_
            · exact fun _ _ _ _ h => ih h
            · rintro value ⟨⟩ ⟨⟩
      exact hscript m flow m' trivial
        ((Task.loop condition body).run_succ n ▸ h)

theorem runForEach_ne_leave {item : Name} {ref : ListRef} {walk : Walk}
    {body : Body} {flow : Flow}
    (h : runForEach n item ref walk body m = some (.ok flow, m')) :
    flow ≠ .leave := by
  induction n generalizing m m' flow walk with
  | zero => cases h
  | succ n ih =>
      have hscript : (Task.forEach item ref walk body).script.Gives n
          (fun _ => True) (· ≠ .leave) := by
        refine .andThen ?_
        rintro ⟨_ | value, walk⟩
        · exact .pure nofun
        · refine .andThen fun turn => gives_afterTurn ?_ nofun ?_
          · exact fun _ _ _ _ h => ih h
          · rintro value ⟨⟩ ⟨⟩
      exact hscript m flow m' trivial
        ((Task.forEach item ref walk body).run_succ n ▸ h)

/-- A statement ends as its script does. -/
theorem Script.Gives.runStmt {s : Stmt} {Q : Flow → Prop}
    (hs : ∀ n, (stmtScript s).Gives n (fun _ => True) Q) {flow : Flow}
    (h : runStmt n s m = some (.ok flow, m')) : Q flow := by
  cases n with
  | zero => cases h
  | succ n =>
      rw [show Eval.runStmt (n + 1) s = (Task.stmt s).script.run n from
        (Task.stmt s).run_succ n] at h
      exact (hs n).located s.span m flow m' trivial h

/-! ### Outside all calls -/

/-- How a task may end outside all calls: a statement gives no result. -/
def Task.EndsOutside : Task α → α → Prop
  | expr _ | exprs _ | arguments _ | call _ => fun _ => True
  | stmt _ | stmts _ | body _ | loop _ _ | forEach _ _ _ _ =>
      fun flow => flow.value? = none

def Outside (calls : CallStack) : Prop := calls.isEmpty = true

section Outside

variable (ih : ∀ {α : Type} (t : Task α) m a m', Outside m.calls →
  t.run n m = some (.ok a, m') → t.EndsOutside a)
include ih

theorem stmtScript_outside (s : Stmt) :
    (stmtScript s).Gives n Outside fun flow => flow.value? = none := by
  cases s with
  | assign target value span =>
      cases target with
      | name name => exact .andThen fun _ => .andThen fun _ => .pure rfl
      | position list index =>
          refine .andThen fun _ => .andThen fun _ => .andThen fun _ => ?_
          exact .andThen fun _ => .andThen fun _ => .andThen fun _ => .pure rfl
  | print value span | inspect value span | read type target span =>
      exact .andThen fun _ => .andThen fun _ => .pure rfl
  | add value list span =>
      refine .andThen fun _ => .andThen fun _ => .andThen fun _ => ?_
      exact .andThen fun _ => .pure rfl
  | remove list index span =>
      refine .andThen fun _ => .andThen fun _ => .andThen fun _ => ?_
      exact .andThen fun _ => .andThen fun _ => .pure rfl
  | loop condition body span => exact ih (.loop condition body)
  | branch condition body alternative span =>
      refine .andThen fun _ => .andThen fun truth => ?_
      cases truth with
      | true => exact .frame (ih (.body body))
      | false =>
          cases alternative with
          | none => exact .pure rfl
          | some other => exact .frame (ih (.body other))
  | forEach item list body span =>
      refine .andThen fun _ => .andThen fun ref => ?_
      exact ih (.forEach item ref .start body)
  | increment name span | decrement name span | run call span =>
      exact .andThen fun _ => .pure rfl
  | exit span => exact .fail _
  | result value span =>
      -- A result is refused, since no call is running.
      refine .bind (R := (· = true)) ?_ ?_
      · rintro m _ m' houtside ⟨⟩
        exact houtside
      · rintro _ rfl
        exact .fail _

theorem script_outside (t : Task α) :
    t.script.Gives n Outside t.EndsOutside := by
  cases t with
  | expr e | exprs es | arguments args | call c =>
      exact fun _ _ _ _ _ => trivial
  | stmt s => exact (stmtScript_outside ih s).located _
  | stmts ss =>
      cases ss with
      | nil => exact .pure rfl
      | cons s rest =>
          rw [Task.script]
          split
          · exact .pure rfl
          · refine .bind (ih (.stmt s)) fun flow hflow => ?_
            cases flow with
            | normal => exact ih (.stmts rest)
            | leave | result value => exact .pure hflow
  | body b =>
      cases b with
      | block block => exact ih (.stmts block.stmts)
      | sentence s => exact ih (.stmt s)
  | loop condition b =>
      refine .andThen fun _ => .andThen fun truth => ?_
      cases truth with
      | false => exact .pure rfl
      | true =>
          refine .bind (.frame (ih (.body b))) fun flow hflow => ?_
          refine gives_afterTurn ?_ ?_ fun _ _ => hflow
          · exact ih (.loop condition b)
          · rfl
  | forEach item ref walk b =>
      refine .andThen ?_
      rintro ⟨_ | value, walk⟩
      · exact .pure rfl
      · refine .bind (.frame (ih (.body b))) fun flow hflow => ?_
        refine gives_afterTurn ?_ ?_ fun _ _ => hflow
        · exact ih (.forEach item ref walk b)
        · rfl

end Outside

/-- Outside all calls, no statement gives a result. -/
theorem Task.endsOutside (t : Task α) {a : α} (houtside : Outside m.calls)
    (h : t.run n m = some (.ok a, m')) : t.EndsOutside a := by
  induction n generalizing α m m' with
  | zero =>
      rw [t.run_zero] at h
      cases h
  | succ n ih =>
      rw [t.run_succ] at h
      exact script_outside (fun t _ _ _ => ih t) t m a m' houtside h

/-! ### Calls -/

/-- A call that ends well has run a body in a frame of its own, and gives the
result the body ended with, if it ended with one. -/
theorem runCall_eq_ok {c : Call} {given : Option Value}
    (h : runCall (n + 1) c m = some (.ok given, m')) :
    ∃ frame body m₁ inner m₂ flow,
      (Setting.call c frame).enter m₁ = .ok inner ∧
      runStmts n body inner = some (.ok flow, m₂) ∧
      m' = (Setting.call c frame).leave m₂ ∧ given = flow.value? := by
  have hscript : (callScript c).run n m = some (.ok given, m') :=
    (Task.call c).run_succ n ▸ h
  rcases Run.bind_eq_some hscript with ⟨_, _, ⟨⟩⟩ | ⟨callee, m₁, _, h⟩
  rcases Run.bind_eq_some h with ⟨_, _, ⟨⟩⟩ | ⟨f, m₂, _, h⟩
  rcases Run.bind_eq_some h with ⟨_, _, ⟨⟩⟩ | ⟨args, m₃, _, h⟩
  rcases Run.bind_eq_some h with ⟨_, _, ⟨⟩⟩ | ⟨frame, m₄, _, h⟩
  rcases Run.bind_eq_some h with ⟨_, _, ⟨⟩⟩ | ⟨flow, m₅, hbody, h⟩
  rcases Setting.around_eq_some hbody with
    ⟨_, _, ⟨⟩, _⟩ | ⟨inner, r₁, m₆, henter, hinner, hr, rfl⟩
  cases r₁ with
  | error fault => cases hr
  | ok _ =>
      cases hr
      refine ⟨frame, f.body.stmts, m₄, inner, m₆, flow, henter, hinner, ?_⟩
      cases flow <;> cases h <;> exact ⟨rfl, rfl⟩

end Eval

/-! ### Programs -/

namespace Program

/-- The machines on which a program begins its statements, each followed by the
machine that the statement leaves, if it ends. -/
def boundaries : Nat → Program → Machine → List Machine
  | 0, _, _ => []
  | n + 1, p, m =>
      match p.next m with
      | (.ok (some statement), p, m) =>
          m :: match execute n statement m with
            | none => []
            | some (.ok .finished, m) => m :: boundaries n p m
            | some (_, m) => [m]
      | _ => []

/-- The statements of a program begin and end on the same stack of calls. -/
theorem calls_of_mem_boundaries {n : Nat} {p : Program} {m m₁ : Machine}
    (h : m₁ ∈ p.boundaries n m) : m₁.calls = m.calls := by
  induction n generalizing p m with
  | zero => cases h
  | succ n ih =>
      have hread := Eval.steady_calls.next p m
      rw [boundaries] at h
      generalize p.next m = read at h hread
      obtain ⟨error | _ | statement, p₁, m₂⟩ := read
      · cases h
      · cases h
      · dsimp only at h hread
        rw [← hread]
        rcases List.mem_cons.1 h with rfl | h
        · rfl
        · split at h
          · cases h
          · next m₃ hexecute =>
              have hcalls := Eval.steady_calls.execute hexecute
              rcases List.mem_cons.1 h with rfl | h
              · exact hcalls
              · exact (ih h).trans hcalls
          · next r m₃ hexecute =>
              rw [List.mem_singleton.1 h]
              exact Eval.steady_calls.execute hexecute

end Program

namespace Eval

/-- Control stays inside. A loop never ends by leaving the loop around it; a call
gives the result of its body or nothing, and the statement that runs it ends as
usual; outside all calls no statement gives a result. Whatever is run, and
however it ends, the stack of calls is as it was, and on the way it keeps to its
limit. So a program that begins outside all calls begins and ends each of its
statements there. -/
theorem control_stays_inside (n : Nat) (m m' : Machine) :
    (∀ condition body span flow,
      runStmt n (.loop condition body span) m = some (.ok flow, m') →
        flow ≠ .leave) ∧
    (∀ item list body span flow,
      runStmt n (.forEach item list body span) m = some (.ok flow, m') →
        flow ≠ .leave) ∧
    (∀ c given, runCall n c m = some (.ok given, m') →
      ∃ k frame body m₁ inner m₂ flow, n = k + 1 ∧
        (Setting.call c frame).enter m₁ = .ok inner ∧
        runStmts k body inner = some (.ok flow, m₂) ∧
        m' = (Setting.call c frame).leave m₂ ∧ given = flow.value?) ∧
    (∀ c span flow, runStmt n (.run c span) m = some (.ok flow, m') →
      flow = .normal) ∧
    (m.calls.isEmpty = true → ∀ s flow,
      runStmt n s m = some (.ok flow, m') → flow = .normal ∨ flow = .leave) ∧
    (∀ {α : Type} (t : Task α) r, t.run n m = some (r, m') →
      m'.calls = m.calls) ∧
    (m.calls.Fits → ∀ {α : Type} (t : Task α), ∀ m₁ ∈ t.passes n m,
      m₁.calls.Fits ∧ m.calls.frames <:+ m₁.calls.frames) ∧
    (m.calls.depth = 0 → ∀ p : Program,
      (∀ m₁ ∈ p.boundaries n m, m₁.calls.depth = 0) ∧
      ∀ e, p.run n m = some e → e.machine.calls.depth = 0) := by
  refine ⟨?_, ?_, ?_, ?_, ?_, ?_, ?_, ?_⟩
  · intro condition body span flow h
    refine Script.Gives.runStmt (Q := (· ≠ .leave)) (fun n => ?_) h
    exact fun _ _ _ _ h => runLoop_ne_leave h
  · intro item list body span flow h
    refine Script.Gives.runStmt (Q := (· ≠ .leave)) (fun n => ?_) h
    refine .andThen fun _ => .andThen fun _ => ?_
    exact fun _ _ _ _ h => runForEach_ne_leave h
  · intro c given h
    cases n with
    | zero => cases h
    | succ n =>
        obtain ⟨frame, body, m₁, inner, m₂, flow, hcall⟩ := runCall_eq_ok h
        exact ⟨n, frame, body, m₁, inner, m₂, flow, rfl, hcall⟩
  · intro c span flow h
    refine Script.Gives.runStmt (Q := (· = .normal)) (fun n => ?_) h
    exact .andThen fun _ => .pure rfl
  · intro houtside s flow h
    have hvalue : flow.value? = none := (Task.stmt s).endsOutside houtside h
    cases flow with
    | normal => exact Or.inl rfl
    | leave => exact Or.inr rfl
    | result value => cases hvalue
  · intro α t r h
    exact Task.calls_eq h
  · intro hfits α t m₁ hm₁
    have hextends := Task.extends_of_mem_passes hm₁
    exact ⟨hextends.fits hfits, hextends.frames⟩
  · intro hdepth p
    constructor
    · intro m₁ hm₁
      rw [Program.calls_of_mem_boundaries hm₁, hdepth]
    · intro e he
      rw [steady_calls.program he, hdepth]

/-- A loop that runs `f`, which runs `g`, and then leaves by an `Exit` line. The
limit allows two calls, and both are running at a time. -/
theorem control_stays_inside_two_calls :
    let g : Function := ⟨1, [], .mk [.result (.integer 7 ⟨40, 41⟩) ⟨26, 41⟩]
      ⟨24, 42⟩⟩
    let f : Function := ⟨0, [], .mk [.run (.mk (.name (.ofString "g") ⟨34, 35⟩) []
      ⟨34, 35⟩) ⟨30, 35⟩, .exit ⟨36, 40⟩] ⟨28, 41⟩⟩
    let call : Call := .mk (.name (.ofString "f") ⟨18, 19⟩) [] ⟨18, 19⟩
    let s : Stmt := .loop (.truth true ⟨6, 10⟩)
      (.block (.mk [.run call ⟨14, 19⟩, .exit ⟨21, 25⟩] ⟨12, 27⟩)) ⟨0, 27⟩
    let frame : Frame :=
      ⟨[(.ofString "f", .function f), (.ofString "g", .function g)]⟩
    let m : Machine :=
      { Machine.start default (some 2) with scope := ⟨frame, []⟩ }
    m.calls.isEmpty = true ∧ m.calls.Fits ∧
    ∃ flow m', runStmt 16 s m = some (.ok flow, m') ∧
      flow ≠ .leave ∧ (flow = .normal ∨ flow = .leave) ∧ m'.calls = m.calls ∧
      (∃ m₁ ∈ (Task.stmt s).passes 16 m, m₁.calls.depth = 2) ∧
      ∀ m₁ ∈ (Task.stmt s).passes 16 m, m₁.calls.Fits := by
  intro g f call s frame m
  have hfits : m.calls.Fits := fun limit _ => Nat.zero_le limit
  have hended : (runStmt 16 s m).map (·.1.toBool) = some true := by
    decide +kernel
  obtain ⟨⟨_ | flow, m'⟩, hrun, ⟨⟩⟩ := Option.map_eq_some_iff.1 hended
  obtain ⟨hloop, -, -, -, houtside, hcalls, hpasses, -⟩ :=
    control_stays_inside 16 m m'
  have hdeep : ((Task.stmt s).passes 16 m).any (·.calls.depth == 2) = true := by
    decide +kernel
  obtain ⟨m₁, hm₁, hdepth⟩ := List.any_eq_true.1 hdeep
  refine ⟨rfl, hfits, flow, m', hrun, hloop _ _ _ _ hrun,
    houtside rfl s flow hrun, hcalls (.stmt s) _ hrun,
    ⟨m₁, hm₁, beq_iff_eq.1 hdepth⟩, ?_⟩
  exact fun m₁ hm₁ => (hpasses hfits (.stmt s) m₁ hm₁).1

end Eval

end Prose
