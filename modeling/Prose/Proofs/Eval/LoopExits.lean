import Prose.Proofs.Eval.Endings

/-!
What an `Exit` line does. A part of a function body meets an `Exit` line of its
own if the lines before it end as usual and the blocks and branches around it
are entered; an `Exit` line inside a loop or a function there belongs to that
loop or function. Meeting one is exactly what makes the part end by leaving a
loop, and the machine is then as it was at the line, but for the frames of the
branches in between. The loop around the part takes this as its own ending, and
the line after the loop is next.
-/

namespace Prose.Eval

variable {m m' m₁ m₂ : Machine}

/-! ### Meeting an `Exit` line -/

/-- What the body of a function is made of. -/
inductive Part where
  | stmt (s : Stmt)
  | lines (ss : List Stmt)
  | body (b : Body)

def Part.task : Part → Task Flow
  | stmt s => .stmt s
  | lines ss => .stmts ss
  | body b => .body b

/-- Run on the first machine, the part meets an `Exit` line that is not inside a
loop or a function of its own. The second machine is the one at that line, with
the frames of the branches around it left. -/
inductive Part.MeetsExit : Part → Machine → Machine → Prop where
  | here {span : Span} {rest : List Stmt} {m : Machine} :
      MeetsExit (.lines (.exit span :: rest)) m m
  | inside {s : Stmt} {rest : List Stmt} {m m' : Machine} :
      MeetsExit (.stmt s) m m' → MeetsExit (.lines (s :: rest)) m m'
  | later {s : Stmt} {rest : List Stmt} {m m₁ m' : Machine} :
      (Task.stmt s).Ends m (.ok .normal) m₁ → MeetsExit (.lines rest) m₁ m' →
      MeetsExit (.lines (s :: rest)) m m'
  | block {block : Block} {m m' : Machine} :
      MeetsExit (.lines block.stmts) m m' → MeetsExit (.body (.block block)) m m'
  | sentence {s : Stmt} {m m' : Machine} :
      MeetsExit (.stmt s) m m' → MeetsExit (.body (.sentence s)) m m'
  | chosen {condition : Expr} {body : Body} {alternative : Option Body}
      {span : Span} {m m₁ m₂ : Machine} :
      (Task.expr condition).Ends m (.ok (.truth true)) m₁ →
      MeetsExit (.body body) (m₁.enter .empty) m₂ →
      MeetsExit (.stmt (.branch condition body alternative span)) m m₂.leave
  | otherwise {condition : Expr} {body alternative : Body} {span : Span}
      {m m₁ m₂ : Machine} :
      (Task.expr condition).Ends m (.ok (.truth false)) m₁ →
      MeetsExit (.body alternative) (m₁.enter .empty) m₂ →
      MeetsExit (.stmt (.branch condition body (some alternative) span)) m
        m₂.leave

/-- Lines that come after the `Exit` line do not matter. -/
theorem Part.MeetsExit.append {ss : List Stmt}
    (h : (Part.lines ss).MeetsExit m m') (more : List Stmt) :
    (Part.lines (ss ++ more)).MeetsExit m m' := by
  induction ss generalizing m with
  | nil => cases h
  | cons s rest ih =>
      cases h with
      | here => exact .here
      | inside hs => exact .inside hs
      | later hs hrest => exact .later hs (ih hrest)

/-- A part that meets an `Exit` line ends there. -/
theorem Part.MeetsExit.ends {part : Part} (h : part.MeetsExit m m') :
    part.task.Ends m (.ok .leave) m' := by
  induction h with
  | here => exact Task.ends_iff.2 (Script.ends_pure.2 ⟨rfl, rfl⟩)
  | inside _ ih => exact (ends_lines_of_ne_normal ih nofun).2 ⟨rfl, rfl⟩
  | later hs _ ih => exact (ends_lines_of_normal hs).2 ih
  | block _ ih => exact Task.ends_iff.2 (Script.ends_here.2 ih)
  | sentence _ ih => exact Task.ends_iff.2 (Script.ends_here.2 ih)
  | chosen hcondition _ ih =>
      refine Task.ends_iff.2 (Script.ends_located.2 ?_)
      refine (Script.ends_condition hcondition).2 ?_
      exact Script.ends_frame.2 ⟨_, ih, rfl⟩
  | otherwise hcondition _ ih =>
      refine Task.ends_iff.2 (Script.ends_located.2 ?_)
      refine (Script.ends_condition hcondition).2 ?_
      exact Script.ends_frame.2 ⟨_, ih, rfl⟩

/-- Of all statements only branches pass on that a loop is to be left. -/
theorem stmtScript_ne_leave {s : Stmt}
    (hs : ∀ condition body alternative span,
      s ≠ .branch condition body alternative span) (n : Nat) :
    (stmtScript s).Gives n (fun _ => True) (· ≠ .leave) := by
  have normal : (Pure.pure .normal : Script Flow).Gives n (fun _ => True)
      (· ≠ .leave) := .pure nofun
  cases s with
  | assign target value span =>
      cases target with
      | name name => exact .andThen fun _ => .andThen fun _ => normal
      | position list index =>
          refine .andThen fun _ => .andThen fun _ => .andThen fun _ => ?_
          exact .andThen fun _ => .andThen fun _ => .andThen fun _ => normal
  | print value span | inspect value span | read type target span =>
      exact .andThen fun _ => .andThen fun _ => normal
  | add value list span =>
      refine .andThen fun _ => .andThen fun _ => .andThen fun _ => ?_
      exact .andThen fun _ => normal
  | remove list index span =>
      refine .andThen fun _ => .andThen fun _ => .andThen fun _ => ?_
      exact .andThen fun _ => .andThen fun _ => normal
  | loop condition body span => exact fun _ _ _ _ h => runLoop_ne_leave h
  | branch condition body alternative span => exact absurd rfl (hs _ _ _ _)
  | forEach item list body span =>
      refine .andThen fun _ => .andThen fun _ => ?_
      exact fun _ _ _ _ h => runForEach_ne_leave h
  | increment name span | decrement name span | run call span =>
      exact .andThen fun _ => normal
  | exit span => exact .fail _
  | result value span =>
      refine .andThen fun outside => ?_
      cases outside with
      | true => exact .fail _
      | false => exact .andThen fun _ => .pure nofun

theorem asTruth_eq_ok {e : Expr} {value : Value} {truth : Bool}
    (h : asTruth e value m = some (.ok truth, m')) :
    value = .truth truth ∧ m' = m := by
  cases value <;> cases h
  exact ⟨rfl, rfl⟩

/-- A branch that ends by leaving a loop has met an `Exit` line in the body that
was chosen. -/
theorem meetsExit_of_branch {n : Nat} {condition : Expr} {body : Body}
    {alternative : Option Body} {span : Span}
    (hbody : ∀ b m m', runBody n b m = some (.ok .leave, m') →
      (Part.body b).MeetsExit m m')
    (h : (stmtScript (.branch condition body alternative span)).run n m =
      some (.ok .leave, m')) :
    (Part.stmt (.branch condition body alternative span)).MeetsExit m m' := by
  rcases Run.bind_eq_some h with ⟨_, _, ⟨⟩⟩ | ⟨value, m₁, hvalue, h⟩
  rcases Run.bind_eq_some h with ⟨_, _, ⟨⟩⟩ | ⟨truth, m₂, htruth, h⟩
  obtain ⟨rfl, rfl⟩ := asTruth_eq_ok htruth
  have hcondition : (Task.expr condition).Ends m (.ok (.truth truth)) m₂ :=
    ⟨n, hvalue⟩
  cases truth with
  | true =>
      obtain ⟨m₃, hinner, rfl⟩ := Run.inFrame_eq_some_iff.1 h
      exact .chosen hcondition (hbody body _ m₃ hinner)
  | false =>
      cases alternative with
      | none => cases h
      | some other =>
          obtain ⟨m₃, hinner, rfl⟩ := Run.inFrame_eq_some_iff.1 h
          exact .otherwise hcondition (hbody other _ m₃ hinner)

/-- A part that ends by leaving a loop has met an `Exit` line. -/
theorem Part.meetsExit_of_run {n : Nat} (part : Part)
    (h : part.task.run n m = some (.ok .leave, m')) : part.MeetsExit m m' := by
  induction n generalizing part m m' with
  | zero =>
      rw [part.task.run_zero] at h
      cases h
  | succ n ih =>
      rw [part.task.run_succ] at h
      cases part with
      | stmt s =>
          obtain ⟨r, hscript, hr⟩ := Run.located_eq_some h
          cases r with
          | error fault => cases hr
          | ok flow =>
              cases hr
              -- Only a branch passes on that a loop is to be left.
              by_cases hs : ∀ condition body alternative span,
                  s ≠ .branch condition body alternative span
              · exact absurd rfl (stmtScript_ne_leave hs n m _ m' trivial hscript)
              · push Not at hs
                obtain ⟨condition, body, alternative, span, rfl⟩ := hs
                exact meetsExit_of_branch (fun b _ _ => ih (.body b))
                  hscript
      | lines ss =>
          cases ss with
          | nil => cases h
          | cons s rest =>
              simp only [task, Task.script] at h
              split at h
              · next hexit =>
                  cases h
                  cases s <;> first | exact .here | cases hexit
              · rcases Run.bind_eq_some h with ⟨_, _, ⟨⟩⟩ | ⟨flow, m₁, hs, h⟩
                cases flow with
                | normal => exact .later ⟨n, hs⟩ (ih (.lines rest) h)
                | leave =>
                    cases h
                    exact .inside (ih (.stmt s) hs)
                | result value => cases h
      | body b =>
          cases b with
          | block block => exact .block (ih (.lines block.stmts) h)
          | sentence s => exact .sentence (ih (.stmt s) h)

/-- A part ends by leaving a loop exactly if it meets an `Exit` line. -/
theorem Part.ends_leave_iff {part : Part} :
    part.task.Ends m (.ok .leave) m' ↔ part.MeetsExit m m' :=
  ⟨fun ⟨_, h⟩ => meetsExit_of_run part h, MeetsExit.ends⟩

/-! ### Loops -/

/-- A loop that has got somewhere. -/
inductive Loop where
  | test (condition : Expr) (body : Body)
  | each (item : Name) (ref : ListRef) (walk : Walk) (body : Body)

namespace Loop

/-- The task of running the loop from where it has got. -/
def task : Loop → Task Flow
  | test condition body => .loop condition body
  | each item ref walk body => .forEach item ref walk body

/-- What the loop repeats. -/
def body : Loop → Body
  | test _ body => body
  | each _ _ _ body => body

/-- The loop begins a turn: the frame for its body, the loop as it goes on
afterwards, and the machine on which the turn begins. -/
inductive Begins : Loop → Machine → Frame → Loop → Machine → Prop where
  | test {condition : Expr} {body : Body} {m m₁ : Machine} :
      (Task.expr condition).Ends m (.ok (.truth true)) m₁ →
      Begins (.test condition body) m .empty (.test condition body) m₁
  | each {item : Name} {ref : ListRef} {walk walk' : Walk} {body : Body}
      {value : Value} {m : Machine} :
      walk.next (m.heap.get ref) = (some value, walk') →
      Begins (.each item ref walk body) m (Frame.empty.declare item value)
        (.each item ref walk' body) m

/-- The loop begins no further turn. -/
inductive RunsOut : Loop → Machine → Machine → Prop where
  | test {condition : Expr} {body : Body} {m m' : Machine} :
      (Task.expr condition).Ends m (.ok (.truth false)) m' →
      RunsOut (.test condition body) m m'
  | each {item : Name} {ref : ListRef} {walk walk' : Walk} {body : Body}
      {m : Machine} :
      walk.next (m.heap.get ref) = (none, walk') →
      RunsOut (.each item ref walk body) m m

/-- The loop takes whole turns, each of which ends as usual. -/
inductive Turns : Loop → Machine → Loop → Machine → Prop where
  | none {loop : Loop} {m : Machine} : Turns loop m loop m
  | turn {loop loop₁ loop₂ : Loop} {m m₁ m₂ m₃ : Machine} {frame : Frame} :
      loop.Begins m frame loop₁ m₁ →
      (Task.body loop.body).Ends (m₁.enter frame) (.ok .normal) m₂ →
      Turns loop₁ m₂.leave loop₂ m₃ → Turns loop m loop₂ m₃

/-- The loop meets an `Exit` line of its body in its next turn. -/
inductive Exits : Loop → Machine → Machine → Prop where
  | intro {loop loop₁ : Loop} {m m₁ m₂ : Machine} {frame : Frame} :
      loop.Begins m frame loop₁ m₁ →
      (Part.body loop.body).MeetsExit (m₁.enter frame) m₂ →
      Exits loop m m₂.leave

variable {loop loop₁ loop₂ : Loop} {frame : Frame} {r : Except Fault Flow}

/-- After the body, the loop goes on as the body ended. -/
theorem Begins.ends_iff (h : loop.Begins m frame loop₁ m₁) {flow : Flow}
    (hbody : (Task.body loop.body).Ends (m₁.enter frame) (.ok flow) m₂) :
    loop.task.Ends m r m' ↔
      (afterTurn (.perform .here loop₁.task) flow).Ends m₂.leave r m' := by
  rw [Task.ends_iff]
  have hturn := Script.ends_frame.2 ⟨m₂, hbody, rfl⟩
  cases h with
  | test hcondition =>
      refine (Script.ends_condition hcondition).trans ?_
      exact Script.ends_bind_of_ends hturn
  | @each item ref walk walk' body value m hnext =>
      have hfound : (Script.act (.next ref walk)).Ends m
          (.ok (some value, walk')) m := by
        rw [Script.ends_act, ← hnext]
        rfl
      refine (Script.ends_bind_of_ends hfound).trans ?_
      exact Script.ends_bind_of_ends hturn

theorem RunsOut.ends (h : loop.RunsOut m m') :
    loop.task.Ends m (.ok .normal) m' := by
  rw [Task.ends_iff]
  cases h with
  | test hcondition =>
      refine (Script.ends_condition hcondition).2 ?_
      exact Script.ends_pure.2 ⟨rfl, rfl⟩
  | @each item ref walk walk' body m hnext =>
      have hfound : (Script.act (.next ref walk)).Ends m
          (.ok (none, walk')) m := by
        rw [Script.ends_act, ← hnext]
        rfl
      refine (Script.ends_bind_of_ends hfound).2 ?_
      exact Script.ends_pure.2 ⟨rfl, rfl⟩

/-- A loop ends as it does after some of its turns. -/
theorem Turns.ends_iff (h : loop.Turns m loop₁ m₁) :
    loop.task.Ends m r m' ↔ loop₁.task.Ends m₁ r m' := by
  induction h with
  | none => exact Iff.rfl
  | turn hbegins hbody _ ih => exact (hbegins.ends_iff hbody).trans ih

/-- A loop that meets an `Exit` line in its next turn ends there. -/
theorem Exits.ends (h : loop.Exits m m') : loop.task.Ends m (.ok .normal) m' := by
  obtain ⟨hbegins, hexit⟩ := h
  exact (hbegins.ends_iff hexit.ends).2 (Script.ends_pure.2 ⟨rfl, rfl⟩)

/-- A turn of a loop that ends as usual: an `Exit` line is met in it, or the turn
ends as usual too and the loop goes on. -/
theorem Begins.turn_cases {n : Nat} (h : loop.Begins m frame loop₁ m₁)
    (hrun : (Script.perform (.frame frame) (.body loop.body) >>=
      afterTurn (.perform .here loop₁.task)).run n m₁ = some (.ok .normal, m')) :
    loop.Exits m m' ∨
      ∃ m₂, (Task.body loop.body).Ends (m₁.enter frame) (.ok .normal) m₂ ∧
        loop₁.task.run n m₂.leave = some (.ok .normal, m') := by
  rcases Run.bind_eq_some hrun with ⟨_, _, ⟨⟩⟩ | ⟨flow, m₂, hturn, hrest⟩
  obtain ⟨m₃, hbody, rfl⟩ := Run.inFrame_eq_some_iff.1 hturn
  cases flow with
  | normal => exact Or.inr ⟨m₃, ⟨n, hbody⟩, hrest⟩
  | leave =>
      cases hrest
      exact Or.inl ⟨h, Part.meetsExit_of_run (.body loop.body) hbody⟩
  | result value => cases hrest

/-- A loop that ends as usual begins no further turn, or meets an `Exit` line in
its next turn, or goes on after that turn. -/
theorem run_cases {n : Nat}
    (h : loop.task.run (n + 1) m = some (.ok .normal, m')) :
    loop.RunsOut m m' ∨ loop.Exits m m' ∨
      ∃ frame loop₁ m₁ m₂, loop.Begins m frame loop₁ m₁ ∧
        (Task.body loop.body).Ends (m₁.enter frame) (.ok .normal) m₂ ∧
        loop₁.task.run n m₂.leave = some (.ok .normal, m') := by
  rw [loop.task.run_succ] at h
  cases loop with
  | test condition body =>
      rcases Run.bind_eq_some h with ⟨_, _, ⟨⟩⟩ | ⟨value, m₁, hvalue, h⟩
      rcases Run.bind_eq_some h with ⟨_, _, ⟨⟩⟩ | ⟨truth, m₂, htruth, h⟩
      obtain ⟨rfl, rfl⟩ := asTruth_eq_ok htruth
      cases truth with
      | false =>
          cases h
          exact Or.inl (.test ⟨n, hvalue⟩)
      | true =>
          have hbegins : Begins (.test condition body) m .empty _ m₂ :=
            .test ⟨n, hvalue⟩
          rcases hbegins.turn_cases h with hexit | ⟨m₃, hbody, hrest⟩
          · exact Or.inr (Or.inl hexit)
          · exact Or.inr (Or.inr ⟨_, _, _, m₃, hbegins, hbody, hrest⟩)
  | each item ref walk body =>
      rcases Run.bind_eq_some h with ⟨_, _, ⟨⟩⟩ | ⟨⟨found, walk'⟩, m₁, hnext, h⟩
      obtain ⟨hfound, rfl⟩ := Run.answer_inj hnext
      have hfound := Except.ok.inj hfound
      cases found with
      | none =>
          cases h
          exact Or.inl (.each hfound)
      | some value =>
          have hbegins : Begins (.each item ref walk body) m _ _ m :=
            .each hfound
          rcases hbegins.turn_cases h with hexit | ⟨m₃, hbody, hrest⟩
          · exact Or.inr (Or.inl hexit)
          · exact Or.inr (Or.inr ⟨_, _, _, m₃, hbegins, hbody, hrest⟩)

/-- A loop ends as usual exactly if, after whole turns, it begins no further turn
or meets an `Exit` line in the next one. -/
theorem ends_normal_iff :
    loop.task.Ends m (.ok .normal) m' ↔
      ∃ loop₁ m₁, loop.Turns m loop₁ m₁ ∧
        (loop₁.RunsOut m₁ m' ∨ loop₁.Exits m₁ m') := by
  constructor
  · rintro ⟨n, h⟩
    induction n generalizing loop m with
    | zero =>
        rw [loop.task.run_zero] at h
        cases h
    | succ n ih =>
        rcases run_cases h with hout | hexit |
          ⟨frame, loop₁, m₁, m₂, hbegins, hbody, hrest⟩
        · exact ⟨loop, m, .none, Or.inl hout⟩
        · exact ⟨loop, m, .none, Or.inr hexit⟩
        · obtain ⟨loop₂, m₃, hturns, hend⟩ := ih hrest
          exact ⟨loop₂, m₃, .turn hbegins hbody hturns, hend⟩
  · rintro ⟨loop₁, m₁, hturns, hout | hexit⟩
    · exact hturns.ends_iff.2 hout.ends
    · exact hturns.ends_iff.2 hexit.ends

end Loop

/-! ### Loop statements -/

/-- The statement begins a loop. -/
inductive BeginsLoop : Stmt → Machine → Loop → Machine → Prop where
  | loop {condition : Expr} {body : Body} {span : Span} {m : Machine} :
      BeginsLoop (.loop condition body span) m (.test condition body) m
  | forEach {item : Name} {list : Expr} {body : Body} {span : Span}
      {ref : ListRef} {m m₁ : Machine} :
      (Task.expr list).Ends m (.ok (.list ref)) m₁ →
      BeginsLoop (.forEach item list body span) m (.each item ref .start body) m₁

/-- The loop statement meets an `Exit` line of its body in one of its turns. The
second machine is the one at that line, with the frames inside the loop left. -/
def ExitsLoop (s : Stmt) (m m' : Machine) : Prop :=
  ∃ loop m₁ loop₁ m₂, BeginsLoop s m loop m₁ ∧ loop.Turns m₁ loop₁ m₂ ∧
    loop₁.Exits m₂ m'

theorem BeginsLoop.ends {s : Stmt} {loop : Loop} (h : BeginsLoop s m loop m₁)
    {flow : Flow} (hloop : loop.task.Ends m₁ (.ok flow) m') :
    (Task.stmt s).Ends m (.ok flow) m' := by
  refine Task.ends_iff.2 (Script.ends_located.2 ?_)
  cases h with
  | loop => exact Script.ends_here.2 hloop
  | forEach hlist =>
      refine (Script.ends_bind_of_ends (Script.ends_here.2 hlist)).2 ?_
      refine (Script.ends_bind_of_ends (Script.ends_list _ _ _)).2 ?_
      exact Script.ends_here.2 hloop

/-- A loop statement that meets an `Exit` line ends there, as usual. -/
theorem ExitsLoop.ends {s : Stmt} (h : ExitsLoop s m m') :
    (Task.stmt s).Ends m (.ok .normal) m' := by
  obtain ⟨loop, m₁, loop₁, m₂, hbegins, hturns, hexit⟩ := h
  exact hbegins.ends (hturns.ends_iff.2 hexit.ends)

/-! ### Calls -/

/-- The call begins: its function, the frame of its arguments, and the machine
inside the call. -/
def BeginsCall (c : Call) (m : Machine) (f : Function) (frame : Frame)
    (inner : Machine) : Prop :=
  ∃ m₁ args m₂, (Task.expr c.callee).Ends m (.ok (.function f)) m₁ ∧
    (Task.arguments c.args).Ends m₁ (.ok args) m₂ ∧
    bindArguments f.params c.span args = .ok frame ∧
    (Setting.call c frame).enter m₂ = .ok inner

/-- The body of the function called meets an `Exit` line outside its loops. The
second machine is the one at that line, with the call left. -/
def ExitsCall (c : Call) (m m' : Machine) : Prop :=
  ∃ f frame inner m₁, BeginsCall c m f frame inner ∧
    (Part.lines f.body.stmts).MeetsExit inner m₁ ∧
    m' = (Setting.call c frame).leave m₁

/-- A call in which an `Exit` line is met ends there, without a result. -/
theorem ExitsCall.ends {c : Call} (h : ExitsCall c m m') :
    (Task.call c).Ends m (.ok none) m' := by
  obtain ⟨f, frame, inner, m₃, hbegins, hexit, rfl⟩ := h
  obtain ⟨m₁, args, m₂, hcallee, hargs, hframe, henter⟩ := hbegins
  have hbound : (Script.act (.bind c f.params args)).Ends m₂ (.ok frame) m₂ :=
    Script.ends_act.2 (congrArg (fun r => some (r, m₂)) hframe)
  refine Task.ends_iff.2 ?_
  refine (Script.ends_bind_of_ends (Script.ends_here.2 hcallee)).2 ?_
  refine (Script.ends_bind_of_ends (Script.ends_act.2 rfl)).2 ?_
  refine (Script.ends_bind_of_ends (Script.ends_here.2 hargs)).2 ?_
  refine (Script.ends_bind_of_ends hbound).2 ?_
  refine (Script.ends_bind_of_ends (Script.ends_perform henter hexit.ends)).2 ?_
  exact Script.ends_pure.2 ⟨rfl, rfl⟩

/-- The statement that makes such a call ends as usual. -/
theorem ExitsCall.ends_run {c : Call} (h : ExitsCall c m m') (span : Span) :
    (Task.stmt (.run c span)).Ends m (.ok .normal) m' := by
  refine Task.ends_iff.2 (Script.ends_located.2 ?_)
  refine (Script.ends_bind_of_ends (Script.ends_here.2 h.ends)).2 ?_
  exact Script.ends_pure.2 ⟨rfl, rfl⟩

end Prose.Eval
