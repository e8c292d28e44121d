import Prose.Proofs.Eval.FreshFaults
import Prose.Proofs.Tree.Nodes

/-!
Where a fault stands, and what its backtrace tells. Function bodies come from
other statements, whose spans are places in other texts. A fault that leaves a
call takes on the place of the call, so that a fault which comes out of a
statement stands at a node of that statement, outside its function literals. Its
backtrace names the calls that were active when it was raised.
-/

namespace Prose.Eval

def Task.nodes : {α : Type} → Task α → List Node
  | _, .expr e => e.nodes
  | _, .exprs es => Expr.nodesOf es
  | _, .arguments args => Argument.nodesOf args
  | _, .call c => c.nodes
  | _, .stmt s => s.nodes
  | _, .stmts ss => Stmt.nodesOf ss
  | _, .body b => b.nodes
  | _, .loop condition b => condition.nodes ++ b.nodes
  | _, .forEach _ _ _ b => b.nodes

variable {α β : Type} {m m' : Machine} {n : Nat} {nodes : List Node} {f : Fault}

/-! ### Raising a fault -/

/-- How a run came to fail: the fault as it was raised, the calls that were
active then, innermost first, and the machine at that moment. -/
structure Raised where
  fault : Fault
  calls : List Call
  machine : Machine

/-- What was raised inside a setting: the call of the setting was active. -/
def Raised.inside (raised : Raised) : Setting → Raised
  | .here | .frame _ => raised
  | .call c _ => { raised with calls := raised.calls ++ [c] }

/-- The moment at which a script fails, if it fails. -/
def Script.raised? (n : Nat)
    (ofTask : {α : Type} → Task α → Machine → Option Raised) {α : Type} :
    Script α → Machine → Option Raised
  | .give _, _ => none
  | .act a, m =>
      match a.run m with
      | some (.error fault, _) => some ⟨fault, [], m⟩
      | _ => none
  | .perform s t, m =>
      match s.enter m with
      | .error fault => some ⟨fault, [], m⟩
      | .ok inner => (ofTask t inner).map (·.inside s)
  | .andThen first rest, m =>
      match first.run n m with
      | some (.ok a, m) => (rest a).raised? n ofTask m
      | _ => first.raised? n ofTask m
  | .located _ inner, m => inner.raised? n ofTask m

/-- The moment at which a task fails, if it fails. -/
def Task.raised? : Nat → {α : Type} → Task α → Machine → Option Raised
  | 0, _, _, _ => none
  | n + 1, _, t, m => t.script.raised? n (fun t => t.raised? n) m

/-- What a fault tells of how it was raised, when it comes out of a part of a
tree that was run on the machine `m`. -/
structure Raised.Explains (raised : Raised) (nodes : List Node) (m : Machine)
    (f : Fault) : Prop where
  cause : f.cause = raised.fault.cause
  frames : raised.machine.calls.frames =
    raised.calls.map Call.frame ++ m.calls.frames
  exit : f.isExit = true → f.span? = none ∧ f.backtrace = []
  backtrace : f.isExit = false →
    f.backtrace = raised.calls.map fun c => calleeName c.callee
  /-- The place is a node, and it is the outermost call if there was one. -/
  place : ∀ span, f.span? = some span → ∃ node ∈ nodes, node.span = span ∧
    ∀ c, raised.calls.getLast? = some c → node = .call c
  placed : f.isExit = false → raised.calls ≠ [] → f.span? ≠ none

namespace Raised.Explains

variable {raised : Raised}

/-- A fault that has just been raised. -/
theorem of_fresh {spans : List Span} (hfresh : f.Fresh spans)
    (hspans : ∀ span ∈ spans, ∃ node ∈ nodes, node.span = span) :
    (⟨f, [], m⟩ : Raised).Explains nodes m f where
  cause := rfl
  frames := rfl
  exit hexit := by
    refine ⟨?_, hfresh.backtrace⟩
    cases hspan : f.span? with
    | none => rfl
    | some span => simp [(hfresh.place span hspan).1] at hexit
  backtrace _ := hfresh.backtrace
  place span hspan := by
    obtain ⟨node, hnode, hat⟩ := hspans span (hfresh.place span hspan).2
    exact ⟨node, hnode, hat, by simp⟩
  placed _ hcalls := absurd rfl hcalls

theorem mono {nodes' : List Node} (h : raised.Explains nodes m f)
    (hsub : nodes ⊆ nodes') : raised.Explains nodes' m f := by
  refine { h with place := fun span hspan => ?_ }
  obtain ⟨node, hnode, hat, hcall⟩ := h.place span hspan
  exact ⟨node, hsub hnode, hat, hcall⟩

theorem of_calls_eq (h : raised.Explains nodes m' f) (hcalls : m'.calls = m.calls) :
    raised.Explains nodes m f := by
  exact { h with frames := hcalls ▸ h.frames }

/-- A fault that has no place is given one only as long as no call was left. -/
theorem locate (h : raised.Explains nodes m f) {span : Span}
    (hspan : ∃ node ∈ nodes, node.span = span) :
    raised.Explains nodes m (f.locate span) := by
  rcases f.locate_cases span with hsame | ⟨hexit, hnone, hplaced⟩
  · rw [hsame]
    exact h
  · rw [hplaced]
    -- A call that was left would have given the fault its own place.
    have hcalls : raised.calls = [] :=
      Classical.byContradiction fun hne => h.placed hexit hne hnone
    obtain ⟨node, hnode, hat⟩ := hspan
    exact
      { cause := h.cause
        frames := h.frames
        exit := fun htrue => absurd (htrue.symm.trans hexit) (by simp)
        backtrace := h.backtrace
        place := by
          rintro place ⟨⟩
          exact ⟨node, hnode, hat, by simp [hcalls]⟩
        placed := fun _ _ => by simp }

/-- A fault that leaves a call stands at the call and names it last. -/
theorem leaveCall {inner : Machine} {c : Call} {frame : Frame}
    {nodes' : List Node} (h : raised.Explains nodes inner f)
    (henter : (Setting.call c frame).enter m = .ok inner)
    (hc : Node.call c ∈ nodes') :
    (raised.inside (.call c frame)).Explains nodes' m
      (f.leaveCall c.span (calleeName c.callee)) := by
  obtain rfl := Setting.enter_call_eq_ok henter
  have hframes : (raised.inside (.call c frame)).machine.calls.frames =
      (raised.inside (.call c frame)).calls.map Call.frame ++ m.calls.frames := by
    simpa [Raised.inside] using h.frames
  unfold Fault.leaveCall
  split
  · next hexit =>
      have hunplaced := h.exit hexit
      exact
        { cause := h.cause
          frames := hframes
          exit := h.exit
          backtrace := fun hfalse => by simp [hexit] at hfalse
          place := fun span hspan => by simp [hunplaced.1] at hspan
          placed := fun hfalse => by simp [hexit] at hfalse }
  · next hexit =>
      have hfalse : f.isExit = false := by simpa using hexit
      exact
        { cause := h.cause
          frames := hframes
          exit := fun htrue => absurd htrue hexit
          backtrace := fun _ => by simp [Raised.inside, h.backtrace hfalse]
          place := by
            rintro span ⟨⟩
            refine ⟨.call c, hc, rfl, fun last hlast => ?_⟩
            simp only [Raised.inside, List.getLast?_append, List.getLast?_singleton,
              Option.some_or, Option.some.injEq] at hlast
            rw [hlast]
          placed := fun _ _ => by simp }

end Raised.Explains

/-! ### Staying among nodes -/

/-- Whatever a script may place a fault at is among the nodes. A call may run
whatever it wants, as long as the call itself is among them. -/
def Script.Within (n : Nat) (nodes : List Node) {α : Type} : Script α → Prop
  | .give _ => True
  | .act a => ∀ span ∈ a.spans, ∃ node ∈ nodes, node.span = span
  | .perform (.call c _) _ => .call c ∈ nodes
  | .perform _ t => t.nodes ⊆ nodes
  | .andThen first rest => first.Within n nodes ∧
      ∀ m a m', first.run n m = some (.ok a, m') → (rest a).Within n nodes
  | .located span inner =>
      (∃ node ∈ nodes, node.span = span) ∧ inner.Within n nodes

/-- A setting that cannot be entered is that of a call too many. -/
theorem Setting.fresh_of_enter {s : Setting} (h : s.enter m = .error f) :
    ∃ c frame, s = .call c frame ∧ f.Fresh [c.span] := by
  cases s with
  | here => cases h
  | frame frame => cases h
  | call c frame =>
      refine ⟨c, frame, rfl, ?_⟩
      rw [enter, CallStack.push] at h
      split at h
      · cases h
      · split at h
        · cases h
          exact Fault.fresh_locate List.mem_cons_self _
        · cases h

/-- A fault of a script whose faults stay among the nodes. -/
theorem Script.explains {x : Script α} (hwithin : x.Within n nodes)
    (htask : ∀ {α : Type} (t : Task α) {m m' : Machine} {f : Fault},
      t.run n m = some (.error f, m') →
        ∃ raised, t.raised? n m = some raised ∧ raised.Explains t.nodes m f)
    (h : x.run n m = some (.error f, m')) :
    ∃ raised, x.raised? n (fun t => t.raised? n) m = some raised ∧
      raised.Explains nodes m f := by
  induction x generalizing m m' f with
  | give a => cases h
  | act a =>
      change a.run m = _ at h
      exact ⟨⟨f, [], m⟩, by simp [raised?, h], .of_fresh (Action.fresh h) hwithin⟩
  | perform s t =>
      rcases Setting.around_eq_some h with
        ⟨fault, henter, ⟨⟩, rfl⟩ | ⟨inner, r₁, m₁, henter, hinner, hr, rfl⟩
      · obtain ⟨c, frame, rfl, hfresh⟩ := Setting.fresh_of_enter henter
        refine ⟨⟨f, [], m'⟩, by simp [raised?, henter], ?_⟩
        refine .of_fresh hfresh ?_
        intro span hspan
        obtain rfl := List.mem_singleton.mp hspan
        exact ⟨.call c, hwithin, rfl⟩
      · cases r₁ with
        | ok a => contradiction
        | error fault =>
            obtain ⟨raised, hraised, hexplains⟩ := htask t hinner
            refine ⟨raised.inside s, by simp [raised?, henter, hraised], ?_⟩
            obtain rfl : f = s.outside fault := Except.error.inj hr
            cases s with
            | here =>
                cases henter
                exact hexplains.mono hwithin
            | frame frame =>
                cases henter
                exact (hexplains.mono hwithin).of_calls_eq rfl
            | call c frame => exact hexplains.leaveCall henter hwithin
  | andThen first rest ihfirst ihrest =>
      rcases Run.bind_eq_some h with ⟨fault, hfirst, ⟨⟩⟩ | ⟨a, m₁, hfirst, hrest⟩
      · simpa [raised?, hfirst] using ihfirst hwithin.1 hfirst
      · -- The first part has left all calls it began, so the stack is the same.
        obtain ⟨raised, hraised, hexplains⟩ :=
          ihrest a (hwithin.2 m a m₁ hfirst) hrest
        refine ⟨raised, by simp [raised?, hfirst, hraised], ?_⟩
        exact hexplains.of_calls_eq (Script.calls_eq hfirst)
  | located span inner ih =>
      obtain ⟨r₁, hinner, hr⟩ := Run.located_eq_some h
      cases r₁ with
      | ok a => contradiction
      | error fault =>
          obtain rfl : f = fault.locate span := Except.error.inj hr
          obtain ⟨raised, hraised, hexplains⟩ := ih hwithin.2 hinner
          exact ⟨raised, hraised, hexplains.locate hwithin.1⟩

section Within

variable {x : Script α} {rest : α → Script β}

theorem within_bind (hx : x.Within n nodes) (hrest : ∀ a, (rest a).Within n nodes) :
    (x >>= rest).Within n nodes :=
  ⟨hx, fun _ a _ _ => hrest a⟩

theorem within_pure (a : α) : (pure a : Script α).Within n nodes := trivial

theorem within_act {a : Action α} (h : a.spans = []) :
    (Script.act a).Within n nodes := by
  intro span hspan
  rw [h] at hspan
  contradiction

theorem within_eval {e : Expr} (he : e.nodes ⊆ nodes) :
    (Script.eval e).Within n nodes := he

/-- An expression whose value is asked to be of a kind. -/
theorem within_eval_as {e : Expr} {kind : Value → Action α}
    (he : e.nodes ⊆ nodes) (hkind : ∀ value, (kind value).spans = [e.span])
    (hrest : ∀ a, (rest a).Within n nodes) :
    (do let a ← Script.act (kind (← Script.eval e)); rest a : Script β).Within n
      nodes := by
  apply within_bind (within_eval he)
  intro value
  apply within_bind _ hrest
  intro span hspan
  rw [hkind] at hspan
  obtain rfl := List.mem_singleton.mp hspan
  exact ⟨.expr e, he e.mem_nodes, rfl⟩

end Within

theorem within_exprScript (e : Expr) : (exprScript e).Within n e.nodes := by
  cases e with
  | integer _ _ | real _ _ | text _ _ | truth _ _ => exact within_pure _
  | name _ _ | function _ _ _ => exact within_act rfl
  | list items _ =>
      apply within_bind
      · exact List.subset_cons_self _ _
      · intro values
        exact within_act rfl
  | group inner _ => exact within_eval (List.subset_cons_self _ _)
  | result call _ =>
      apply within_bind
      · exact List.subset_cons_self _ _
      · intro value
        cases value with
        | some value => exact within_pure _
        | none => exact within_act rfl
  | binary op left right _ =>
      apply within_bind (within_eval fun _ h => by simp [Expr.nodes, h])
      intro left
      apply within_bind (within_eval fun _ h => by simp [Expr.nodes, h])
      intro right
      exact within_act rfl

/-- The values of arguments come with the places of their names. -/
theorem nameSpan_of_evalArguments {args : List Argument} {passed : List Passed}
    (h : evalArguments n args m = some (.ok passed, m')) :
    passed.map (·.nameSpan) = args.map (·.nameSpan) := by
  induction n generalizing args passed m m' with
  | zero => cases h
  | succ n ih =>
      cases args with
      | nil => cases h; rfl
      | cons arg args =>
          obtain ⟨name, nameSpan, value⟩ := arg
          rcases Run.bind_eq_some h with ⟨_, _, ⟨⟩⟩ | ⟨value, m₁, _, h⟩
          rcases Run.bind_eq_some h with ⟨_, _, ⟨⟩⟩ | ⟨rest, m₂, hrest, ⟨⟩⟩
          simp [Argument.nameSpan, ih hrest]

/-- The body of the function runs inside the call, which is a node itself. -/
theorem within_callScript (c : Call) : (callScript c).Within n c.nodes := by
  have hself : Node.call c ∈ c.nodes := by simp [c.nodes_eq]
  apply within_eval_as (fun _ h => by simp [c.nodes_eq, h]) fun _ => rfl
  intro f
  constructor
  · intro node (hnode : node ∈ Argument.nodesOf c.args)
    simp [c.nodes_eq, hnode]
  · intro m passed m' hpassed
    apply within_bind
    · intro span hspan
      rcases List.mem_cons.mp hspan with rfl | hname
      · exact ⟨.call c, hself, rfl⟩
      · rw [nameSpan_of_evalArguments hpassed] at hname
        obtain ⟨arg, harg, rfl⟩ := List.mem_map.mp hname
        exact ⟨.argument arg, by simp [c.nodes_eq, Argument.mem_nodesOf harg], rfl⟩
    · intro frame
      apply within_bind
      · exact hself
      · intro flow
        cases flow <;> exact within_pure _

theorem within_stmtScript (s : Stmt) : (stmtScript s).Within n s.nodes := by
  cases s with
  | assign target value _ =>
      cases target with
      | name name =>
          apply within_bind (within_eval fun _ h => by simp [Stmt.nodes, h])
          intro value
          exact within_bind (within_act rfl) fun _ => within_pure _
      | position list index =>
          apply within_bind (within_eval fun _ h => by simp [Stmt.nodes, h])
          intro value
          apply within_eval_as _ fun _ => rfl
          · intro ref
            apply within_eval_as _ fun _ => rfl
            · intro i
              apply within_bind
              · refine ⟨⟨.expr index, ?_, rfl⟩, within_act rfl⟩
                simp [Stmt.nodes, Target.nodes, index.mem_nodes]
              · intro _
                exact within_pure _
            · exact fun _ h => by simp [Stmt.nodes, Target.nodes, h]
          · exact fun _ h => by simp [Stmt.nodes, Target.nodes, h]
  | print value _ | inspect value _ =>
      apply within_bind (within_eval (List.subset_cons_self _ _))
      intro value
      exact within_bind (within_act rfl) fun _ => within_pure _
  | read type target _ =>
      apply within_bind
      · intro span hspan
        obtain ⟨t, ht, rfl⟩ := List.mem_map.mp hspan
        exact ⟨.readType t, List.mem_cons_of_mem _ (List.mem_map_of_mem ht), rfl⟩
      · intro value
        exact within_bind (within_act rfl) fun _ => within_pure _
  | add value list _ =>
      apply within_eval_as (fun _ h => by simp [Stmt.nodes, h]) fun _ => rfl
      intro ref
      apply within_bind (within_eval fun _ h => by simp [Stmt.nodes, h])
      intro value
      exact within_bind (within_act rfl) fun _ => within_pure _
  | remove list index _ =>
      apply within_eval_as (fun _ h => by simp [Stmt.nodes, h]) fun _ => rfl
      intro ref
      apply within_eval_as (fun _ h => by simp [Stmt.nodes, h]) fun _ => rfl
      intro i
      exact within_bind (within_act rfl) fun _ => within_pure _
  | loop condition body _ => exact List.subset_cons_self _ _
  | branch condition body alternative _ =>
      cases alternative with
      | none =>
          apply within_eval_as (fun _ h => by simp [Stmt.nodes, h]) fun _ => rfl
          intro truth
          cases truth with
          | true =>
              intro node (hnode : node ∈ body.nodes)
              simp [Stmt.nodes, hnode]
          | false => exact within_pure _
      | some alternative =>
          apply within_eval_as (fun _ h => by simp [Stmt.nodes, h]) fun _ => rfl
          intro truth
          cases truth with
          | true =>
              intro node (hnode : node ∈ body.nodes)
              simp [Stmt.nodes, hnode]
          | false =>
              intro node (hnode : node ∈ alternative.nodes)
              simp [Stmt.nodes, hnode]
  | forEach item list body _ =>
      apply within_eval_as (fun _ h => by simp [Stmt.nodes, h]) fun _ => rfl
      intro ref node (hnode : node ∈ body.nodes)
      simp [Stmt.nodes, hnode]
  | increment name _ | decrement name _ =>
      exact within_bind (within_act rfl) fun _ => within_pure _
  | exit _ => exact within_act rfl
  | run call _ =>
      exact within_bind (List.subset_cons_self _ _) fun _ => within_pure _
  | result value _ =>
      apply within_bind (within_act rfl)
      intro outside
      cases outside with
      | true => exact within_act rfl
      | false =>
          apply within_bind (within_eval (List.subset_cons_self _ _))
          intro value
          exact within_pure _

/-- What a loop does after its body. -/
theorem within_afterTurn {again : Script Flow} (h : again.Within n nodes)
    (flow : Flow) : (afterTurn again flow).Within n nodes := by
  cases flow with
  | normal => exact h
  | leave | result _ => exact within_pure _

/-- The faults of a task stay among its nodes. -/
theorem Task.within_script (t : Task α) : t.script.Within n t.nodes := by
  cases t with
  | expr e => exact ⟨⟨.expr e, e.mem_nodes, rfl⟩, within_exprScript e⟩
  | exprs es =>
      cases es with
      | nil => exact within_pure _
      | cons e es =>
          apply within_bind (within_eval (List.subset_append_left _ _))
          intro value
          exact within_bind (List.subset_append_right _ _) fun _ => within_pure _
  | arguments args =>
      cases args with
      | nil => exact within_pure _
      | cons arg args =>
          obtain ⟨name, nameSpan, value⟩ := arg
          apply within_bind
          · intro node (hnode : node ∈ value.nodes)
            simp [nodes, Argument.nodesOf, hnode]
          · intro value
            apply within_bind
            · intro node (hnode : node ∈ Argument.nodesOf args)
              simp [nodes, Argument.nodesOf, hnode]
            · intro rest
              exact within_pure _
  | call c => exact within_callScript c
  | stmt s => exact ⟨⟨.stmt s, s.mem_nodes, rfl⟩, within_stmtScript s⟩
  | stmts ss =>
      cases ss with
      | nil => exact within_pure _
      | cons s rest =>
          rw [script]
          split
          · exact within_pure _
          · apply within_bind
            · exact List.subset_append_left _ _
            · intro flow
              cases flow with
              | normal => exact List.subset_append_right _ _
              | leave | result _ => exact within_pure _
  | body b =>
      cases b with
      | block block =>
          obtain ⟨stmts, span⟩ := block
          exact List.Subset.refl _
      | sentence s => exact List.Subset.refl _
  | loop condition b =>
      apply within_eval_as (List.subset_append_left _ _) fun _ => rfl
      intro truth
      cases truth with
      | true =>
          apply within_bind
          · exact List.subset_append_right _ _
          · intro flow
            exact within_afterTurn (List.Subset.refl _) flow
      | false => exact within_pure _
  | forEach item ref walk b =>
      apply within_bind (within_act rfl)
      rintro ⟨_ | value, walk⟩
      · exact within_pure _
      · apply within_bind
        · exact List.Subset.refl _
        · intro flow
          exact within_afterTurn (List.Subset.refl _) flow

theorem Task.explains {t : Task α} (h : t.run n m = some (.error f, m')) :
    ∃ raised, t.raised? n m = some raised ∧ raised.Explains t.nodes m f := by
  induction n generalizing α m m' f with
  | zero =>
      rw [t.run_zero] at h
      contradiction
  | succ n ih =>
      rw [t.run_succ] at h
      exact Script.explains t.within_script (fun t => ih) h

/-- A fault that comes out of a statement has a place. -/
theorem Task.span?_ne_none_of_stmt {s : Stmt}
    (h : (Task.stmt s).run n m = some (.error f, m')) (hexit : f.isExit = false) :
    f.span? ≠ none := by
  cases n with
  | zero => cases h
  | succ n =>
      obtain ⟨r₁, _, hr⟩ := Run.located_eq_some h
      cases r₁ with
      | ok flow => contradiction
      | error fault =>
          obtain rfl : f = fault.locate s.span := Except.error.inj hr
          exact Fault.span?_locate_ne_none hexit

/-- A fault stays in the statement it comes out of. Where no call is active, it
stands at a node of the statement, outside every function literal, and its
backtrace names the calls that were active when it was raised, innermost first.
If there were any, it stands at the outermost of them. An exit has no place and
no backtrace. -/
theorem fault_stays_in_statement (n : Nat) (s : Stmt) (m m' : Machine) (f : Fault)
    (hcalls : m.calls.isEmpty = true)
    (h : runStmt n s m = some (.error f, m')) :
    (f.isExit = true → f.span? = none ∧ f.backtrace = []) ∧
    (f.isExit = false → ∃ raised node,
      (Task.stmt s).raised? n m = some raised ∧
      f.cause = raised.fault.cause ∧
      raised.machine.calls.frames = raised.calls.map Call.frame ∧
      f.backtrace = raised.calls.map (fun c => calleeName c.callee) ∧
      node ∈ s.nodes ∧ f.span? = some node.span ∧
      (f.backtrace ≠ [] → ∃ c, node = .call c ∧ raised.calls.getLast? = some c ∧
        f.backtrace.getLast? = some (calleeName c.callee))) := by
  have hrun : (Task.stmt s).run n m = some (.error f, m') := h
  obtain ⟨raised, hraised, hexplains⟩ := Task.explains hrun
  refine ⟨hexplains.exit, fun hexit => ?_⟩
  have hplaced : f.span? ≠ none := Task.span?_ne_none_of_stmt hrun hexit
  obtain ⟨span, hspan⟩ := Option.ne_none_iff_exists'.mp hplaced
  obtain ⟨node, hnode, rfl, hlast⟩ := hexplains.place span hspan
  have hbacktrace := hexplains.backtrace hexit
  have hframes := hexplains.frames
  rw [List.isEmpty_iff.mp hcalls, List.append_nil] at hframes
  refine ⟨raised, node, hraised, hexplains.cause, hframes, hbacktrace, hnode,
    hspan, fun hne => ?_⟩
  have hactive : raised.calls ≠ [] := by
    intro hnil
    rw [hbacktrace, hnil] at hne
    contradiction
  have hc := List.getLast?_eq_some_getLast hactive
  refine ⟨raised.calls.getLast hactive, hlast _ hc, hc, ?_⟩
  rw [hbacktrace, List.getLast?_map, hc]
  rfl

/-- The statement `Run f`, where `f` runs `g` and `g` prints a variable that is
not there. The spans in the two bodies are places in other statements. -/
theorem fault_stays_in_statement_nested_call :
    let g : Function := ⟨1, [], .mk [.print (.name (.ofString "x") ⟨36, 37⟩)
      ⟨30, 37⟩] ⟨28, 38⟩⟩
    let f : Function := ⟨0, [], .mk [.run (.mk (.name (.ofString "g") ⟨34, 35⟩) []
      ⟨34, 35⟩) ⟨30, 35⟩] ⟨28, 36⟩⟩
    let call : Call := .mk (.name (.ofString "f") ⟨4, 5⟩) [] ⟨4, 5⟩
    let s : Stmt := .run call ⟨0, 5⟩
    let frame : Frame :=
      ⟨[(.ofString "f", .function f), (.ofString "g", .function g)]⟩
    let m : Machine := { Machine.start default none with scope := ⟨frame, []⟩ }
    let fault : Fault := ⟨.noSuchVariable "x", some ⟨4, 5⟩, ["`g`", "`f`"]⟩
    m.calls.isEmpty = true ∧ fault.isExit = false ∧
    ∃ m' raised node, runStmt 12 s m = some (.error fault, m') ∧
      (Task.stmt s).raised? 12 m = some raised ∧
      fault.cause = raised.fault.cause ∧
      raised.machine.calls.frames = raised.calls.map Call.frame ∧
      fault.backtrace = raised.calls.map (fun c => calleeName c.callee) ∧
      node ∈ s.nodes ∧ fault.span? = some node.span ∧
      (fault.backtrace ≠ [] → ∃ c, node = .call c ∧ raised.calls.getLast? = some c ∧
        fault.backtrace.getLast? = some (calleeName c.callee)) := by
  intro g f call s frame m fault
  obtain ⟨raised, node, hfault⟩ :=
    (fault_stays_in_statement 12 s m _ fault rfl rfl).2 rfl
  exact ⟨rfl, rfl, _, raised, node, rfl, hfault⟩

end Prose.Eval
