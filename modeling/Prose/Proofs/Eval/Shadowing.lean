import Prose.Proofs.Eval.LoopExits
import Prose.Proofs.Eval.NamedArguments
import Prose.Proofs.Eval.ScopeNames

/-!
What a parameter hides. An assignment changes the innermost binding of a name,
so a frame that binds the name keeps assignments to it from the frames around
that frame, however far inside they are made. Frames are entered and left one
inside the other and no frame loses a name; hence the frame of a call, or of a
turn of a loop, hides the variables of its caller as long as it lasts.
-/

namespace Prose

namespace Frame

variable {f : Frame} {name other : Name}

/-- The bindings of a name, in whatever case it is written. -/
def bindingsOf (f : Frame) (name : Name) : List (Name × Value) :=
  f.bindings.filter fun b => b.1 == name

theorem binds_of_names_eq {g : Frame} (h : g.names = f.names) (name : Name) :
    g.binds name = f.binds name := by
  rw [Bool.eq_iff_iff, binds_iff, binds_iff, h]

theorem binds_declare (h : f.binds name = true) (other : Name) (value : Value) :
    (f.declare other value).binds name = true := by
  unfold declare
  split
  · rw [binds_of_names_eq (names_update f other value), h]
  · rw [binds, List.any_append]
    exact Bool.or_eq_true_iff.2 (.inl h)

theorem binds_declare_self (f : Frame) (name : Name) (value : Value) :
    (f.declare name value).binds name = true := by
  unfold declare
  split
  · next hbinds => rw [binds_of_names_eq (names_update f name value), hbinds]
  · simp [binds, Name.beq_iff_key]

theorem binds_congr (h : name.key = other.key) : f.binds name = f.binds other := by
  rw [Bool.eq_iff_iff, binds_iff, binds_iff, h]

/-- Changing what another name is bound to leaves the bindings of a name. -/
theorem bindingsOf_update (hne : other.key ≠ name.key) (value : Value) :
    (f.update other value).bindingsOf name = f.bindingsOf name := by
  obtain ⟨bindings⟩ := f
  simp only [bindingsOf, update]
  induction bindings with
  | nil => rfl
  | cons b rest ih =>
      rw [List.map_cons, List.filter_cons, List.filter_cons, ih]
      cases hother : b.1 == other with
      | false => rfl
      | true =>
          have hname : (b.1 == name) = false := by
            rw [Bool.eq_false_iff, ne_eq, Name.beq_iff_key,
              Name.beq_iff_key.1 hother]
            exact hne
          simp [hname]

end Frame

namespace Scope

variable {s : Scope} {name other : Name} {value : Value} {depth : Nat}
  {frames frames' : List Frame} {outer : List (List (Name × Value))}

/-- Inside the given number of frames there is one that binds the name, and the
frames around that one have the given bindings of the name. -/
def Hides (name : Name) (depth : Nat) (outer : List (List (Name × Value)))
    (frames : List Frame) : Prop :=
  ∃ above frame below, frames = above ++ frame :: below ∧
    above.length = depth ∧ frame.binds name = true ∧
    below.map (·.bindingsOf name) = outer

theorem hides_cons {f : Frame} (h : Hides name depth outer frames) :
    Hides name (depth + 1) outer (f :: frames) := by
  obtain ⟨above, frame, below, rfl, rfl, hbinds, hbelow⟩ := h
  exact ⟨f :: above, frame, below, rfl, rfl, hbinds, hbelow⟩

theorem hides_of_cons {f : Frame}
    (h : Hides name (depth + 1) outer (f :: frames)) :
    Hides name depth outer frames := by
  obtain ⟨above, frame, below, heq, hlength, hbinds, hbelow⟩ := h
  cases above with
  | nil => cases hlength
  | cons g above =>
      obtain ⟨rfl, rfl⟩ := List.cons.inj heq
      exact ⟨above, frame, below, rfl, Nat.succ.inj hlength, hbinds, hbelow⟩

theorem bindingsOf_updateFirst? (hne : other.key ≠ name.key)
    (h : updateFirst? other value frames = some frames') :
    frames'.map (·.bindingsOf name) = frames.map (·.bindingsOf name) := by
  induction frames generalizing frames' with
  | nil => cases h
  | cons f rest ih =>
      rw [updateFirst?] at h
      split at h
      · cases h
        simp only [List.map_cons, Frame.bindingsOf_update hne]
      · obtain ⟨rest', hrest, rfl⟩ := Option.map_eq_some_iff.1 h
        simp only [List.map_cons, ih hrest]

/-- The innermost binding of a name is not outside a frame that binds it. -/
theorem hides_updateFirst? (h : Hides name depth outer frames)
    (hupdate : updateFirst? other value frames = some frames') :
    Hides name depth outer frames' := by
  obtain ⟨above, frame, below, rfl, rfl, hbinds, hbelow⟩ := h
  induction above generalizing frames' with
  | nil =>
      rw [List.nil_append, updateFirst?] at hupdate
      split at hupdate
      · cases hupdate
        refine ⟨[], _, below, rfl, rfl, ?_, hbelow⟩
        rw [Frame.binds_of_names_eq (Frame.names_update _ _ _), hbinds]
      · next hother =>
          obtain ⟨below', hrest, rfl⟩ := Option.map_eq_some_iff.1 hupdate
          have hne : other.key ≠ name.key := by
            intro heq
            rw [Frame.binds_congr heq] at hother
            exact hother hbinds
          refine ⟨[], frame, below', rfl, rfl, hbinds, ?_⟩
          rw [bindingsOf_updateFirst? hne hrest, hbelow]
  | cons f above ih =>
      rw [List.cons_append, updateFirst?] at hupdate
      split at hupdate
      · cases hupdate
        exact ⟨_ :: above, frame, below, rfl, rfl, hbinds, hbelow⟩
      · obtain ⟨rest, hrest, rfl⟩ := Option.map_eq_some_iff.1 hupdate
        exact hides_cons (ih hrest)

theorem hides_declare (h : Hides name depth outer s.frames) :
    Hides name depth outer (s.declare other value).frames := by
  obtain ⟨above, frame, below, heq, rfl, hbinds, hbelow⟩ := h
  cases above with
  | nil =>
      obtain ⟨hinner, houter⟩ := List.cons.inj heq
      refine ⟨[], _, below, congrArg _ houter, rfl, ?_, hbelow⟩
      apply Frame.binds_declare
      rw [hinner]
      exact hbinds
  | cons f above =>
      obtain ⟨-, houter⟩ := List.cons.inj heq
      exact ⟨_ :: above, frame, below, congrArg _ houter, rfl, hbinds, hbelow⟩

theorem hides_assign (h : Hides name depth outer s.frames) :
    Hides name depth outer (s.assign other value).frames := by
  unfold assign
  split
  · next inner rest hupdate => exact hides_updateFirst? h hupdate
  · exact hides_declare h

theorem hides_leave (h : Hides name (depth + 1) outer s.frames) :
    Hides name depth outer s.leave.frames := by
  have hinside := hides_of_cons h
  obtain ⟨inner, rest⟩ := s
  cases rest with
  | nil =>
      obtain ⟨above, frame, below, heq, -⟩ := hinside
      simp at heq
  | cons next rest => exact hinside

theorem frames_leave (h : s.outer ≠ []) : s.leave.frames = s.outer := by
  obtain ⟨inner, _ | ⟨frame, rest⟩⟩ := s
  · exact absurd rfl h
  · rfl

def outermost (s : Scope) (count : Nat) : List Frame :=
  s.frames.drop (s.frames.length - count)

/-- Frames that are hidden are the outermost ones. -/
theorem outermost_of_hides (h : Hides name depth outer s.frames) :
    outer.length < s.depth ∧
      (s.outermost outer.length).map (·.bindingsOf name) = outer := by
  obtain ⟨above, frame, below, heq, -, -, rfl⟩ := h
  have hlength : s.frames.length = above.length + (below.length + 1) := by
    rw [heq, List.length_append, List.length_cons]
  rw [List.length_map]
  constructor
  · change below.length < s.frames.length
    omega
  · have hcount : s.frames.length - below.length = (above ++ [frame]).length := by
      rw [List.length_append, List.length_singleton]
      omega
    have hsplit : s.frames = (above ++ [frame]) ++ below := by
      rw [heq, List.append_assoc, List.singleton_append]
    rw [outermost, hcount, hsplit, List.drop_left]

end Scope

namespace Eval

open Scope

variable {α : Type} {name : Name} {m m₁ m' : Machine} {frame : Frame} {n : Nat}

/-! ### Runs -/

/-- What is hidden in the first machine is hidden as deep in the second one. -/
def KeepsHidden (name : Name) (m m' : Machine) : Prop :=
  ∀ depth outer, Hides name depth outer m.scope.frames →
    Hides name depth outer m'.scope.frames

/-- What is hidden in the first machine is hidden in the second one. -/
def StaysHidden (name : Name) (m m₁ : Machine) : Prop :=
  ∀ depth outer, Hides name depth outer m.scope.frames →
    ∃ depth', Hides name depth' outer m₁.scope.frames

theorem steady_keepsHidden (name : Name) : Steady (KeepsHidden name) where
  refl _ _ _ h := h
  trans h₁ h₂ depth outer h := h₂ depth outer (h₁ depth outer h)
  change hchange depth outer h := by
    cases hchange with
    | assigned other value => exact hides_assign h
    | _ => exact h
  around s m inner m' henter hinner depth outer h := by
    cases s with
    | here => cases henter; exact hinner depth outer h
    | frame f =>
        cases henter
        exact hides_leave (hinner (depth + 1) outer (hides_cons h))
    | call c f =>
        obtain rfl := Setting.enter_call_eq_ok henter
        exact hides_leave (hinner (depth + 1) outer (hides_cons h))

theorem passing_staysHidden (name : Name) :
    Passing (KeepsHidden name) (StaysHidden name) where
  steady := steady_keepsHidden name
  of_steady h depth outer hhides := ⟨depth, h depth outer hhides⟩
  after h h₁ depth outer hhides := h₁ depth outer (h depth outer hhides)
  inside s m inner m₁ henter h depth outer hhides := by
    cases s with
    | here => cases henter; exact h depth outer hhides
    | frame f => cases henter; exact h (depth + 1) outer (hides_cons hhides)
    | call c f =>
        obtain rfl := Setting.enter_call_eq_ok henter
        exact h (depth + 1) outer (hides_cons hhides)

/-- The variables of a name around the innermost frame of a machine are those
they were, at every moment of a task and when it has ended. -/
structure Untouched (name : Name) (t : Task α) (inner : Machine) : Prop where
  /-- The frame is still there, and so are the bindings around it. -/
  meanwhile : ∀ n, ∀ m₁ ∈ t.passes n inner,
    inner.scope.outer.length < m₁.scope.depth ∧
      (m₁.scope.outermost inner.scope.outer.length).map (·.bindingsOf name) =
        inner.scope.outer.map (·.bindingsOf name)
  afterwards : ∀ r m', t.Ends inner r m' →
    m'.scope.outer.map (·.bindingsOf name) =
      inner.scope.outer.map (·.bindingsOf name)

/-- A frame that binds a name keeps tasks inside it from the variables of that
name around it. -/
theorem untouched_of_binds {inner : Machine}
    (hbinds : inner.scope.inner.binds name = true) (t : Task α) :
    Untouched name t inner := by
  have hhides : Hides name 0 (inner.scope.outer.map (·.bindingsOf name))
      inner.scope.frames := ⟨[], _, _, rfl, rfl, hbinds, rfl⟩
  constructor
  · intro n m₁ hm₁
    obtain ⟨depth, hdeep⟩ := (passing_staysHidden name).task hm₁ _ _ hhides
    have houtermost := outermost_of_hides hdeep
    rw [List.length_map] at houtermost
    exact houtermost
  · rintro r m' ⟨n, hrun⟩
    obtain ⟨above, frame, below, heq, hnil, -, hbelow⟩ :=
      (steady_keepsHidden name).task t hrun _ _ hhides
    rw [List.length_eq_zero_iff.1 hnil] at heq
    rw [← hbelow, (List.cons.inj heq).2]

/-! ### Calls and turns -/

/-- The frame of a call binds the parameters, inside the frames of the caller. -/
theorem BeginsCall.binds {c : Call} {f : Function} {inner : Machine}
    (h : BeginsCall c m f frame inner) (hkey : name.key ∈ Name.keys f.params) :
    inner.scope.inner.binds name = true ∧ inner.scope.outer ≠ [] := by
  obtain ⟨m₁, args, m₂, -, -, hframe, henter⟩ := h
  have hscope : inner.scope = m₂.scope.enter frame := by
    rw [Setting.enter_call_eq_ok henter]
  rw [hscope]
  exact ⟨(binds_of_bindArguments hframe name).2 hkey, List.cons_ne_nil _ _⟩

/-- A call that has begun ends when its body does. -/
theorem BeginsCall.ends {c : Call} {f : Function} {inner : Machine}
    {r : Except Fault (Option Value)} (h : BeginsCall c m f frame inner)
    (hends : (Task.call c).Ends m r m') :
    ∃ r₁ m₁, (Task.stmts f.body.stmts).Ends inner r₁ m₁ ∧
      m' = (Setting.call c frame).leave m₁ := by
  obtain ⟨m₁, args, m₂, hcallee, hargs, hframe, henter⟩ := h
  have hbound : (Script.act (.bind c f.params args)).Ends m₂ (.ok frame) m₂ :=
    Script.ends_act.2 (congrArg (fun r => some (r, m₂)) hframe)
  have hbody : ∀ {r₁ m₃}, (Script.perform (.call c frame)
      (.stmts f.body.stmts)).Ends m₂ r₁ m₃ →
      ∃ r₂ m₄, (Task.stmts f.body.stmts).Ends inner r₂ m₄ ∧
        m₃ = (Setting.call c frame).leave m₄ := by
    rintro r₁ m₃ ⟨n, hrun⟩
    rcases Setting.around_eq_some hrun with
      ⟨fault, herror, _⟩ | ⟨inner', r₂, m₄, hok, hinner, _, rfl⟩
    · rw [henter] at herror
      cases herror
    · rw [henter] at hok
      cases hok
      exact ⟨r₂, m₄, ⟨n, hinner⟩, rfl⟩
  have hscript := Task.ends_iff.1 hends
  have hfunction :=
    (Script.ends_bind_of_ends (Script.ends_here.2 hcallee)).1 hscript
  have hpassed := (Script.ends_bind_of_ends (Script.ends_act.2 rfl)).1 hfunction
  have hbind :=
    (Script.ends_bind_of_ends (Script.ends_here.2 hargs)).1 hpassed
  have hcall := (Script.ends_bind_of_ends hbound).1 hbind
  rcases Script.ends_bind.1 hcall with ⟨fault, hfault, _⟩ | ⟨flow, m₃, hflow, hgive⟩
  · exact hbody hfault
  · have hsame : m' = m₃ := by
      cases flow <;> exact (Script.ends_pure.1 hgive).2
    rw [hsame]
    exact hbody hflow

/-- When the frame is left, the frames around it have the bindings of the name
that they had. -/
theorem Untouched.left {t : Task α} {inner : Machine} {r : Except Fault α}
    (h : Untouched name t inner) (houter : inner.scope.outer ≠ [])
    (hends : t.Ends inner r m₁) :
    m₁.scope.leave.frames.map (·.bindingsOf name) =
      inner.scope.outer.map (·.bindingsOf name) := by
  have hsame := h.afterwards r m₁ hends
  have hstill : m₁.scope.outer ≠ [] := by
    intro hnil
    rw [hnil, List.map_nil, eq_comm, List.map_eq_nil_iff] at hsame
    exact houter hsame
  rw [frames_leave hstill, hsame]

/-- Parameters and the variables of loops do not touch the variables around
them. From the moment at which the arguments of a call are bound until its body
has ended, in whatever way, the frames around that of the call have the same
bindings of every parameter, in whatever case it is written, and they have them
when the call has ended; so it is with the variable of a for-each loop and every
turn of the loop. -/
theorem parameters_hide_outer_variables :
    (∀ c m f frame inner, BeginsCall c m f frame inner →
      ∀ param ∈ f.params, ∀ name : Name, name.key = param.key →
        Untouched name (.stmts f.body.stmts) inner ∧
        ∀ r m', (Task.call c).Ends m r m' →
          m'.scope.frames.map (·.bindingsOf name) =
            inner.scope.outer.map (·.bindingsOf name)) ∧
    ∀ item ref walk body m frame loop m₁,
      (Loop.each item ref walk body).Begins m frame loop m₁ →
      ∀ name : Name, name.key = item.key →
        Untouched name (.body body) (m₁.enter frame) ∧
        ∀ r m', (Script.perform (.frame frame) (.body body)).Ends m₁ r m' →
          m'.scope.frames.map (·.bindingsOf name) =
            m₁.scope.frames.map (·.bindingsOf name) := by
  constructor
  · intro c m f frame inner hbegins param hparam name hkey
    have hmem : name.key ∈ Name.keys f.params := by
      rw [hkey]
      exact List.mem_map_of_mem hparam
    obtain ⟨hbinds, houter⟩ := hbegins.binds hmem
    have huntouched := untouched_of_binds hbinds (.stmts f.body.stmts)
    refine ⟨huntouched, fun r m' hends => ?_⟩
    obtain ⟨r₁, m₃, hbody, rfl⟩ := hbegins.ends hends
    exact huntouched.left houter hbody
  · intro item ref walk body m frame loop m₁ hbegins name hkey
    have hbinds : (m₁.enter frame).scope.inner.binds name = true := by
      cases hbegins
      exact (Frame.binds_congr hkey).trans (Frame.binds_declare_self _ _ _)
    have huntouched := untouched_of_binds hbinds (.body body)
    refine ⟨huntouched, fun r m' hends => ?_⟩
    obtain ⟨m₂, hbody, rfl⟩ := Script.ends_frame.1 hends
    exact huntouched.left (List.cons_ne_nil _ _) hbody

/-- A call and a turn of a loop that run `g`, which assigns to `X`, and the
variable `x` around them. -/
theorem parameters_hide_outer_variables_assigned :
    let x := Name.ofString "x"
    let g : Function := ⟨1, [], .mk [.assign (.name (.ofString "X"))
      (.integer 5 ⟨40, 41⟩) ⟨32, 41⟩] ⟨30, 42⟩⟩
    let runG : Stmt := .run (.mk (.name (.ofString "g") ⟨34, 35⟩) [] ⟨34, 35⟩)
      ⟨30, 35⟩
    let f : Function := ⟨0, [x], .mk [runG, .result (.name x ⟨50, 51⟩) ⟨36, 51⟩]
      ⟨28, 52⟩⟩
    let c : Call := .mk (.name (.ofString "f") ⟨4, 5⟩)
      [.mk x ⟨11, 12⟩ (.integer 2 ⟨16, 17⟩)] ⟨4, 17⟩
    let global : Frame := ⟨[(x, .integer 1), (.ofString "f", .function f),
      (.ofString "g", .function g)]⟩
    let m : Machine := { Machine.start default none with
      heap := ⟨#[Chain.ofList [.integer 7]]⟩, scope := ⟨global, []⟩ }
    (∃ frame inner m', BeginsCall c m f frame inner ∧
      (Task.call c).Ends m (.ok (some (.integer 5))) m' ∧
      m'.scope.frames.map (·.bindingsOf x) = [[(x, .integer 1)]]) ∧
    ∃ loop frame m',
      (Loop.each x ⟨0⟩ .start (.sentence runG)).Begins m frame loop m ∧
      (Script.perform (.frame frame) (.body (.sentence runG))).Ends m
        (.ok .normal) m' ∧
      m'.scope.frames.map (·.bindingsOf x) = [[(x, .integer 1)]] := by
  intro x g runG f c global m
  obtain ⟨hcalls, hturns⟩ := parameters_hide_outer_variables
  have hbegins : BeginsCall c m f ⟨[(x, .integer 2)]⟩ _ :=
    ⟨m, [⟨x, ⟨11, 12⟩, .integer 2⟩], m, ⟨2, rfl⟩, ⟨3, rfl⟩, rfl, rfl⟩
  have hturn : (Loop.each x ⟨0⟩ .start (.sentence runG)).Begins m _ _ m :=
    .each rfl
  have hcall : (Task.call c).Ends m (.ok (some (.integer 5))) _ := ⟨9, rfl⟩
  have hbody : (Script.perform (.frame (Frame.empty.declare x (.integer 7)))
      (.body (.sentence runG))).Ends m (.ok .normal) _ := ⟨9, rfl⟩
  refine ⟨⟨_, _, _, hbegins, hcall, ?_⟩, ⟨_, _, _, hturn, hbody, ?_⟩⟩
  · exact (hcalls c m f _ _ hbegins x (by simp [f]) x rfl).2 _ _ hcall
  · exact (hturns x ⟨0⟩ .start _ m _ _ m hturn x rfl).2 _ _ hbody

end Eval

end Prose
