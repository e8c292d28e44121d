import Mathlib.Data.List.Perm.Subperm
import Prose.Proofs.Eval.Endings

/-!
Which arguments a function takes. Binding looks only at the number of the
arguments, and at each of them in turn: is it a parameter, and was it given
before? That is enough for every parameter to be given, because as many
different names as there are parameters, all of them parameters, are all the
parameters. A function that names a parameter twice has more parameters than
there are names to give, so it cannot be called.
-/

namespace Prose

theorem Name.beq_iff_key {m n : Name} : (m == n) = true ↔ m.key = n.key :=
  beq_iff_eq (α := String)

/-- The spellings by which names are compared. -/
def Name.keys (names : List Name) : List String := names.map (·.key)

theorem Name.contains_iff {names : List Name} {name : Name} :
    names.contains name = true ↔ name.key ∈ keys names := by
  rw [List.contains_eq_any_beq, List.any_eq_true, keys, List.mem_map]
  constructor
  · rintro ⟨n, hn, hsame⟩
    exact ⟨n, hn, (beq_iff_key.1 hsame).symm⟩
  · rintro ⟨n, hn, hkey⟩
    exact ⟨n, hn, beq_iff_key.2 hkey.symm⟩

namespace Frame

variable {f : Frame} {name : Name}

theorem binds_iff : f.binds name = true ↔ name.key ∈ Name.keys f.names := by
  rw [binds, List.any_eq_true, names, Name.keys, List.map_map, List.mem_map]
  constructor
  · rintro ⟨b, hb, hsame⟩
    exact ⟨b, hb, Name.beq_iff_key.1 hsame⟩
  · rintro ⟨b, hb, hkey⟩
    exact ⟨b, hb, Name.beq_iff_key.2 hkey⟩

/-- Where no name is bound twice, a binding is found by its name. -/
theorem get?_of_mem {value : Value} (hnodup : (Name.keys f.names).Nodup)
    (h : (name, value) ∈ f.bindings) {other : Name} (hkey : other.key = name.key) :
    f.get? other = some value := by
  obtain ⟨bindings⟩ := f
  induction bindings with
  | nil => cases h
  | cons b rest ih =>
      have hsplit : b.1.key ∉ Name.keys (Frame.mk rest).names ∧
          (Name.keys (Frame.mk rest).names).Nodup := List.nodup_cons.1 hnodup
      rcases List.mem_cons.1 h with rfl | hrest
      · simp [get?, Name.beq_iff_key.2 hkey.symm]
      · have hother : (b.1 == other) = false := by
          rw [Bool.eq_false_iff, ne_eq, Name.beq_iff_key, hkey]
          rintro heq
          apply hsplit.1
          rw [heq]
          exact List.mem_map_of_mem (List.mem_map_of_mem hrest)
        have hfound := ih hsplit.2 hrest
        simpa [get?, hother] using hfound

theorem get?_eq_none_of_not_binds (h : f.binds name = false) :
    f.get? name = none := by
  rw [get?, Option.map_eq_none_iff, List.find?_eq_none]
  intro b hb hsame
  rw [binds, List.any_eq_false] at h
  exact h b hb hsame

/-- Two frames with the same bindings, none of them of one name, give every name
the same value. -/
theorem get?_of_perm {g : Frame} (hperm : g.bindings.Perm f.bindings)
    (hnodup : (Name.keys f.names).Nodup) (name : Name) :
    g.get? name = f.get? name := by
  have hnames : (Name.keys g.names).Perm (Name.keys f.names) :=
    (hperm.map _).map _
  have hbinds : g.binds name = f.binds name := by
    rw [Bool.eq_iff_iff, binds_iff, binds_iff, hnames.mem_iff]
  cases hbound : f.binds name with
  | false =>
      rw [get?_eq_none_of_not_binds hbound,
        get?_eq_none_of_not_binds (hbinds.trans hbound)]
  | true =>
      obtain ⟨b, hb, hsame⟩ := List.any_eq_true.1 hbound
      have hkey : name.key = b.1.key := (Name.beq_iff_key.1 hsame).symm
      rw [get?_of_mem hnodup hb hkey,
        get?_of_mem (hnames.nodup_iff.2 hnodup) (hperm.mem_iff.2 hb) hkey]

end Frame

namespace Eval

variable {params : List Name} {args given : List Passed} {span : Span}
  {bound : Frame} {fault : Fault}

def Passed.keys (args : List Passed) : List String := args.map (·.name.key)

/-- The frame that has the arguments as its bindings. -/
def Passed.frame (args : List Passed) : Frame :=
  ⟨args.map fun arg => (arg.name, arg.value)⟩

theorem keys_frame : Name.keys (Passed.frame args).names = Passed.keys args := by
  simp [Name.keys, Frame.names, Passed.frame, Passed.keys, Function.comp_def]

/-- The arguments are parameters, and none of them is given twice. -/
structure Admits (params : List Name) (args : List Passed) : Prop where
  known : ∀ arg ∈ args, arg.name.key ∈ Name.keys params
  distinct : (Passed.keys args).Nodup

/-- An argument after the given ones is refused with a fault: it is no parameter,
or it was given before. -/
inductive Refuses (params : List Name) (given : List Passed) (arg : Passed) :
    Fault → Prop where
  | unknown (h : arg.name.key ∉ Name.keys params) :
      Refuses params given arg
        ⟨.unknownParameter arg.name.text, some arg.nameSpan, []⟩
  | duplicate (h : arg.name.key ∈ Name.keys params)
      (hgiven : arg.name.key ∈ Passed.keys given) :
      Refuses params given arg
        ⟨.duplicateParameter arg.name.text, some arg.nameSpan, []⟩

/-- The arguments are refused with the fault of the first one that is wrong. -/
def RefusesFirst (params : List Name) (args : List Passed) (fault : Fault) :
    Prop :=
  ∃ before arg after, args = before ++ arg :: after ∧ Admits params before ∧
    Refuses params before arg fault

theorem admits_nil (params : List Name) : Admits params [] :=
  ⟨nofun, List.nodup_nil⟩

theorem Admits.concat {arg : Passed} (h : Admits params given)
    (hknown : arg.name.key ∈ Name.keys params)
    (hnew : arg.name.key ∉ Passed.keys given) :
    Admits params (given ++ [arg]) := by
  constructor
  · intro other hother
    rcases List.mem_append.1 hother with hother | hother
    · exact h.known other hother
    · rw [List.mem_singleton.1 hother]
      exact hknown
  · rw [Passed.keys, List.map_append]
    apply List.Nodup.append h.distinct (List.nodup_singleton _)
    rw [List.disjoint_singleton]
    exact hnew

/-- A refused argument is none that could be given. -/
theorem Refuses.not_admits {arg : Passed} {after : List Passed}
    (h : Refuses params given arg fault) :
    ¬Admits params (given ++ arg :: after) := by
  intro hadmits
  cases h with
  | unknown hunknown => exact hunknown (hadmits.known arg (by simp))
  | duplicate _ hgiven =>
      have hdistinct := hadmits.distinct
      rw [Passed.keys, List.map_append, List.nodup_append] at hdistinct
      exact hdistinct.2.2 _ hgiven _ (by simp) rfl

theorem declare_frame {arg : Passed} (hnew : arg.name.key ∉ Passed.keys given) :
    (Passed.frame given).declare arg.name arg.value =
      Passed.frame (given ++ [arg]) := by
  have hunbound : (Passed.frame given).binds arg.name = false := by
    rw [Bool.eq_false_iff, ne_eq, Frame.binds_iff, keys_frame]
    exact hnew
  rw [Frame.declare, hunbound]
  simp [Passed.frame]

/-- Binding goes through all arguments, or stops at the first that is wrong. -/
theorem bindEach_cases (args : List Passed) (hgiven : Admits params given) :
    Admits params (given ++ args) ∧
        bindEach params (Passed.frame given) args =
          .ok (Passed.frame (given ++ args)) ∨
      ∃ before arg after fault, args = before ++ arg :: after ∧
        Admits params (given ++ before) ∧
        Refuses params (given ++ before) arg fault ∧
        bindEach params (Passed.frame given) args = .error fault := by
  induction args generalizing given with
  | nil =>
      left
      rw [List.append_nil]
      exact ⟨hgiven, rfl⟩
  | cons arg rest ih =>
      rw [bindEach]
      split
      · next hunknown =>
          rw [Bool.not_eq_true', Bool.eq_false_iff, ne_eq, Name.contains_iff]
            at hunknown
          exact .inr ⟨[], arg, rest, _, rfl, by simpa using hgiven,
            .unknown hunknown, rfl⟩
      · next hknown =>
          rw [Bool.not_eq_true', Bool.not_eq_false, Name.contains_iff] at hknown
          split
          · next hbound =>
              rw [Frame.binds_iff, keys_frame] at hbound
              exact .inr ⟨[], arg, rest, _, rfl, by simpa using hgiven,
                .duplicate hknown (by simpa using hbound), rfl⟩
          · next hunbound =>
              rw [Frame.binds_iff, keys_frame] at hunbound
              rw [declare_frame hunbound]
              -- From here on the argument is one of those that were given.
              rcases ih (hgiven.concat hknown hunbound) with
                ⟨hadmits, hok⟩ | ⟨before, wrong, after, fault, rfl, hrest⟩
              · rw [List.append_assoc] at hadmits hok
                exact .inl ⟨hadmits, hok⟩
              · rw [List.append_assoc] at hrest
                exact .inr ⟨arg :: before, wrong, after, fault, rfl, hrest⟩

theorem bindArguments_eq_ok_iff :
    bindArguments params span args = .ok bound ↔
      params.length = args.length ∧ Admits params args ∧
        bound = Passed.frame args := by
  unfold bindArguments
  split
  · next hlength =>
      constructor
      · nofun
      · exact fun h => absurd h.1 hlength
  · next hlength =>
      have hcases := bindEach_cases args (admits_nil params)
      change bindEach params (Passed.frame []) args = _ ↔ _
      rcases hcases with ⟨hadmits, hok⟩ |
        ⟨before, arg, after, fault, rfl, _, hrefuses, herror⟩
      · rw [hok]
        constructor
        · rintro ⟨⟩
          exact ⟨not_not.1 hlength, hadmits, rfl⟩
        · rintro ⟨-, -, rfl⟩
          rfl
      · rw [herror]
        constructor
        · nofun
        · exact fun h => absurd h.2.1 hrefuses.not_admits

theorem bindArguments_eq_error
    (h : bindArguments params span args = .error fault) :
    params.length ≠ args.length ∧
        fault = ⟨.badParameterCount params.length args.length, some span, []⟩ ∨
      params.length = args.length ∧ RefusesFirst params args fault := by
  unfold bindArguments at h
  split at h
  · next hlength =>
      cases h
      exact .inl ⟨hlength, rfl⟩
  · next hlength =>
      right
      refine ⟨not_not.1 hlength, ?_⟩
      have hcases := bindEach_cases args (admits_nil params)
      change bindEach params (Passed.frame []) args = _ at h
      rcases hcases with ⟨_, hok⟩ |
        ⟨before, arg, after, first, hargs, hbefore, hrefuses, herror⟩
      · rw [hok] at h
        cases h
      · rw [herror] at h
        cases h
        exact ⟨before, arg, after, hargs, hbefore, hrefuses⟩

/-- As many different parameters as there are parameters are all of them. -/
theorem admits_iff_perm :
    params.length = args.length ∧ Admits params args ↔
      (Name.keys params).Nodup ∧ (Passed.keys args).Perm (Name.keys params) := by
  constructor
  · rintro ⟨hlength, hadmits⟩
    have hsubset : Passed.keys args ⊆ Name.keys params := by
      intro key hkey
      obtain ⟨arg, harg, rfl⟩ := List.mem_map.1 hkey
      exact hadmits.known arg harg
    have hperm : (Passed.keys args).Perm (Name.keys params) := by
      apply (hadmits.distinct.subperm hsubset).perm_of_length_le
      simp [Name.keys, Passed.keys, hlength]
    exact ⟨hperm.nodup_iff.1 hadmits.distinct, hperm⟩
  · rintro ⟨hnodup, hperm⟩
    refine ⟨?_, ?_, hperm.nodup_iff.2 hnodup⟩
    · simpa [Name.keys, Passed.keys] using hperm.length_eq.symm
    · intro arg harg
      exact hperm.mem_iff.1 (List.mem_map_of_mem harg)

/-- The frame of a call binds the parameters and no other name. -/
theorem binds_of_bindArguments (h : bindArguments params span args = .ok bound)
    (name : Name) :
    bound.binds name = true ↔ name.key ∈ Name.keys params := by
  obtain ⟨hlength, hadmits, rfl⟩ := bindArguments_eq_ok_iff.1 h
  obtain ⟨-, hperm⟩ := admits_iff_perm.1 ⟨hlength, hadmits⟩
  rw [Frame.binds_iff, keys_frame, hperm.mem_iff]

/-- A call that ends well has bound its arguments. -/
theorem bindArguments_of_ends {c : Call} {m m₁ m' : Machine} {f : Function}
    {given : Option Value}
    (hcallee : (Task.expr c.callee).Ends m (.ok (.function f)) m₁)
    (h : (Task.call c).Ends m (.ok given) m') :
    ∃ args frame, bindArguments f.params c.span args = .ok frame := by
  have hfunction := (Script.ends_bind_of_ends (Script.ends_here.2 hcallee)).1
    (Task.ends_iff.1 h)
  have hargs := (Script.ends_bind_of_ends (Script.ends_act.2 rfl)).1 hfunction
  rcases Script.ends_bind.1 hargs with ⟨_, _, ⟨⟩⟩ | ⟨args, m₂, _, hframe⟩
  rcases Script.ends_bind.1 hframe with ⟨_, _, ⟨⟩⟩ | ⟨frame, m₃, hbind, _⟩
  exact ⟨args, frame, (Run.answer_inj (Script.ends_act.1 hbind)).1⟩

/-- Binding succeeds exactly if no parameter is named twice and the names of the
arguments are those of the parameters in some order. The frame then binds each
parameter once, to the value given under its name, and so it is the same for
every order of the arguments. Binding fails because of the number of arguments,
or else because of the first argument that is no parameter or was given before.
A function that names a parameter twice cannot be called. -/
theorem bindArguments_takes_permutations (params : List Name) (span : Span)
    (args : List Passed) :
    ((∃ frame, bindArguments params span args = .ok frame) ↔
      (Name.keys params).Nodup ∧ (Passed.keys args).Perm (Name.keys params)) ∧
    (∀ frame, bindArguments params span args = .ok frame →
      (Name.keys frame.names).Perm (Name.keys params) ∧
      (∀ name, frame.binds name = true ↔ name.key ∈ Name.keys params) ∧
      (∀ arg ∈ args, ∀ name, name.key = arg.name.key →
        frame.get? name = some arg.value) ∧
      ∀ reordered, reordered.Perm args →
        ∃ frame', bindArguments params span reordered = .ok frame' ∧
          frame'.bindings.Perm frame.bindings ∧
          ∀ name, frame'.get? name = frame.get? name) ∧
    (∀ fault, bindArguments params span args = .error fault →
      params.length ≠ args.length ∧
          fault = ⟨.badParameterCount params.length args.length, some span, []⟩ ∨
        params.length = args.length ∧ RefusesFirst params args fault) ∧
    (¬(Name.keys params).Nodup →
      (∀ others, ∃ fault, bindArguments params span others = .error fault) ∧
      ∀ (f : Function) (c : Call) (m m₁ : Machine), f.params = params →
        (Task.expr c.callee).Ends m (.ok (.function f)) m₁ →
        ∀ given m', ¬(Task.call c).Ends m (.ok given) m') := by
  have hok : ∀ {others : List Passed}, params.length = others.length ∧
      Admits params others →
      bindArguments params span others = .ok (Passed.frame others) :=
    fun h => bindArguments_eq_ok_iff.2 ⟨h.1, h.2, rfl⟩
  refine ⟨?_, ?_, fun fault => bindArguments_eq_error, ?_⟩
  · rw [← admits_iff_perm]
    constructor
    · rintro ⟨frame, h⟩
      obtain ⟨hlength, hadmits, -⟩ := bindArguments_eq_ok_iff.1 h
      exact ⟨hlength, hadmits⟩
    · exact fun h => ⟨_, hok h⟩
  · intro frame h
    obtain ⟨hlength, hadmits, rfl⟩ := bindArguments_eq_ok_iff.1 h
    obtain ⟨hnodup, hperm⟩ := admits_iff_perm.1 ⟨hlength, hadmits⟩
    have hdistinct : (Name.keys (Passed.frame args).names).Nodup := by
      rw [keys_frame]
      exact hadmits.distinct
    refine ⟨?_, binds_of_bindArguments h, ?_, ?_⟩
    · rw [keys_frame]
      exact hperm
    · intro arg harg name hkey
      exact Frame.get?_of_mem hdistinct
        (List.mem_map_of_mem (f := fun arg => (arg.name, arg.value)) harg) hkey
    · intro reordered hreordered
      have hkeys : (Passed.keys reordered).Perm (Passed.keys args) :=
        hreordered.map _
      have hbindings : (Passed.frame reordered).bindings.Perm
          (Passed.frame args).bindings := hreordered.map _
      refine ⟨_, hok (admits_iff_perm.2 ⟨hnodup, hkeys.trans hperm⟩),
        hbindings, ?_⟩
      exact Frame.get?_of_perm hbindings hdistinct
  · intro hrepeated
    have hfails : ∀ {span' others frame},
        bindArguments params span' others ≠ .ok frame := by
      intro span' others frame h
      obtain ⟨hlength, hadmits, -⟩ := bindArguments_eq_ok_iff.1 h
      exact hrepeated (admits_iff_perm.1 ⟨hlength, hadmits⟩).1
    constructor
    · intro others
      cases h : bindArguments params span others with
      | error fault => exact ⟨fault, rfl⟩
      | ok frame => exact absurd h hfails
    · rintro f c m m₁ rfl hcallee given m' hends
      obtain ⟨others, frame, h⟩ := bindArguments_of_ends hcallee hends
      exact hfails h

/-- Two arguments in the other order and another case, the same name given twice
in two cases, and a function with a parameter that is named twice. -/
theorem bindArguments_takes_permutations_reordered :
    let x := Name.ofString "x"
    let y := Name.ofString "y"
    let first : Passed := ⟨.ofString "Y", ⟨11, 12⟩, .integer 2⟩
    let second : Passed := ⟨x, ⟨22, 23⟩, .integer 1⟩
    let again : Passed := ⟨.ofString "X", ⟨33, 34⟩, .integer 3⟩
    let f : Function := ⟨0, [x, .ofString "X"], .mk [] ⟨30, 32⟩⟩
    let c : Call := .mk (.function f.params f.body ⟨4, 32⟩) [] ⟨4, 32⟩
    let m : Machine := .start default none
    (∃ frame frame', bindArguments [x, y] ⟨4, 28⟩ [first, second] = .ok frame ∧
      (∀ name, frame.binds name = true ↔ name.key ∈ Name.keys [x, y]) ∧
      frame.get? y = some (.integer 2) ∧
      bindArguments [x, y] ⟨4, 28⟩ [second, first] = .ok frame' ∧
      ∀ name, frame'.get? name = frame.get? name) ∧
    (∃ fault, bindArguments [x, y] ⟨4, 28⟩ [second, again] = .error fault ∧
      RefusesFirst [x, y] [second, again] fault) ∧
    ¬(Name.keys f.params).Nodup ∧
      ∀ given m', ¬(Task.call c).Ends m (.ok given) m' := by
  intro x y first second again f c m
  have hnodup : ¬(Name.keys f.params).Nodup := by decide
  have hcallee : (Task.expr c.callee).Ends m (.ok (.function f))
      { m with functions := 1 } := ⟨1, rfl⟩
  obtain ⟨-, hframe, -⟩ :=
    bindArguments_takes_permutations [x, y] ⟨4, 28⟩ [first, second]
  obtain ⟨-, hbinds, hvalues, hreordered⟩ := hframe _ rfl
  obtain ⟨frame', hbound, -, hsame⟩ :=
    hreordered [second, first] (List.Perm.swap _ _ _)
  obtain ⟨-, -, herror, -⟩ :=
    bindArguments_takes_permutations [x, y] ⟨4, 28⟩ [second, again]
  obtain ⟨-, -, -, hrepeated⟩ := bindArguments_takes_permutations f.params ⟨4, 32⟩ []
  refine ⟨⟨_, frame', rfl, hbinds, ?_, hbound, hsame⟩, ⟨_, rfl, ?_⟩, hnodup, ?_⟩
  · exact hvalues first (by simp) y rfl
  · rcases herror _ rfl with ⟨hlength, _⟩ | ⟨_, hrefuses⟩
    · exact absurd rfl hlength
    · exact hrefuses
  · exact (hrepeated hnodup).2 f c m _ rfl hcallee

/-- Two arguments with the name of a parameter that is named twice are refused,
although their names are those of the parameters. -/
theorem repeated_parameter_refuses_own_names :
    let x := Name.ofString "x"
    let args : List Passed :=
      [⟨x, ⟨11, 12⟩, .integer 1⟩, ⟨x, ⟨22, 23⟩, .integer 1⟩]
    (Passed.keys args).Perm (Name.keys [x, x]) ∧
      ¬∃ frame, bindArguments [x, x] ⟨4, 28⟩ args = .ok frame := by
  intro x args
  refine ⟨List.Perm.refl _, ?_⟩
  rintro ⟨frame, ⟨⟩⟩

end Eval

end Prose
