import Prose.Proofs.Eval.Steady

/-!
The input of a run. A run takes lines from its input only where it reads, and it
takes them in order; so up to its first reading the input is what it was when
the run began, and that reading meets the line that came next then.
-/

namespace Prose

namespace Input

/-- The second input is what is left of the stream of the first when some lines
are taken from it. -/
def Drops (i i' : Input) : Prop :=
  ∀ lines, i = .stream lines →
    ∃ used left, lines = used ++ left ∧ i' = .stream left

theorem Drops.refl (i : Input) : i.Drops i := by
  rintro lines rfl
  exact ⟨[], lines, rfl, rfl⟩

theorem Drops.trans {i₁ i₂ i₃ : Input} (h₁ : i₁.Drops i₂) (h₂ : i₂.Drops i₃) :
    i₁.Drops i₃ := by
  rintro lines rfl
  obtain ⟨used, left, rfl, rfl⟩ := h₁ lines rfl
  obtain ⟨used', left', rfl, rfl⟩ := h₂ left rfl
  exact ⟨used ++ used', left', (List.append_assoc _ _ _).symm, rfl⟩

theorem drops_line? (i : Input) : i.Drops i.line?.2 := by
  rintro lines rfl
  cases lines with
  | nil => exact ⟨[], [], rfl, rfl⟩
  | cons raw rest => cases raw <;> exact ⟨[_], rest, rfl, rfl⟩

theorem line_snd (i : Input) : i.line.2 = i.line?.2 := by
  unfold line
  split <;> simp_all

theorem drops_line (i : Input) : i.Drops i.line.2 := by
  rw [line_snd]
  exact drops_line? i

theorem drops_wordUpTo (n : Nat) (i : Input) : i.Drops (i.wordUpTo n).2 := by
  induction n generalizing i with
  | zero => exact drops_line i
  | succ n ih =>
      have hline := drops_line i
      unfold wordUpTo
      split
      · next fault rest hread =>
          rw [hread] at hline
          exact hline
      · next line rest hread =>
          rw [hread] at hline
          split
          · exact hline
          · exact hline.trans (ih rest)

theorem drops_word (i : Input) : i.Drops i.word.2 :=
  drops_wordUpTo _ i

end Input

namespace Eval

variable {α β : Type} {n : Nat} {m m' : Machine}

/-! ### Actions -/

def Action.isRead : Action α → Bool
  | read _ => true
  | _ => false

theorem input_eq_of_stepVariable {name : Name} {delta : Int} {operation : String}
    {r : Except Fault Unit}
    (h : stepVariable name delta operation m = some (r, m')) :
    m'.input = m.input := by
  rcases Run.bind_eq_some h with ⟨fault, hfound, _⟩ | ⟨value, m₁, hfound, h⟩
  · obtain ⟨_, rfl⟩ := Run.answer_inj hfound
    rfl
  · obtain ⟨_, rfl⟩ := Run.answer_inj hfound
    cases value with
    | integer i =>
        rcases Run.bind_eq_some h with ⟨fault, hnext, _⟩ | ⟨next, m₂, hnext, ⟨⟩⟩
        · obtain ⟨_, rfl⟩ := Run.answer_inj hnext
          rfl
        · obtain ⟨_, rfl⟩ := Run.answer_inj hnext
          rfl
    | real _ | text _ | truth _ | list _ | function _ =>
        cases h
        rfl

/-- Nothing but a reading takes from the input. -/
theorem Action.input_eq {a : Action α} {r : Except Fault α}
    (hread : a.isRead = false) (h : a.run m = some (r, m')) :
    m'.input = m.input := by
  cases a with
  | truth e value | list e value | integer e value | function e value =>
      cases value <;> cases h <;> rfl
  | set ref index value =>
      change setElement ref index value m = _ at h
      unfold setElement at h
      dsimp only at h
      split at h <;> cases h <;> rfl
  | remove ref index =>
      change removeElement ref index m = _ at h
      unfold removeElement at h
      dsimp only at h
      split at h <;> cases h <;> rfl
  | count name delta operation => exact input_eq_of_stepVariable h
  | read type => cases hread
  | _ =>
      cases h
      rfl

/-- Reading, and then work that leaves the machine alone. -/
theorem drops_of_fromInput {read : Input → Except Fault α × Input}
    {f : α → Run β} {r : Except Fault β}
    (hread : m.input.Drops (read m.input).2)
    (hf : ∀ a m r m', f a m = some (r, m') → m' = m)
    (h : (Run.fromInput read >>= f) m = some (r, m')) :
    m.input.Drops m'.input := by
  rcases Run.bind_eq_some h with ⟨fault, hinput, _⟩ | ⟨a, m₁, hinput, h⟩
  · obtain ⟨_, rfl⟩ := Run.answer_inj hinput
    exact hread
  · obtain ⟨_, rfl⟩ := Run.answer_inj hinput
    rw [hf _ _ _ _ h]
    exact hread

theorem drops_of_readValue {type : Option ReadType} {r : Except Fault Value}
    (h : readValue type m = some (r, m')) : m.input.Drops m'.input := by
  rcases Run.bind_eq_some h with ⟨fault, hkind, _⟩ | ⟨kind, m₁, hkind, h⟩
  · obtain ⟨_, rfl⟩ := Run.answer_inj hkind
    exact .refl _
  · obtain ⟨_, rfl⟩ := Run.answer_inj hkind
    cases kind with
    | line =>
        apply drops_of_fromInput (Input.drops_line _) _ h
        rintro line m r m' ⟨⟩
        rfl
    | integer | real | truth =>
        apply drops_of_fromInput (Input.drops_word _) _ h
        intro word m r m' hvalue
        generalize readWord? _ word = found at hvalue
        cases found <;> (cases hvalue; rfl)

theorem Action.drops_input {a : Action α} {r : Except Fault α}
    (h : a.run m = some (r, m')) : m.input.Drops m'.input := by
  cases hread : a.isRead with
  | false =>
      rw [a.input_eq hread h]
      exact .refl _
  | true =>
      cases a with
      | read type => exact drops_of_readValue h
      | _ => cases hread

/-- A line is read whole. -/
theorem readValue_line {raw : List Char} {more : List Layout.RawLine}
    (h : m.input = .stream (.text raw :: more)) :
    readValue none m = some (.ok (.text (String.ofList (Text.stripEnding raw))),
      { m with input := .stream more }) := by
  change Run.bind (Run.fromInput Input.line) _ m = _
  rw [Run.bind, Run.fromInput, h]
  rfl

/-! ### Runs -/

/-- The machines on which following a script reads. -/
def Script.reads (n : Nat)
    (ofTask : {α : Type} → Task α → Machine → List Machine) {α : Type} :
    Script α → Machine → List Machine
  | .give _, _ => []
  | .act a, m => if a.isRead then [m] else []
  | .perform s t, m =>
      match s.enter m with
      | .error _ => []
      | .ok inner => ofTask t inner
  | .andThen first rest, m =>
      first.reads n ofTask m ++ match first.run n m with
        | some (.ok a, m) => (rest a).reads n ofTask m
        | _ => []
  | .located _ inner, m => inner.reads n ofTask m

/-- The machines on which a task reads within a number of steps, in order. -/
def Task.reads : Nat → {α : Type} → Task α → Machine → List Machine
  | 0, _, _, _ => []
  | n + 1, _, t, m => t.script.reads n (fun t => t.reads n) m

/-- How readings and the input go together in a run: the first reading meets the
input as it was, lines are taken in order, and none where nothing is read. -/
structure ReadsInOrder (m : Machine) (reads : List Machine)
    (outcome : Option (Except Fault α × Machine)) : Prop where
  first : ∀ m₁, reads.head? = some m₁ → m₁.input = m.input
  drops : ∀ {r m'}, outcome = some (r, m') → m.input.Drops m'.input
  none : reads = [] → ∀ {r m'}, outcome = some (r, m') → m'.input = m.input

theorem Setting.input_enter {s : Setting} {inner : Machine}
    (h : s.enter m = .ok inner) : inner.input = m.input := by
  cases s with
  | here | frame f =>
      cases h
      rfl
  | call c f =>
      rw [Setting.enter_call_eq_ok h]

theorem Setting.input_leave (s : Setting) (m : Machine) :
    (s.leave m).input = m.input := by
  cases s <;> rfl

theorem Script.readsInOrder
    {ofTask : {α : Type} → Task α → Machine → List Machine}
    (htask : ∀ {α : Type} (t : Task α) (m : Machine),
      ReadsInOrder m (ofTask t m) (t.run n m))
    (x : Script α) (m : Machine) :
    ReadsInOrder m (x.reads n ofTask m) (x.run n m) := by
  induction x generalizing m with
  | give a =>
      constructor
      · exact nofun
      · rintro r m' ⟨⟩
        exact .refl _
      · rintro - r m' ⟨⟩
        rfl
  | act a =>
      rw [reads]
      constructor
      · intro m₁ hm₁
        split at hm₁ <;> cases hm₁
        rfl
      · exact Action.drops_input
      · intro hnil
        split at hnil
        · cases hnil
        · next hread => exact a.input_eq (Bool.not_eq_true _ ▸ hread)
  | perform s t =>
      rw [reads]
      cases henter : s.enter m with
      | error fault =>
          have hrun : ∀ {r m'}, (perform s t).run n m = some (r, m') → m' = m := by
            intro r m' h
            rcases Setting.around_eq_some h with
              ⟨_, _, _, rfl⟩ | ⟨inner, _, _, hok, _⟩
            · rfl
            · rw [henter] at hok
              cases hok
          constructor
          · exact nofun
          · intro r m' h
            rw [hrun h]
            exact .refl _
          · intro _ r m' h
            rw [hrun h]
      | ok inner =>
          have hinner := htask t inner
          have hinput := Setting.input_enter henter
          have hrun : ∀ {r m'}, (perform s t).run n m = some (r, m') →
              ∃ r₁ m₁, t.run n inner = some (r₁, m₁) ∧ m'.input = m₁.input := by
            intro r m' h
            rcases Setting.around_eq_some h with
              ⟨_, herror, _⟩ | ⟨inner', r₁, m₁, hok, hrun, _, rfl⟩
            · rw [henter] at herror
              cases herror
            · rw [henter] at hok
              cases hok
              exact ⟨r₁, m₁, hrun, s.input_leave m₁⟩
          constructor
          · intro m₁ hm₁
            rw [hinner.first m₁ hm₁, hinput]
          · intro r m' h
            obtain ⟨r₁, m₁, hrun₁, heq⟩ := hrun h
            rw [heq, ← hinput]
            exact hinner.drops hrun₁
          · intro hnil r m' h
            obtain ⟨r₁, m₁, hrun₁, heq⟩ := hrun h
            rw [heq, ← hinput]
            exact hinner.none hnil hrun₁
  | andThen first rest ihfirst ihrest =>
      have hfirst := ihfirst m
      rw [reads]
      constructor
      · intro m₁ hm₁
        cases hreads : first.reads n ofTask m with
        | cons m₂ more =>
            rw [hreads] at hm₁
            cases hm₁
            exact hfirst.first m₁ (by rw [hreads]; rfl)
        | nil =>
            rw [hreads, List.nil_append] at hm₁
            split at hm₁
            · next a m₂ hrun =>
                rw [(ihrest a m₂).first m₁ hm₁, hfirst.none hreads hrun]
            · cases hm₁
      · intro r m' h
        rcases Run.bind_eq_some h with ⟨fault, hrun, _⟩ | ⟨a, m₁, hrun, hrest⟩
        · exact hfirst.drops hrun
        · exact (hfirst.drops hrun).trans ((ihrest a m₁).drops hrest)
      · intro hnil r m' h
        obtain ⟨hnil₁, hnil₂⟩ := List.append_eq_nil_iff.1 hnil
        rcases Run.bind_eq_some h with ⟨fault, hrun, _⟩ | ⟨a, m₁, hrun, hrest⟩
        · exact hfirst.none hnil₁ hrun
        · rw [hrun] at hnil₂
          rw [(ihrest a m₁).none hnil₂ hrest, hfirst.none hnil₁ hrun]
  | located span inner ih =>
      have hinner := ih m
      constructor
      · exact hinner.first
      · intro r m' h
        obtain ⟨r₁, hrun, _⟩ := Run.located_eq_some h
        exact hinner.drops hrun
      · intro hnil r m' h
        obtain ⟨r₁, hrun, _⟩ := Run.located_eq_some h
        exact hinner.none hnil hrun

theorem Task.readsInOrder (n : Nat) (t : Task α) (m : Machine) :
    ReadsInOrder m (t.reads n m) (t.run n m) := by
  induction n generalizing α m with
  | zero =>
      rw [t.run_zero]
      constructor
      · exact nofun
      · exact nofun
      · intro _ r m' h
        cases h
  | succ n ih =>
      rw [t.run_succ]
      exact Script.readsInOrder ih t.script m

end Eval

end Prose
