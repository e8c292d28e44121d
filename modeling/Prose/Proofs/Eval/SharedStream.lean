import Prose.Proofs.Eval.Reads
import Prose.Proofs.Eval.Starts
import Prose.Proofs.Layout.Taken

/-!
A program and its input on one stream. When a statement begins to run, the
stream has been taken up to the last line of the statement, and the first reading
meets the line after it, with two exceptions. The reader sees that a block is
over by the line that follows it, so where a statement with a block begins, that
line has been taken already and is held for the next statement. And where the
next statement is this line, the readings of the statement with the block have
taken what they have read from the lines after it.
-/

namespace Prose

open Layout Eval

namespace Program

variable {n i : Nat} {p : Program} {m : Machine} {st : Start}
  {source : List RawLine}

/-- Reading a statement from the stream. -/
theorem next_of_stream (hp : p.lines = none) {offered : List RawLine}
    (hm : m.input = .stream offered) {s : Layout.Statement} {rest : Program}
    {begun : Machine} (h : p.next m = (.ok (some s), rest, begun)) :
    rest.lines = none ∧ ∃ blanks own ahead left,
      begun.input = .stream left ∧
      Taken p.reader s rest.reader offered blanks own ahead left := by
  obtain ⟨reader, lines⟩ := p
  cases hp
  rw [next, hm] at h
  dsimp only at h
  obtain ⟨hresult, heq⟩ := Prod.mk.inj h
  obtain ⟨rfl, rfl⟩ := Prod.mk.inj heq
  obtain ⟨blanks, own, ahead, htaken⟩ := Reader.next_takes hresult
  exact ⟨rfl, blanks, own, ahead, _, rfl, htaken⟩

theorem drops_of_execute {statement : Layout.Statement} {m' : Machine}
    {r : Except Problem Completion}
    (h : execute n statement m = some (r, m')) : m.input.Drops m'.input := by
  have htop : ∀ {stmt r₁ m₁}, runTopLevel n stmt m = some (r₁, m₁) →
      m.input.Drops m₁.input := by
    intro stmt r₁ m₁ htop
    obtain ⟨_, hrun⟩ := runStmt_of_runTopLevel htop
    exact ((Task.stmt stmt).readsInOrder n m).drops hrun
  unfold execute at h
  split at h
  · cases h
    exact .refl _
  · split at h
    · contradiction
    · next hrun =>
        cases h
        exact htop hrun
    · next hrun =>
        cases h
        exact htop hrun

/-- Where a statement begins to be read, and what came before it. -/
theorem start_of_stream (hp : p.lines = none) (hm : m.input = .stream source)
    (hi : (p.starts n m)[i]? = some st) :
    ∃ used offered, source = used ++ offered ∧
      st.machine.input = .stream offered ∧ st.program.lines = none ∧
      st.program.next st.machine =
        (.ok (some st.statement), st.rest, st.begun) ∧
      (i = 0 → st.program = p ∧ st.machine = m) ∧
      ∀ j prev, i = j + 1 → (p.starts n m)[j]? = some prev →
        st.program = prev.rest ∧ prev.begun.input.Drops st.machine.input := by
  induction n generalizing p m i source with
  | zero => cases hi
  | succ n ih =>
      cases hstarts : p.starts (n + 1) m with
      | nil =>
          rw [hstarts] at hi
          cases hi
      | cons first more =>
          rw [hstarts] at hi
          obtain ⟨k, hk, rfl, rfl, hnext, hmore⟩ := starts_eq_cons hstarts
          cases hk
          cases i with
          | zero =>
              cases hi
              refine ⟨[], source, rfl, hm, hp, hnext, fun _ => ⟨rfl, rfl⟩, ?_⟩
              intro j prev hj
              cases hj
          | succ i =>
              rcases hmore with rfl | ⟨m', hexecute, rfl⟩
              · cases hi
              · obtain ⟨hrest, blanks, own, ahead, left, hbegun, htaken⟩ :=
                  next_of_stream hp hm hnext
                have hdrops := drops_of_execute hexecute
                obtain ⟨used, offered, hleft, hm'⟩ := hdrops left hbegun
                obtain ⟨used', offered', hsource, hmachine, hlines, hread,
                  hfirst, hprev⟩ := ih hrest hm' hi
                refine ⟨blanks ++ own ++ ahead ++ used ++ used', offered', ?_,
                  hmachine, hlines, hread, ?_, ?_⟩
                · rw [htaken.offered_eq, hleft, hsource]
                  simp only [List.append_assoc]
                · intro hzero
                  cases hzero
                · rintro j prev ⟨⟩ hj
                  cases i with
                  | zero =>
                      cases hj
                      obtain ⟨hprogram, hmachine⟩ := hfirst rfl
                      rw [hmachine]
                      exact ⟨hprogram, hdrops⟩
                  | succ i => exact hprev i prev rfl hj

/-- When the statement begins, the stream has been taken up to the last line of
the statement and the given lines after it. -/
def Start.Past (source later : List RawLine) (st : Start) : Prop :=
  ∃ before raw left, source = before ++ .text raw :: (later ++ left) ∧
    st.begun.input = .stream left ∧
    st.statement.lines.getLast?.map (·.text) = some (Text.stripEnding raw)

/-- Where lines of the statement were taken, the last of them is followed by
what the reader holds. -/
theorem Start.past_of_taken {used offered blanks own ahead left : List RawLine}
    (hsource : source = used ++ offered) (hbegun : st.begun.input = .stream left)
    (htaken : Taken st.program.reader st.statement st.rest.reader offered
      blanks own ahead left) (hown : own ≠ []) : st.Past source ahead := by
  obtain ⟨front, raw, rfl, hlast⟩ := htaken.getLast_own hown
  refine ⟨used ++ blanks ++ front, raw, left, ?_, hbegun, hlast⟩
  rw [hsource, htaken.offered_eq]
  simp only [List.append_assoc, List.cons_append, List.nil_append]

/-- Where the line that the reader held is the statement, the readings of the
statement before have taken what comes after it. -/
theorem Start.past_of_held {prev : Start}
    {used offered blanks own ahead left : List RawLine}
    (hsource : source = used ++ offered)
    (htaken : Taken prev.program.reader prev.statement prev.rest.reader offered
      blanks own ahead left)
    (hprogram : st.program = prev.rest) {later rest : List RawLine}
    (hlater : left = later ++ rest) (hrest : st.begun.input = .stream rest)
    (hheld : st.program.reader.held ≠ [])
    (hlines : st.statement.lines.map (·.text) =
      st.program.reader.held.map (·.text)) :
    prev.statement.opensBlock = true ∧ st.Past source later := by
  obtain ⟨line, hpending, hline⟩ := Reader.held_eq_singleton hheld
  have hholds := htaken.holds
  rw [Reader.Holds, ← hprogram, hpending] at hholds
  obtain ⟨raw, rfl, hraw⟩ := List.map_eq_singleton_iff.1 hholds
  obtain ⟨characters, rfl, htext⟩ := RawLine.eq_text_of_line? hraw
  constructor
  · cases hopens : prev.statement.opensBlock with
    | true => rfl
    | false => cases (htaken.line hopens).1
  · refine ⟨used ++ blanks ++ own, characters, rest, ?_, hrest, ?_⟩
    · rw [hsource, htaken.offered_eq, hlater]
      simp only [List.append_assoc, List.singleton_append]
    · rw [← List.getLast?_map, hlines, hline, htext]
      rfl

/-- When a statement begins to run, the stream has been taken up to its last line
and perhaps further: one line further, which is held, if it opens a block and the
stream goes on; and by what the statement before has read, if that one opened a
block and the reader held this line meanwhile. The first reading of the statement
meets what is left. -/
theorem starts_share_stream (hm : m.input = .stream source)
    (hi : (ofInput.starts n m)[i]? = some st) :
    ∃ later left, st.Past source later ∧ st.begun.input = .stream left ∧
      (st.statement.opensBlock = true →
        (later = [] ∧ left = []) ∨
          ∃ raw, later = [raw] ∧ st.rest.reader.Holds [raw]) ∧
      (st.statement.opensBlock = false → later = [] ∨
        ∃ j prev, i = j + 1 ∧ (ofInput.starts n m)[j]? = some prev ∧
          prev.statement.opensBlock = true ∧
          prev.begun.input = .stream (later ++ left)) ∧
      ∀ k stmt m₁, ((Task.stmt stmt).reads k st.begun).head? = some m₁ →
        m₁.input = .stream left ∧ ∀ raw more, left = .text raw :: more →
          readValue none m₁ =
            some (.ok (.text (String.ofList (Text.stripEnding raw))),
              { m₁ with input := .stream more }) := by
  obtain ⟨used, offered, hsource, hmachine, hlines, hnext, hfirst, hprev⟩ :=
    start_of_stream rfl hm hi
  obtain ⟨-, blanks, own, ahead, left, hbegun, htaken⟩ :=
    next_of_stream hlines hmachine hnext
  have hreads : ∀ k stmt m₁,
      ((Task.stmt stmt).reads k st.begun).head? = some m₁ →
        m₁.input = .stream left := by
    intro k stmt m₁ hhead
    rw [((Task.stmt stmt).readsInOrder k st.begun).first m₁ hhead, hbegun]
  have hreceives : ∀ k stmt m₁,
      ((Task.stmt stmt).reads k st.begun).head? = some m₁ →
        m₁.input = .stream left ∧ ∀ raw more, left = .text raw :: more →
          readValue none m₁ =
            some (.ok (.text (String.ofList (Text.stripEnding raw))),
              { m₁ with input := .stream more }) := by
    intro k stmt m₁ hhead
    refine ⟨hreads k stmt m₁ hhead, ?_⟩
    rintro raw more rfl
    exact readValue_line (hreads k stmt m₁ hhead)
  by_cases hown : own = []
  · -- The only line of the statement was held since the statement before.
    have hheld : st.program.reader.held ≠ [] :=
      fun hnil => htaken.own_ne_nil hnil hown
    have hopens : st.statement.opensBlock = false := by
      cases hopens : st.statement.opensBlock with
      | true => exact absurd hown (htaken.block hopens).1
      | false => rfl
    obtain ⟨rfl, htexts⟩ := htaken.eq_left_of_held_ne_nil hopens hheld
    cases i with
    | zero =>
        obtain ⟨hprogram, -⟩ := hfirst rfl
        rw [hprogram] at hheld
        exact absurd rfl hheld
    | succ j =>
        obtain ⟨prev, hj⟩ : ∃ prev, (ofInput.starts n m)[j]? = some prev := by
          have hlength := (List.getElem?_eq_some_iff.1 hi).1
          exact ⟨_, List.getElem?_eq_getElem (Nat.lt_of_succ_lt hlength)⟩
        obtain ⟨hprogram, hdrops⟩ := hprev j prev rfl hj
        obtain ⟨used', offered', hsource', hmachine', hlines', hnext', -⟩ :=
          start_of_stream rfl hm hj
        obtain ⟨-, blanks', own', ahead', left', hbegun', htaken'⟩ :=
          next_of_stream hlines' hmachine' hnext'
        obtain ⟨later, rest, hleft', hrest⟩ := hdrops left' hbegun'
        rw [hmachine] at hrest
        cases hrest
        obtain ⟨hblock, hpast⟩ := Start.past_of_held hsource' htaken' hprogram
          hleft' hbegun hheld htexts
        refine ⟨later, _, hpast, hbegun, ?_, ?_, hreceives⟩
        · intro hyes
          rw [hopens] at hyes
          cases hyes
        · exact fun _ => .inr ⟨j, prev, rfl, hj, hblock, by rw [hbegun', hleft']⟩
  · refine ⟨ahead, left, Start.past_of_taken hsource hbegun htaken hown, hbegun,
      ?_, fun hopens => .inl (htaken.line hopens).1, hreceives⟩
    intro hopens
    have hend := (htaken.block hopens).2
    have hholds := htaken.holds
    rw [Reader.Holds] at hholds
    cases hpending : st.rest.reader.pending with
    | none =>
        rw [hpending] at hholds
        have hahead := List.map_eq_nil_iff.1 hholds
        exact .inl ⟨hahead, hend hahead⟩
    | some line =>
        rw [hpending] at hholds
        obtain ⟨raw, rfl, hraw⟩ := List.map_eq_singleton_iff.1 hholds
        exact .inr ⟨raw, rfl, htaken.holds⟩

/-- The last statement was held while the block before it read the line after
it. -/
theorem starts_share_stream_held_line :
    let source := RawLine.ofText
      "Set x to 1.\nIf true:\n    Read into x.\nPrint x.\nhello\n".toList
    let m := Machine.start (.stream source) none
    m.input = .stream source ∧
      ∃ st, (ofInput.starts 12 m)[2]? = some st ∧
        ∃ later left, st.Past source later ∧ st.begun.input = .stream left ∧
          (st.statement.opensBlock = false → later = [] ∨
            ∃ j prev, 2 = j + 1 ∧ (ofInput.starts 12 m)[j]? = some prev ∧
              prev.statement.opensBlock = true ∧
              prev.begun.input = .stream (later ++ left)) := by
  intro source m
  have hlength : (ofInput.starts 12 m).length = 3 := by decide +kernel
  have hst : (ofInput.starts 12 m)[2]? = some ((ofInput.starts 12 m)[2]) :=
    List.getElem?_eq_getElem _
  obtain ⟨later, left, hpast, hbegun, -, hline, -⟩ :=
    starts_share_stream (m := m) rfl hst
  exact ⟨rfl, _, hst, later, left, hpast, hbegun, hline⟩

/-- A statement with a block does not begin where the stream has been taken up to
its last line: the line after the block, meant for its reading, has been taken
too, and the reading finds nothing. -/
theorem block_begins_past_its_last_line :
    let source := RawLine.ofText
      "If true:\n    Read into x.\n    Print x.\nhello\n".toList
    let m := Machine.start (.stream source) none
    (∃ st, (ofInput.starts 12 m)[0]? = some st ∧ ¬ st.Past source []) ∧
      (ofInput.run 12 m).map (fun e => (e.outcome.toBool, e.machine.output)) =
        some (false, "") := by
  intro source m
  have hstarts : (ofInput.starts 12 m).map (fun st =>
      (st.statement.lines.map (·.text), st.begun.input)) =
        [(["If true:".toList, "    Read into x.".toList,
          "    Print x.".toList], .stream [])] := by decide +kernel
  refine ⟨?_, by decide +kernel⟩
  obtain ⟨st, hst, heq⟩ := List.map_eq_singleton_iff.1 hstarts
  obtain ⟨htexts, hinput⟩ := Prod.mk.inj heq
  refine ⟨st, by rw [hst]; rfl, ?_⟩
  rintro ⟨before, raw, left, hsource, hbegun, hlast⟩
  rw [hinput] at hbegun
  cases hbegun
  have hraw : some (RawLine.text "hello\n".toList) = some (.text raw) := by
    have hget := congrArg List.getLast? hsource
    rw [List.append_nil, List.getLast?_concat] at hget
    rw [← hget]
    decide +kernel
  cases hraw
  rw [← List.getLast?_map, htexts] at hlast
  revert hlast
  decide +kernel

end Program

end Prose
