import Mathlib.Data.List.Forall2
import Prose.Proofs.Layout.SourceLines
import Prose.Proofs.Text.Bytes

/-!
What becomes of the lines of a source. Reading statement after statement, and
going on after errors, uses up the lines in runs, one for each reading: a run
holds the lines of the statement, after blank lines that are passed over, or the
lines that an error was met in. At most one line has been looked at but not used,
and the next reading begins with it. So no line is lost or used twice, and since
every reading but the last uses up a line, the end is reached.
-/

namespace Prose.Layout

open Text

/-! ### Lines -/

/-- The physical lines of a source, from a place in it on. Nothing stands where
there is no text. -/
def physicalLines (offset number : Nat) : List RawLine → List (Option Line)
  | [] => []
  | .text raw :: rest =>
      some ⟨stripEnding raw, offset, number + 1⟩ ::
        physicalLines (offset + byteLength raw) (number + 1) rest
  | .undecodable :: rest => none :: physicalLines offset number rest

theorem length_physicalLines (offset number : Nat) (rest : List RawLine) :
    (physicalLines offset number rest).length = rest.length := by
  induction rest generalizing offset number with
  | nil => rfl
  | cons raw rest ih =>
      cases raw with
      | text raw => rw [physicalLines, List.length_cons, ih, List.length_cons]
      | undecodable => rw [physicalLines, List.length_cons, ih, List.length_cons]

/-- A line that is passed over. -/
def IsBlankLine (line : Option Line) : Prop :=
  ∃ l, line = some l ∧ l.isBlank = true

def linesAmong : List Piece → List Line
  | [] => []
  | .line line :: rest => line :: linesAmong rest
  | _ :: rest => linesAmong rest

theorem linesAmong_append (xs ys : List Piece) :
    linesAmong (xs ++ ys) = linesAmong xs ++ linesAmong ys := by
  induction xs with
  | nil => rfl
  | cons piece xs ih => cases piece <;> simp [linesAmong, ih]

theorem linesAmong_marks {marks : List Piece}
    (hmarks : ∀ piece ∈ marks, piece.IsBlockMark) : linesAmong marks = [] := by
  induction marks with
  | nil => rfl
  | cons piece marks ih =>
      rw [List.forall_mem_cons] at hmarks
      rcases hmarks.1 with rfl | rfl
      · exact ih hmarks.2
      · exact ih hmarks.2

theorem linesAmong_closing (n : Nat) : linesAmong (closing n) = [] :=
  linesAmong_marks fun _ => isBlockMark_of_mem_closing

/-- The segment is the trimmed line, in a text and in the source. -/
structure Segment.IsLine (text : List Char) (seg : Segment) (line : Line) :
    Prop where
  inText : slice? seg.textStart (seg.textStart + seg.length) text =
    some line.trimmed
  sourceStart : seg.sourceStart = line.trimmedStart
  length : seg.length = byteLength line.trimmed

theorem segmentsFrom_areLines (before pieces : List Piece) :
    List.Forall₂ (Segment.IsLine ((before ++ pieces).flatMap Piece.text))
      (Statement.segmentsFrom (byteLength (before.flatMap Piece.text)) pieces)
      (linesAmong pieces) := by
  induction pieces generalizing before with
  | nil => exact .nil
  | cons piece pieces ih =>
      have hlength : byteLength ((before ++ [piece]).flatMap Piece.text) =
          byteLength (before.flatMap Piece.text) + byteLength piece.text := by
        simp
      have hrest := ih (before ++ [piece])
      rw [hlength, List.append_assoc, List.singleton_append] at hrest
      cases piece with
      | line line =>
          refine .cons ⟨?_, rfl, rfl⟩ hrest
          rw [List.flatMap_append, List.flatMap_cons, ← List.append_assoc]
          exact slice?_append _ _ _
      | newline | indent | dedent => exact hrest

/-- The statement is made of the lines: they are the lines among its pieces, its
number is that of the first one, and its segments are the lines, trimmed and in
order. -/
structure Statement.MadeOf (s : Statement) (lines : List Line) : Prop where
  lines_eq : linesAmong s.pieces = lines
  first : lines.head?.map (·.number) = some s.line
  segments : List.Forall₂ (Segment.IsLine s.text) s.segments lines

theorem Statement.madeOf_cons (line : Line) (more : List Piece) :
    (⟨line.number, .line line :: more⟩ : Statement).MadeOf
      (line :: linesAmong more) :=
  ⟨rfl, rfl, segmentsFrom_areLines [] (.line line :: more)⟩

theorem map_eq_error {ε α β : Type} {f : α → β} {x : Except ε α} {e : ε}
    (h : x.map f = .error e) : x = .error e := by
  cases x with
  | error e' =>
      cases h
      rfl
  | ok a => cases h

/-! ### One reading -/

/-- The lines a reader has not used yet: the one it has looked at, if there is
one, and then those it has not taken. -/
def Reader.ahead (r : Reader) (rest : List RawLine) : List (Option Line) :=
  r.pending.toList.map some ++ physicalLines r.offset r.number rest

def Reading.ahead {α : Type} (reading : Reading α) : List (Option Line) :=
  reading.reader.ahead reading.rest

/-- What a reading found, with the reader as it was then; at the end there is
nothing. -/
def Reading.found? (reading : Reading (Option Statement)) :
    Option (Except LayoutError Statement × Reader) :=
  match reading.result with
  | .ok none => none
  | .ok (some s) => some (.ok s, reading.reader)
  | .error e => some (.error e, reading.reader)

/-- What a reading did with the lines that it used up. -/
def Reading.UsesUp (reading : Reading (Option Statement))
    (run : List (Option Line)) : Prop :=
  match reading.result with
  | .ok (some s) => ∃ blanks lines, run = blanks ++ lines.map some ∧
      (∀ line ∈ blanks, IsBlankLine line) ∧ s.MadeOf lines
  | .ok none => (∀ line ∈ run, IsBlankLine line) ∧ reading.ahead = []
  | .error _ => run ≠ [] ∧ reading.reader.pending = none

namespace Reader

variable {r : Reader}

theorem ahead_of_pending (h : r.pending = none) (rest : List RawLine) :
    r.ahead rest = physicalLines r.offset r.number rest := by
  rw [ahead, h]
  rfl

/-- Folding uses up the lines that it folds, or those up to the error. -/
theorem fold_usesUp (f : Folding) (rest : List RawLine)
    (hpending : r.pending = none) :
    ∃ run, physicalLines r.offset r.number rest = run ++ (r.fold f rest).ahead ∧
      (∀ pieces, (r.fold f rest).result = .ok pieces →
        run = (linesAmong pieces).map some) ∧
      ∀ e, (r.fold f rest).result = .error e →
        (r.fold f rest).reader.pending = none := by
  induction rest generalizing r f with
  | nil =>
      refine ⟨[], ?_, ?_, fun _ _ => hpending⟩
      · exact (ahead_of_pending hpending []).symm
      · intro pieces hpieces
        obtain ⟨n, rfl⟩ := Folding.finish_ok hpieces
        rw [linesAmong_closing]
        rfl
  | cons raw rest ih =>
      cases raw with
      | undecodable =>
          refine ⟨[none], ?_, ?_, fun _ _ => hpending⟩
          · exact congrArg (none :: ·) (ahead_of_pending hpending rest).symm
          · intro pieces hpieces
            cases hpieces
      | text raw =>
          have htaken : (r.take raw).2.pending = none := hpending
          cases hstep : f.step (r.take raw).1 with
          | error e =>
              simp only [fold, hstep]
              refine ⟨[some (r.take raw).1], ?_, ?_, fun _ _ => htaken⟩
              · exact congrArg (_ :: ·) (ahead_of_pending htaken rest).symm
              · intro pieces hpieces
                cases hpieces
          | ok step =>
              cases step with
              | complete done =>
                  simp only [fold, hstep]
                  refine ⟨[], rfl, ?_, ?_⟩
                  · rintro pieces ⟨⟩
                    obtain ⟨n, rfl⟩ := Folding.step_complete hstep
                    rw [linesAmong_closing]
                    rfl
                  · intro e he
                    cases he
              | extend added next =>
                  obtain ⟨run, hrun, hok, herror⟩ := ih next htaken
                  simp only [fold, hstep]
                  refine ⟨some (r.take raw).1 :: run, ?_, ?_, ?_⟩
                  · exact congrArg (_ :: ·) hrun
                  · intro pieces hpieces
                    obtain ⟨marks, hmarks, rfl⟩ := Folding.step_extend hstep
                    obtain ⟨more, hresult, rfl⟩ := map_eq_ok hpieces
                    rw [hok more hresult]
                    simp [linesAmong_append, linesAmong_marks hmarks, linesAmong]
                  · exact fun e he => herror e (map_eq_error he)

/-- A statement uses up the line it begins with and the lines of its blocks. -/
theorem statementFrom_usesUp (line : Line) (rest : List RawLine)
    (hpending : r.pending = none) :
    ∃ run, physicalLines r.offset r.number rest =
        run ++ (r.statementFrom line rest).ahead ∧
      (r.statementFrom line rest).UsesUp (some line :: run) := by
  unfold statementFrom
  split
  · obtain ⟨run, hrun, hok, herror⟩ :=
      fold_usesUp (.ofOpener line) rest hpending
    refine ⟨run, hrun, ?_⟩
    cases hresult : (r.fold (.ofOpener line) rest).result with
    | ok pieces =>
        simp only [Reading.UsesUp, hresult, Except.map]
        refine ⟨[], line :: linesAmong pieces, ?_, nofun,
          Statement.madeOf_cons line (.newline :: pieces)⟩
        rw [hok pieces hresult]
        rfl
    | error e =>
        simp only [Reading.UsesUp, hresult, Except.map]
        exact ⟨List.cons_ne_nil _ _, herror e hresult⟩
  · refine ⟨[], (ahead_of_pending hpending rest).symm, [], [line], rfl, nofun, ?_⟩
    exact Statement.madeOf_cons line []

/-- Blank lines that are passed over are used up with what follows them. -/
theorem usesUp_cons_blank {reading : Reading (Option Statement)}
    {run : List (Option Line)} (h : reading.UsesUp run) {line : Line}
    (hblank : line.isBlank = true) : reading.UsesUp (some line :: run) := by
  have hline : IsBlankLine (some line) := ⟨line, rfl, hblank⟩
  unfold Reading.UsesUp at h ⊢
  split at h
  · obtain ⟨blanks, lines, rfl, hblanks, hmade⟩ := h
    exact ⟨some line :: blanks, lines, rfl, List.forall_mem_cons.2 ⟨hline, hblanks⟩,
      hmade⟩
  · exact ⟨List.forall_mem_cons.2 ⟨hline, h.1⟩, h.2⟩
  · exact ⟨List.cons_ne_nil _ _, h.2⟩

theorem search_usesUp (rest : List RawLine) (hpending : r.pending = none) :
    ∃ run, physicalLines r.offset r.number rest = run ++ (r.search rest).ahead ∧
      (r.search rest).UsesUp run := by
  induction rest generalizing r with
  | nil =>
      have hahead : r.ahead [] = [] := ahead_of_pending hpending []
      exact ⟨[], hahead.symm, nofun, hahead⟩
  | cons raw rest ih =>
      cases raw with
      | undecodable =>
          refine ⟨[none], ?_, List.cons_ne_nil _ _, hpending⟩
          exact congrArg (none :: ·) (ahead_of_pending hpending rest).symm
      | text raw =>
          have htaken : (r.take raw).2.pending = none := hpending
          rw [search]
          dsimp only
          split
          · next hblank =>
              obtain ⟨run, hrun, hused⟩ := ih htaken
              exact ⟨some (r.take raw).1 :: run, congrArg (_ :: ·) hrun,
                usesUp_cons_blank hused hblank⟩
          · obtain ⟨run, hrun, hused⟩ :=
              statementFrom_usesUp (r.take raw).1 rest htaken
            exact ⟨some (r.take raw).1 :: run, congrArg (_ :: ·) hrun, hused⟩

/-- A reading uses up a run of the lines ahead, beginning with the first. -/
theorem next_usesUp (r : Reader) (rest : List RawLine) :
    ∃ run, r.ahead rest = run ++ (r.next rest).ahead ∧
      (r.next rest).UsesUp run := by
  unfold next
  split
  · next hpending =>
      rw [ahead_of_pending hpending]
      exact search_usesUp rest hpending
  · next line hpending =>
      have hahead : r.ahead rest =
          some line :: physicalLines r.offset r.number rest := by
        rw [ahead, hpending]
        rfl
      rw [hahead]
      dsimp only
      split
      · next hblank =>
          obtain ⟨run, hrun, hused⟩ :=
            search_usesUp (r := { r with pending := none }) rest rfl
          exact ⟨some line :: run, congrArg (_ :: ·) hrun,
            usesUp_cons_blank hused hblank⟩
      · obtain ⟨run, hrun, hused⟩ :=
          statementFrom_usesUp (r := { r with pending := none }) line rest rfl
        exact ⟨some line :: run, congrArg (_ :: ·) hrun, hused⟩

/-! ### All readings -/

/-- Reads again and again, going on after errors, until the end has been reached,
at most `n` times. -/
def calls : Nat → Reader → List RawLine → List (Reading (Option Statement))
  | 0, _, _ => []
  | n + 1, r, rest =>
      r.next rest :: match (r.next rest).result with
        | .ok none => []
        | _ => calls n (r.next rest).reader (r.next rest).rest

/-- The readings of a source are these, but for the last. -/
theorem readUpTo_eq_filterMap (n : Nat) (r : Reader) (rest : List RawLine) :
    r.readUpTo n rest = (r.calls n rest).filterMap Reading.found? := by
  induction n generalizing r rest with
  | zero => rfl
  | succ n ih =>
      rw [readUpTo, calls]
      cases hresult : (r.next rest).result with
      | error e =>
          rw [List.filterMap_cons_some (b := (.error e, (r.next rest).reader))
            (by rw [Reading.found?, hresult]), ← ih]
      | ok found =>
          cases found with
          | none => simp [Reading.found?, hresult]
          | some s =>
              rw [List.filterMap_cons_some (b := (.ok s, (r.next rest).reader))
                (by rw [Reading.found?, hresult]), ← ih]

/-- Every reading but the last uses up a line. -/
theorem ne_nil_of_usesUp {reading : Reading (Option Statement)}
    {run : List (Option Line)} (h : reading.UsesUp run)
    (hresult : reading.result ≠ .ok none) : run ≠ [] := by
  unfold Reading.UsesUp at h
  split at h
  · obtain ⟨blanks, lines, rfl, -, hmade⟩ := h
    have hfirst := hmade.first
    cases lines with
    | nil => cases hfirst
    | cons line lines => simp
  · next hnone => exact absurd hnone hresult
  · exact h.1

theorem calls_of_ne_none {rest : List RawLine} {n : Nat}
    (h : (r.next rest).result ≠ .ok none) :
    r.calls (n + 1) rest =
      r.next rest :: calls n (r.next rest).reader (r.next rest).rest := by
  rw [calls]
  split
  · next hnone => exact absurd hnone h
  · rfl

theorem length_calls_le (n : Nat) (r : Reader) (rest : List RawLine) :
    (r.calls n rest).length ≤ n := by
  induction n generalizing r rest with
  | zero => exact Nat.le_refl 0
  | succ n ih =>
      rw [calls, List.length_cons]
      split
      · exact Nat.succ_le_succ (Nat.zero_le n)
      · exact Nat.succ_le_succ (ih _ _)

/-- The runs that readings use up, one after the other, are the lines ahead; and
the end is reached if there are more readings than lines. -/
theorem calls_use_up {rest : List RawLine} {n : Nat}
    (hn : (r.ahead rest).length < n) :
    ((r.calls n rest).getLast?.map (·.result) = some (.ok none)) ∧
    ∃ runs, runs.flatten = r.ahead rest ∧
      List.Forall₂ Reading.UsesUp (r.calls n rest) runs ∧
      ∀ i reading, (r.calls n rest)[i]? = some reading →
        reading.ahead = (runs.drop (i + 1)).flatten := by
  induction n generalizing r rest with
  | zero => exact absurd hn (Nat.not_lt_zero _)
  | succ n ih =>
      obtain ⟨run, hrun, hused⟩ := r.next_usesUp rest
      by_cases hnone : (r.next rest).result = .ok none
      · have hahead : (r.next rest).ahead = [] := by
          simp only [Reading.UsesUp, hnone] at hused
          exact hused.2
        simp only [calls, hnone]
        refine ⟨by simp [hnone], [run], ?_, .cons hused .nil, ?_⟩
        · rw [hrun, hahead]
          simp
        · intro i reading hi
          cases i with
          | zero =>
              cases hi
              exact hahead
          | succ i => cases hi
      · have hpos : 0 < run.length :=
          List.length_pos_iff.2 (ne_nil_of_usesUp hused hnone)
        rw [hrun, List.length_append] at hn
        have hless : ((r.next rest).reader.ahead (r.next rest).rest).length < n := by
          change (r.next rest).ahead.length < n
          omega
        obtain ⟨hlast, runs, hruns, hall, hahead⟩ := ih hless
        rw [calls_of_ne_none hnone]
        refine ⟨?_, run :: runs, ?_, .cons hused hall, ?_⟩
        · generalize calls n _ _ = more at hlast ⊢
          cases more with
          | nil => cases hlast
          | cons second more => rw [List.getLast?_cons_cons, hlast]
        · rw [List.flatten_cons, hruns, hrun]
          rfl
        · intro i reading hi
          cases i with
          | zero =>
              cases hi
              exact hruns.symm
          | succ i => exact hahead i reading hi

end Reader

end Prose.Layout
