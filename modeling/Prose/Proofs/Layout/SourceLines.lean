import Mathlib.Data.List.Basic
import Prose.Layout.Reader

/-!
Where the lines of a statement come from. However a source is read, the reader
stands between two of its lines, and every statement it returns begins with a
line of the source, holds lines of the source only, and ends each of them, the
last one apart, with a newline.
-/

namespace Prose.Layout

open Text

/-- The line is one of a source's lines, without its ending. -/
def Line.StandsIn (line : Line) (raws : List (List Char)) : Prop :=
  ∃ before raw after, raws = before ++ raw :: after ∧
    line = ⟨stripEnding raw, byteLength before.flatten, before.length + 1⟩

/-- The marks that begin and end blocks. -/
def Piece.IsBlockMark (piece : Piece) : Prop :=
  piece = .indent ∨ piece = .dedent

/-- Pieces in which a newline stands after every line but the last piece. -/
inductive Separated : List Piece → Prop where
  | nil : Separated []
  | last (line : Line) : Separated [.line line]
  | line (line : Line) {rest : List Piece} :
      Separated rest → Separated (.line line :: .newline :: rest)
  | mark {piece : Piece} {rest : List Piece} :
      piece.IsBlockMark → Separated rest → Separated (piece :: rest)

/-- Pieces that lines of a source are folded into. -/
structure LinesOf (raws : List (List Char)) (pieces : List Piece) : Prop where
  separated : Separated pieces
  stands : ∀ line, .line line ∈ pieces → line.StandsIn raws

/-! ### One line -/

theorem isBlank_of_space {c : Char} (hc : c = ' ' ∨ c = '\t') :
    isBlank c = true := by
  rcases hc with rfl | rfl <;> decide

/-- The indentation of a line is the spaces, or the tabs, that it begins with. -/
theorem Line.eq_of_indentation? {line : Line} {indent : List Char}
    (h : line.indentation? = some indent) :
    ∃ c rest, line.text = c :: rest ∧ (c = ' ' ∨ c = '\t') ∧
      indent = line.text.takeWhile (· == c) := by
  unfold indentation? at h
  split at h
  · next c rest htext =>
      split at h
      · next hc => exact ⟨c, rest, htext, hc, (Option.some.inj h).symm⟩
      · cases h
  · cases h

variable {raws : List (List Char)}

theorem Separated.marks_append {marks rest : List Piece}
    (hmarks : ∀ piece ∈ marks, piece.IsBlockMark) (hrest : Separated rest) :
    Separated (marks ++ rest) := by
  induction marks with
  | nil => exact hrest
  | cons piece marks ih =>
      apply Separated.mark (hmarks piece List.mem_cons_self)
      exact ih fun other hother => hmarks other (List.mem_cons_of_mem _ hother)

/-- After a line comes a newline or nothing. -/
theorem Separated.after_line {pieces before after : List Piece} {line : Line}
    (hpieces : Separated pieces)
    (hsplit : pieces = before ++ .line line :: after) :
    after = [] ∨ ∃ rest, after = .newline :: rest := by
  induction hpieces generalizing before with
  | nil => cases before <;> cases hsplit
  | last first =>
      cases before with
      | nil =>
          cases hsplit
          exact .inl rfl
      | cons piece before => cases before <;> cases hsplit
  | line first hrest ih =>
      match before with
      | [] =>
          cases hsplit
          exact .inr ⟨_, rfl⟩
      | [piece] => cases hsplit
      | piece :: second :: before =>
          simp only [List.cons_append, List.cons.injEq] at hsplit
          exact ih hsplit.2.2
  | mark hpiece hrest ih =>
      cases before with
      | nil =>
          cases hsplit
          rcases hpiece with hindent | hdedent
          · cases hindent
          · cases hdedent
      | cons piece before =>
          simp only [List.cons_append, List.cons.injEq] at hsplit
          exact ih hsplit.2

theorem isBlockMark_of_mem_closing {n : Nat} {piece : Piece}
    (hpiece : piece ∈ closing n) : piece.IsBlockMark :=
  .inr (List.eq_of_mem_replicate hpiece)

theorem not_mem_line_of_marks {marks : List Piece} {line : Line}
    (hmarks : ∀ piece ∈ marks, piece.IsBlockMark) : .line line ∉ marks := by
  intro hline
  rcases hmarks _ hline with hindent | hdedent
  · cases hindent
  · cases hdedent

theorem LinesOf.closing (n : Nat) : LinesOf raws (closing n) where
  separated := by
    have hmarks : ∀ piece ∈ Layout.closing n, piece.IsBlockMark :=
      fun _ => isBlockMark_of_mem_closing
    simpa using Separated.marks_append hmarks .nil
  stands := by
    intro line hline
    exact absurd hline
      (not_mem_line_of_marks fun _ => isBlockMark_of_mem_closing)

theorem LinesOf.single {line : Line} (hline : line.StandsIn raws) :
    LinesOf raws [.line line] where
  separated := .last line
  stands := by
    intro other hother
    simp only [List.mem_singleton, Piece.line.injEq] at hother
    exact hother ▸ hline

theorem LinesOf.cons {line : Line} {rest : List Piece}
    (hline : line.StandsIn raws) (hrest : LinesOf raws rest) :
    LinesOf raws (.line line :: .newline :: rest) where
  separated := .line line hrest.separated
  stands := by
    intro other hother
    simp only [List.mem_cons, Piece.line.injEq, reduceCtorEq, false_or]
      at hother
    rcases hother with rfl | hother
    · exact hline
    · exact hrest.stands other hother

theorem LinesOf.marks_append {marks rest : List Piece}
    (hmarks : ∀ piece ∈ marks, piece.IsBlockMark)
    (hrest : LinesOf raws rest) : LinesOf raws (marks ++ rest) where
  separated := hrest.separated.marks_append hmarks
  stands := by
    intro line hline
    rcases List.mem_append.1 hline with hline | hline
    · exact absurd hline (not_mem_line_of_marks hmarks)
    · exact hrest.stands line hline

/-- A folded line comes after the marks of the blocks it opens or closes. -/
theorem Folding.step_extend {f next : Folding} {line : Line}
    {pieces : List Piece} (hstep : f.step line = .ok (.extend pieces next)) :
    ∃ marks : List Piece, (∀ piece ∈ marks, piece.IsBlockMark) ∧
      pieces = marks ++ [.line line, .newline] := by
  unfold Folding.step at hstep
  split at hstep
  · split at hstep
    · cases hstep
    · cases hstep
      exact ⟨[.indent], by simp [Piece.IsBlockMark], rfl⟩
  · split at hstep
    · cases hstep
      exact ⟨_, fun _ => isBlockMark_of_mem_closing, rfl⟩
    · cases hstep
      exact ⟨_, fun _ => isBlockMark_of_mem_closing, rfl⟩
    · cases hstep

theorem Folding.step_complete {f : Folding} {line : Line}
    {pieces : List Piece} (hstep : f.step line = .ok (.complete pieces)) :
    ∃ n, pieces = closing n := by
  unfold Folding.step at hstep
  split at hstep
  · split at hstep <;> cases hstep
  · split at hstep
    · cases hstep
    · cases hstep
    · cases hstep
      exact ⟨_, rfl⟩

theorem Folding.finish_ok {f : Folding} {pieces : List Piece}
    (hfinish : f.finish = .ok pieces) : ∃ n, pieces = closing n := by
  unfold Folding.finish at hfinish
  split at hfinish
  · cases hfinish
  · cases hfinish
    exact ⟨_, rfl⟩

theorem map_eq_ok {ε α β : Type} {f : α → β} {x : Except ε α} {b : β}
    (h : x.map f = .ok b) : ∃ a, x = .ok a ∧ f a = b := by
  cases x with
  | error e => cases h
  | ok a =>
      cases h
      exact ⟨a, rfl, rfl⟩

namespace Reader

/-- The reader stands between two lines of a source, and what it looked at but
did not use is a line of it. -/
structure At (raws : List (List Char)) (r : Reader) (rest : List RawLine) :
    Prop where
  between : ∃ before after, raws = before ++ after ∧
    rest = after.map .text ∧ r.offset = byteLength before.flatten ∧
    r.number = before.length
  pending : ∀ line, r.pending = some line → line.StandsIn raws

variable {r : Reader} {rest : List RawLine}

theorem At.fresh (source : List Char) :
    At (rawLines source) .fresh (RawLine.ofText source) where
  between := ⟨[], rawLines source, rfl, rfl, rfl, rfl⟩
  pending := by
    intro line hline
    cases hline

theorem At.decodable (hat : At raws r (.undecodable :: rest)) : False := by
  obtain ⟨_, after, _, hrest, _, _⟩ := hat.between
  cases after <;> cases hrest

/-- Taking a line gives a line of the source and moves past it. -/
theorem At.take {raw : List Char} (hat : At raws r (.text raw :: rest)) :
    (r.take raw).1.StandsIn raws ∧ At raws (r.take raw).2 rest := by
  obtain ⟨before, after, hraws, hrest, hoffset, hnumber⟩ := hat.between
  cases after with
  | nil => cases hrest
  | cons next after =>
      simp only [List.map_cons, List.cons.injEq, RawLine.text.injEq] at hrest
      obtain ⟨rfl, rfl⟩ := hrest
      refine ⟨⟨before, raw, after, hraws, ?_⟩, ⟨?_, hat.pending⟩⟩
      · simp [Reader.take, hoffset, hnumber]
      · refine ⟨before ++ [raw], after, by simp [hraws], rfl, ?_, ?_⟩
        · simp [Reader.take, hoffset]
        · simp [Reader.take, hnumber]

theorem At.keep {line : Line} (hat : At raws r rest)
    (hline : line.StandsIn raws) :
    At raws { r with pending := some line } rest where
  between := hat.between
  pending := by
    intro other hother
    cases hother
    exact hline

theorem At.drop (hat : At raws r rest) :
    At raws { r with pending := none } rest where
  between := hat.between
  pending := by
    intro line hline
    cases hline

/-! ### Whole statements -/

/-- Folding keeps to the lines of the source. -/
theorem At.fold (hat : At raws r rest) (f : Folding) :
    At raws (r.fold f rest).reader (r.fold f rest).rest ∧
    ∀ pieces, (r.fold f rest).result = .ok pieces → LinesOf raws pieces := by
  induction rest generalizing r f with
  | nil =>
      refine ⟨hat, ?_⟩
      intro pieces hpieces
      obtain ⟨n, rfl⟩ := Folding.finish_ok hpieces
      exact .closing n
  | cons raw rest ih =>
      cases raw with
      | undecodable => exact hat.decodable.elim
      | text raw =>
          obtain ⟨hline, htaken⟩ := hat.take
          cases hstep : f.step (r.take raw).1 with
          | error e =>
              simp only [Reader.fold, hstep]
              exact ⟨htaken, by simp⟩
          | ok step =>
              cases step with
              | complete done =>
                  simp only [Reader.fold, hstep]
                  refine ⟨htaken.keep hline, ?_⟩
                  intro pieces hpieces
                  cases hpieces
                  obtain ⟨n, rfl⟩ := Folding.step_complete hstep
                  exact .closing n
              | extend added next =>
                  obtain ⟨hafter, hmore⟩ := ih htaken next
                  simp only [Reader.fold, hstep]
                  refine ⟨hafter, ?_⟩
                  intro pieces hpieces
                  obtain ⟨marks, hmarks, rfl⟩ := Folding.step_extend hstep
                  obtain ⟨more, hresult, rfl⟩ := map_eq_ok hpieces
                  rw [List.append_assoc]
                  exact ((hmore more hresult).cons hline).marks_append hmarks

/-- What reading a statement promises. -/
def Honest (raws : List (List Char)) (reading : Reading (Option Statement)) :
    Prop :=
  At raws reading.reader reading.rest ∧
    ∀ s, reading.result = .ok (some s) →
      LinesOf raws s.pieces ∧ ∃ line more, s.pieces = .line line :: more

theorem At.statementFrom {line : Line} (hat : At raws r rest)
    (hline : line.StandsIn raws) :
    Honest raws (r.statementFrom line rest) := by
  unfold Reader.statementFrom
  split
  · obtain ⟨hafter, hpieces⟩ := hat.fold (.ofOpener line)
    refine ⟨hafter, ?_⟩
    intro s hs
    obtain ⟨pieces, hresult, hs⟩ := map_eq_ok hs
    cases hs
    exact ⟨(hpieces pieces hresult).cons hline, _, _, rfl⟩
  · refine ⟨hat, ?_⟩
    intro s hs
    cases hs
    exact ⟨.single hline, _, _, rfl⟩

theorem At.search (hat : At raws r rest) :
    Honest raws (r.search rest) := by
  induction rest generalizing r with
  | nil => exact ⟨hat, by simp [Reader.search]⟩
  | cons raw rest ih =>
      cases raw with
      | undecodable => exact hat.decodable.elim
      | text raw =>
          obtain ⟨hline, htaken⟩ := hat.take
          unfold Reader.search
          dsimp only
          split
          · exact ih htaken
          · exact htaken.statementFrom hline

theorem At.next (hat : At raws r rest) : Honest raws (r.next rest) := by
  unfold Reader.next
  split
  · exact hat.search
  · next line hpending =>
      have hline := hat.pending line hpending
      dsimp only
      split
      · exact hat.drop.search
      · exact hat.drop.statementFrom hline

/-- Every statement read from a source begins with a line of it, and is made
of its lines. -/
theorem At.readUpTo (hat : At raws r rest) {n : Nat} {s : Statement}
    {after : Reader} (hs : (.ok s, after) ∈ r.readUpTo n rest) :
    LinesOf raws s.pieces ∧ ∃ line more, s.pieces = .line line :: more := by
  induction n generalizing r rest with
  | zero => cases hs
  | succ n ih =>
      obtain ⟨hafter, hstatement⟩ := hat.next
      unfold Reader.readUpTo at hs
      dsimp only at hs
      split at hs
      · cases hs
      · next first hfirst =>
          rcases List.mem_cons.1 hs with heq | hs
          · cases heq
            exact hstatement s hfirst
          · exact ih hafter hs
      · next e he =>
          rcases List.mem_cons.1 hs with heq | hs
          · cases heq
          · exact ih hafter hs

end Reader

end Prose.Layout
