import Prose.Proofs.Layout.LineRuns

/-!
What a reading takes from a stream. To find a statement the reader takes blank
lines, the lines of the statement that it does not hold already, and, if the
statement opens a block, one line more unless there is none: only a line that
does not belong to a block shows that the block is over. That line is held for
the next statement.
-/

namespace Prose.Layout

open Text

/-- The line that a stream hands out, without its ending. -/
def RawLine.line? : RawLine → Option (List Char)
  | .text raw => some (stripEnding raw)
  | .undecodable => none

/-- Whether a line is passed over between two statements. -/
def RawLine.isBlank (raw : RawLine) : Bool := raw.line?.any isBlankText

theorem RawLine.eq_text_of_line? {raw : RawLine} {text : List Char}
    (h : raw.line? = some text) :
    ∃ characters, raw = .text characters ∧ stripEnding characters = text := by
  cases raw with
  | text characters => exact ⟨characters, rfl, Option.some.inj h⟩
  | undecodable => cases h

namespace Statement

def lines (s : Statement) : List Line := linesAmong s.pieces

def opensBlock (s : Statement) : Bool := s.lines.head?.any Line.opensBlock

end Statement

namespace Reader

variable {r : Reader} {offered : List RawLine}

/-- The line that the reader holds and that the next statement begins with, if
it is not blank. -/
def held (r : Reader) : List Line := r.pending.toList.filter (!·.isBlank)

theorem held_eq_singleton (h : r.held ≠ []) :
    ∃ line, r.pending = some line ∧ r.held = [line] := by
  rw [held] at h ⊢
  cases hpending : r.pending with
  | none =>
      rw [hpending] at h
      exact absurd rfl h
  | some line =>
      rw [hpending] at h
      cases hblank : line.isBlank with
      | true => simp [hblank] at h
      | false => exact ⟨line, rfl, by simp [hblank]⟩

/-- The reader holds the lines that were taken last. -/
def Holds (r : Reader) (ahead : List RawLine) : Prop :=
  ahead.map RawLine.line? = r.pending.toList.map fun line => some line.text

theorem holds_nil (h : r.pending = none) : r.Holds [] := by
  rw [Holds, h]
  rfl

/-- Folding takes the lines that it folds and one more, unless there is none. -/
theorem fold_takes {f : Folding} (hpending : r.pending = none)
    {pieces : List Piece} (h : (r.fold f offered).result = .ok pieces) :
    ∃ own ahead, offered = own ++ ahead ++ (r.fold f offered).rest ∧
      own.map RawLine.line? =
        (linesAmong pieces).map (fun line => some line.text) ∧
      (r.fold f offered).reader.Holds ahead ∧
      (ahead = [] → (r.fold f offered).rest = []) := by
  induction offered generalizing r f pieces with
  | nil =>
      obtain ⟨n, rfl⟩ := Folding.finish_ok h
      refine ⟨[], [], rfl, ?_, holds_nil hpending, fun _ => rfl⟩
      rw [linesAmong_closing]
      rfl
  | cons raw offered ih =>
      cases raw with
      | undecodable => cases h
      | text raw =>
          have htaken : (r.take raw).2.pending = none := hpending
          cases hstep : f.step (r.take raw).1 with
          | error e =>
              simp only [fold, hstep] at h
              cases h
          | ok step =>
              cases step with
              | complete done =>
                  simp only [fold, hstep] at h ⊢
                  cases h
                  obtain ⟨n, rfl⟩ := Folding.step_complete hstep
                  refine ⟨[], [.text raw], rfl, ?_, rfl,
                    fun hnil => absurd hnil (List.cons_ne_nil _ _)⟩
                  rw [linesAmong_closing]
                  rfl
              | extend added next =>
                  simp only [fold, hstep] at h ⊢
                  obtain ⟨marks, hmarks, rfl⟩ := Folding.step_extend hstep
                  obtain ⟨more, hmore, rfl⟩ := map_eq_ok h
                  obtain ⟨own, ahead, hoffered, hown, hahead⟩ := ih htaken hmore
                  refine ⟨.text raw :: own, ahead, ?_, ?_, hahead⟩
                  · exact congrArg (_ :: ·) hoffered
                  · rw [List.map_cons, hown]
                    simp [linesAmong_append, linesAmong_marks hmarks,
                      linesAmong, RawLine.line?, take]

/-- Folding begins with a line of the block. -/
theorem linesAmong_ne_nil_of_fold {opener : Line} {pieces : List Piece}
    (h : (r.fold (.ofOpener opener) offered).result = .ok pieces) :
    linesAmong pieces ≠ [] := by
  cases offered with
  | nil => cases h
  | cons raw offered =>
      cases raw with
      | undecodable => cases h
      | text raw =>
          cases hstep : (Folding.ofOpener opener).step (r.take raw).1 with
          | error e =>
              simp only [fold, hstep] at h
              cases h
          | ok step =>
              cases step with
              | complete done =>
                  simp only [Folding.step, Folding.ofOpener] at hstep
                  split at hstep <;> cases hstep
              | extend added next =>
                  simp only [fold, hstep] at h
                  obtain ⟨marks, hmarks, rfl⟩ := Folding.step_extend hstep
                  obtain ⟨more, hmore, rfl⟩ := map_eq_ok h
                  simp [linesAmong_append, linesAmong]

end Reader

/-- What a reading that found a statement took from the lines offered to it:
blank lines, the lines of the statement but for those the reader held, and the
lines it holds now. -/
structure Taken (before : Reader) (s : Statement) (after : Reader)
    (offered blanks own ahead left : List RawLine) : Prop where
  offered_eq : offered = blanks ++ own ++ ahead ++ left
  blank : ∀ raw ∈ blanks, raw.isBlank = true
  /-- A statement that begins with the line held needs no other to begin. -/
  noBlank : before.held ≠ [] → blanks = []
  lines : s.lines.map (fun line => some line.text) =
    before.held.map (fun line => some line.text) ++ own.map RawLine.line?
  holds : after.Holds ahead
  /-- A block is over only where a line shows it, or at the end. -/
  block : s.opensBlock = true → own ≠ [] ∧ (ahead = [] → left = [])
  /-- A line that opens no block is a statement, and the reader sees no further. -/
  line : s.opensBlock = false → ahead = [] ∧ ∃ line, s.lines = [line]

namespace Reader

variable {r before : Reader} {offered : List RawLine} {s : Statement}

/-- What is taken for the statement that begins with a line. The line itself was
held, or it is the last one taken so far. -/
theorem statementFrom_takes (hpending : r.pending = none) {line : Line}
    (h : (r.statementFrom line offered).result = .ok (some s)) :
    ∃ own ahead, offered = own ++ ahead ++ (r.statementFrom line offered).rest ∧
      s.lines.map (fun line => some line.text) =
        some line.text :: own.map RawLine.line? ∧
      (r.statementFrom line offered).reader.Holds ahead ∧
      (s.opensBlock = true → own ≠ [] ∧
        (ahead = [] → (r.statementFrom line offered).rest = [])) ∧
      (s.opensBlock = false → own = [] ∧ ahead = [] ∧ s.lines = [line]) := by
  unfold statementFrom at h ⊢
  split at h
  · next hopens =>
      obtain ⟨pieces, hpieces, heq⟩ := map_eq_ok h
      cases heq
      have hopensBlock : Statement.opensBlock
          ⟨line.number, .line line :: .newline :: pieces⟩ = true := hopens
      obtain ⟨own, ahead, hoffered, hown, hahead, hend⟩ :=
        fold_takes hpending hpieces
      simp only [hopens, if_true]
      refine ⟨own, ahead, hoffered, ?_, hahead, ?_, ?_⟩
      · rw [hown]
        rfl
      · refine fun _ => ⟨?_, hend⟩
        rintro rfl
        apply linesAmong_ne_nil_of_fold hpieces
        exact List.map_eq_nil_iff.1 hown.symm
      · intro hno
        rw [hopensBlock] at hno
        cases hno
  · next hopens =>
      cases h
      have hopensBlock : Statement.opensBlock ⟨line.number, [.line line]⟩ =
          false := Bool.not_eq_true _ ▸ hopens
      rw [if_neg hopens]
      refine ⟨[], [], rfl, rfl, holds_nil hpending, ?_, fun _ => ⟨rfl, rfl, rfl⟩⟩
      intro hyes
      rw [hopensBlock] at hyes
      cases hyes

theorem search_takes (hpending : r.pending = none) (hheld : before.held = [])
    (h : (r.search offered).result = .ok (some s)) :
    ∃ blanks own ahead, Taken before s (r.search offered).reader offered blanks
      own ahead (r.search offered).rest := by
  induction offered generalizing r with
  | nil => cases h
  | cons raw offered ih =>
      cases raw with
      | undecodable => cases h
      | text raw =>
          have htaken : (r.take raw).2.pending = none := hpending
          rw [search] at h ⊢
          dsimp only at h ⊢
          split at h
          · next hblank =>
              obtain ⟨blanks, own, ahead, htakes⟩ := ih htaken h
              rw [if_pos hblank]
              refine ⟨.text raw :: blanks, own, ahead, ?_⟩
              exact { htakes with
                offered_eq := congrArg (_ :: ·) htakes.offered_eq
                blank := List.forall_mem_cons.2 ⟨hblank, htakes.blank⟩
                noBlank := fun hne => absurd hheld hne }
          · next hblank =>
              obtain ⟨own, ahead, hoffered, hlines, hholds, hblock, hline⟩ :=
                statementFrom_takes htaken h
              rw [if_neg hblank]
              refine ⟨[], .text raw :: own, ahead, ?_⟩
              exact
                { offered_eq := congrArg (_ :: ·) hoffered
                  blank := List.forall_mem_nil _
                  noBlank := fun _ => rfl
                  lines := by
                    rw [hlines, hheld]
                    rfl
                  holds := hholds
                  block := fun hopens => ⟨List.cons_ne_nil _ _, (hblock hopens).2⟩
                  line := fun hopens =>
                    ⟨(hline hopens).2.1, _, (hline hopens).2.2⟩ }

/-- What a reading takes. -/
theorem next_takes (h : (r.next offered).result = .ok (some s)) :
    ∃ blanks own ahead, Taken r s (r.next offered).reader offered blanks own
      ahead (r.next offered).rest := by
  unfold next at h ⊢
  cases hpending : r.pending with
  | none =>
      rw [hpending] at h
      have hheld : r.held = [] := by
        rw [held, hpending]
        rfl
      exact search_takes hpending hheld h
  | some line =>
      rw [hpending] at h
      dsimp only at h ⊢
      split at h
      · next hblank =>
          have hheld : r.held = [] := by
            rw [held, hpending]
            simp [hblank]
          rw [if_pos hblank]
          exact search_takes (r := { r with pending := none }) rfl hheld h
      · next hblank =>
          have hheld : r.held = [line] := by
            rw [held, hpending]
            simp [hblank]
          obtain ⟨own, ahead, hoffered, hlines, hholds, hblock, hline⟩ :=
            statementFrom_takes (r := { r with pending := none }) rfl h
          rw [if_neg hblank]
          refine ⟨[], own, ahead, ?_⟩
          exact
            { offered_eq := hoffered
              blank := nofun
              noBlank := fun _ => rfl
              lines := by
                rw [hlines, hheld]
                rfl
              holds := hholds
              block := hblock
              line := fun hopens =>
                ⟨(hline hopens).2.1, _, (hline hopens).2.2⟩ }

end Reader

namespace Taken

variable {before after : Reader} {s : Statement}
  {offered blanks own ahead left : List RawLine}

/-- A statement of which no line was held begins with a line that is taken. -/
theorem own_ne_nil (h : Taken before s after offered blanks own ahead left)
    (hheld : before.held = []) : own ≠ [] := by
  cases hopens : s.opensBlock with
  | true => exact (h.block hopens).1
  | false =>
      obtain ⟨-, line, hline⟩ := h.line hopens
      have hlines := h.lines
      rw [hline, hheld] at hlines
      rintro rfl
      cases hlines

/-- The last line of a statement is the last one taken for it. -/
theorem getLast_own (h : Taken before s after offered blanks own ahead left)
    (hown : own ≠ []) :
    ∃ front raw, own = front ++ [.text raw] ∧
      s.lines.getLast?.map (·.text) = some (stripEnding raw) := by
  obtain ⟨front, raw, rfl⟩ :=
    (List.eq_nil_or_concat' own).resolve_left hown
  have hlast := congrArg List.getLast? h.lines
  rw [List.getLast?_map, List.map_append, List.map_singleton,
    ← List.append_assoc, List.getLast?_concat] at hlast
  obtain ⟨line, hline, hraw⟩ := Option.map_eq_some_iff.1 hlast
  obtain ⟨characters, rfl, htext⟩ := RawLine.eq_text_of_line? hraw.symm
  exact ⟨front, characters, rfl, by rw [hline, htext]; rfl⟩

/-- Where a line that opens no block was held, nothing is taken. -/
theorem eq_left_of_held_ne_nil
    (h : Taken before s after offered blanks own ahead left)
    (hopens : s.opensBlock = false) (hheld : before.held ≠ []) :
    offered = left ∧ s.lines.map (·.text) = before.held.map (·.text) := by
  obtain ⟨hahead, line, hline⟩ := h.line hopens
  have hlines := h.lines
  have hown : own = [] := by
    have hlength := congrArg List.length hlines
    have hpos := List.length_pos_of_ne_nil hheld
    rw [hline, List.length_append, List.length_map, List.length_map,
      List.length_map, List.length_singleton] at hlength
    exact List.length_eq_zero_iff.1 (by omega)
  constructor
  · rw [h.offered_eq, h.noBlank hheld, hahead, hown]
    rfl
  · rw [hown, List.map_nil, List.append_nil] at hlines
    have htexts := congrArg (List.map (Option.getD · [])) hlines
    rw [List.map_map, List.map_map] at htexts
    exact htexts

end Taken

end Prose.Layout
