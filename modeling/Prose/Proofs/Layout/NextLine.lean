import Prose.Proofs.Layout.LineRuns
import Prose.Proofs.Text.Supply

/-!
The reader as a supply of lines. Whenever the reader needs a line, it uses the one
that it has looked at before, or else takes one from its source. Both of its loops,
the search for a statement and the folding of blocks, get their lines in this way
only, so the reader hands out the physical lines of the source, whether it is asked
for lines or for statements.
-/

namespace Prose.Layout

open Text

namespace Reader

/-- The next line: the one looked at before, if there is one, or else one from the
source. -/
def line? :
    Reader × List RawLine →
      Except LayoutError (Option Line) × Reader × List RawLine
  | (r, rest) =>
      match r.pending, rest with
      | some line, rest => (.ok (some line), { r with pending := none }, rest)
      | none, [] => (.ok none, r, [])
      | none, .undecodable :: rest => (.error .undecodable, r, rest)
      | none, .text raw :: rest => (.ok (some (r.take raw).1), (r.take raw).2, rest)

variable {r : Reader} {rest : List RawLine}

theorem line?_of_pending {line : Line} (h : r.pending = some line) :
    line? (r, rest) = (.ok (some line), { r with pending := none }, rest) := by
  simp only [line?, h]

theorem line?_nil (h : r.pending = none) : line? (r, []) = (.ok none, r, []) := by
  simp only [line?, h]

theorem line?_text (h : r.pending = none) (raw : List Char) :
    line? (r, .text raw :: rest) =
      (.ok (some (r.take raw).1), (r.take raw).2, rest) := by
  simp only [line?, h]

theorem line?_undecodable (h : r.pending = none) :
    line? (r, .undecodable :: rest) = (.error .undecodable, r, rest) := by
  simp only [line?, h]

/-- The search for a statement asks for lines until one is not blank. -/
theorem next_eq (r : Reader) (rest : List RawLine) :
    r.next rest =
      match line? (r, rest) with
      | (.error e, r, rest) => ⟨.error e, r, rest⟩
      | (.ok none, r, rest) => ⟨.ok none, r, rest⟩
      | (.ok (some line), r, rest) =>
        if line.isBlank then r.next rest else r.statementFrom line rest := by
  cases hpending : r.pending with
  | some line => simp only [next, hpending, line?_of_pending hpending]
  | none =>
      cases rest with
      | nil => simp only [next, hpending, line?_nil hpending, search]
      | cons raw rest =>
          cases raw with
          | undecodable =>
              simp only [next, hpending, line?_undecodable hpending, search]
          | text raw =>
              have htaken : (r.take raw).2.pending = none := hpending
              simp only [next, hpending, line?_text hpending, search, htaken]

/-- Folding asks for lines until the statement is complete. -/
theorem fold_eq (f : Folding) (hpending : r.pending = none) :
    r.fold f rest =
      match line? (r, rest) with
      | (.error e, r, rest) => ⟨.error e, r, rest⟩
      | (.ok none, r, rest) => ⟨f.finish, r, rest⟩
      | (.ok (some line), r, rest) =>
        match f.step line with
        | .error e => ⟨.error e, r, rest⟩
        | .ok (.complete pieces) =>
          ⟨.ok pieces, { r with pending := some line }, rest⟩
        | .ok (.extend pieces next) =>
          let reading := r.fold next rest
          { reading with result := reading.result.map (pieces ++ ·) } := by
  cases rest with
  | nil => simp only [fold, line?_nil hpending]
  | cons raw rest =>
      cases raw with
      | undecodable => simp only [fold, line?_undecodable hpending]
      | text raw =>
          cases hstep : f.step (r.take raw).1 with
          | error e => simp only [fold, line?_text hpending, hstep]
          | ok step =>
              cases step <;> simp only [fold, line?_text hpending, hstep]

/-- Where all lines are text, the reader hands out the physical lines. -/
theorem drains_text (hpending : r.pending = none) (raws : List (List Char)) :
    ∃ lines, Drains line? (r, raws.map .text) lines ∧
      lines.map some = physicalLines r.offset r.number (raws.map .text) ∧
      lines.map (·.text) = raws.map stripEnding := by
  induction raws generalizing r with
  | nil => exact ⟨[], Drains.nil_iff.2 (line?_nil hpending), rfl, rfl⟩
  | cons raw raws ih =>
      have htaken : (r.take raw).2.pending = none := hpending
      obtain ⟨lines, hdrains, hlines, htexts⟩ := ih htaken
      refine ⟨(r.take raw).1 :: lines, ?_, congrArg (_ :: ·) hlines,
        congrArg (_ :: ·) htexts⟩
      exact Drains.cons_iff.2 ⟨_, line?_text hpending raw, hdrains⟩

end Reader

end Prose.Layout
