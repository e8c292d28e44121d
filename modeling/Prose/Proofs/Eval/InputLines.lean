import Prose.Proofs.Eval.SharedStream
import Prose.Proofs.Layout.LineNumbers

/-!
The line numbers of a program that comes from the input. The statements of the
program read from the stream that it comes from, so it is a stream that the reader
of the program shares with others.
-/

namespace Prose.Program

open Layout

variable {source : List Char} {n i : Nat} {m : Machine} {st : Start}

/-- The statements of a program that comes from the input are read from the lines
that those before them have left, so program and statements share the stream. -/
theorem shares_of_starts {p : Program} (hp : p.lines = none)
    {handed : List (List Char)} {rest : List RawLine} (hm : m.input = .stream rest)
    (hshares : Reader.Shares source handed p.reader rest)
    (hi : (p.starts n m)[i]? = some st) :
    ∃ handed rest, Reader.Shares source handed st.program.reader rest ∧
      st.rest.reader = (st.program.reader.next rest).reader ∧
      (st.program.reader.next rest).result = .ok (some st.statement) := by
  induction n generalizing p m i handed rest with
  | zero => cases hi
  | succ n ih =>
      cases hstarts : p.starts (n + 1) m with
      | nil =>
          rw [hstarts] at hi
          cases hi
      | cons first more =>
          rw [hstarts] at hi
          obtain ⟨k, hk, rfl, rfl, hnext, hmore⟩ := starts_eq_cons hstarts
          cases hk
          have hread : first.program.next first.machine =
              ((first.program.reader.next rest).result,
                ⟨(first.program.reader.next rest).reader, none⟩,
                { first.machine with
                  input := .stream (first.program.reader.next rest).rest }) := by
            rw [next, hp, hm]
          rw [hread] at hnext
          obtain ⟨hresult, heq⟩ := Prod.mk.inj hnext
          obtain ⟨hprogram, hbegun⟩ := Prod.mk.inj heq
          cases i with
          | zero =>
              cases hi
              exact ⟨handed, rest, hshares, by rw [← hprogram], hresult⟩
          | succ i =>
              rcases hmore with rfl | ⟨m', hexecute, rfl⟩
              · cases hi
              · obtain ⟨lines, hlines, -⟩ := hshares.keeps.next
                have hafter := hshares.read hlines
                obtain ⟨used, left, hleft, hm'⟩ := drops_of_execute hexecute
                  (first.program.reader.next rest).rest (by rw [← hbegun])
                have hleaves : left.Sublist (first.program.reader.next rest).rest := by
                  rw [hleft]
                  exact List.sublist_append_right used left
                have hothers : Reader.Shares source (handed ++ lines)
                    first.rest.reader left := by
                  rw [← hprogram]
                  exact hafter.others hleaves
                exact ih (by rw [← hprogram]) hm' hothers hi

/-- Whatever the statements of a program have read from the input that the program
comes from, the next statement is on its line in the transcript of the program. -/
theorem located_of_starts (hm : m.input = .stream (RawLine.ofText source))
    (hi : (ofInput.starts n m)[i]? = some st) :
    Reader.Located st.rest.transcript (.ok st.statement) := by
  obtain ⟨handed, rest, hshares, hreader, hresult⟩ :=
    shares_of_starts rfl hm .start hi
  obtain ⟨lines, -, halone, hkeeps⟩ := hshares.keeps.next
  obtain ⟨-, hraws, -⟩ := hkeeps.transcript
  rw [transcript, hreader]
  refine hshares.keeps.located halone ⟨[], ?_⟩ (by rw [Reading.found?, hresult])
  rw [List.append_nil, hraws]

end Prose.Program
