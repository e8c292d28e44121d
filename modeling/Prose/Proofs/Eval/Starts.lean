import Prose.Proofs.Eval.Steady

/-!
The statements that a program begins to run, one after the other, each with the
program and the machine before it was read and when it begins.
-/

namespace Prose.Program

/-- A statement that a program begins to run. -/
structure Start where
  /-- The program before the statement was read. -/
  program : Program
  /-- The machine before the statement was read. -/
  machine : Machine
  statement : Layout.Statement
  /-- The rest of the program. -/
  rest : Program
  /-- The machine when the statement begins. -/
  begun : Machine

/-- The statements that a program begins to run within a number of steps. -/
def starts : Nat → Program → Machine → List Start
  | 0, _, _ => []
  | n + 1, p, m =>
      match p.next m with
      | (.ok (some statement), rest, begun) =>
          ⟨p, m, statement, rest, begun⟩ ::
            match execute n statement begun with
            | some (.ok .finished, m) => starts n rest m
            | _ => []
      | _ => []

variable {n : Nat} {p : Program} {m : Machine} {st : Start} {more : List Start}

/-- A statement is read and begins; if it ends as usual, the rest of the program
follows. -/
theorem starts_eq_cons (h : p.starts n m = st :: more) :
    ∃ k, n = k + 1 ∧ st.program = p ∧ st.machine = m ∧
      p.next m = (.ok (some st.statement), st.rest, st.begun) ∧
      (more = [] ∨ ∃ m',
        execute k st.statement st.begun = some (.ok .finished, m') ∧
          more = st.rest.starts k m') := by
  cases n with
  | zero => cases h
  | succ n =>
      rw [starts] at h
      split at h
      · next statement rest begun hnext =>
          obtain ⟨rfl, rfl⟩ := List.cons.inj h
          refine ⟨n, rfl, rfl, rfl, hnext, ?_⟩
          split
          · next m' hexecute => exact .inr ⟨m', hexecute, rfl⟩
          · exact .inl rfl
      · cases h

end Prose.Program
