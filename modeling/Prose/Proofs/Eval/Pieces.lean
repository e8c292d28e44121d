import Mathlib.Data.Option.Basic
import Prose.Proofs.Eval.MoreSteps
import Prose.Proofs.Layout.Joined
import Prose.Proofs.Text.RawLines

/-!
Running a program in pieces. A program is cut before a line that begins a
statement of its own, and what stands before the cut runs to its end. Then running
what stands after it on the machine that is left is running the whole program. If
it fails, it fails in the same way, but what it says about places counts from the
cut. No message but that of a missing block says anything about places.
-/

namespace Prose

open Text

/-! ### Problems further down -/

/-- The same problem, at the same stage and for the same reason, met some lines
and bytes further down. -/
inductive Problem.IsBelow (lines bytes : Nat) : Problem → Problem → Prop where
  | layout (e : Layout.LayoutError) :
      IsBelow lines bytes (.layout e) (.layout (e.below lines bytes))
  | grammar (e : SyntaxError) {s s' : Layout.Statement}
      (hs : s.IsBelow lines bytes s') :
      IsBelow lines bytes (.grammar e s) (.grammar e s')
  | fault (f : Fault) {s s' : Layout.Statement}
      (hs : s.IsBelow lines bytes s') :
      IsBelow lines bytes (.fault f s) (.fault f s')

/-- The message of a problem some lines further down. The one of a missing block
names the line that opens the block. -/
def Problem.messageBelow (lines : Nat) : Problem → String
  | layout (.missingBlock line span) =>
      (Layout.LayoutError.missingBlock (line + lines) span).message
  | problem => problem.toDiagnostic.message

/-- The report of a problem that was met further down. -/
structure Problem.IsReportedBelow (lines bytes : Nat) (p p' : Problem) :
    Prop where
  code : p'.toDiagnostic.code = p.toDiagnostic.code
  message : p'.toDiagnostic.message = p.messageBelow lines
  labels : p'.toDiagnostic.labels = p.toDiagnostic.labels.map fun label =>
    { label with span := label.span.shift bytes }
  notes : p'.toDiagnostic.notes = p.toDiagnostic.notes

/-- Both completed in the same way, or both failed with the same problem. -/
inductive IsOutcomeBelow (lines bytes : Nat) :
    Except Problem Completion → Except Problem Completion → Prop where
  | completed (c : Completion) : IsOutcomeBelow lines bytes (.ok c) (.ok c)
  | failed {p p' : Problem} (h : p.IsBelow lines bytes p')
      (hreport : p.IsReportedBelow lines bytes p') :
      IsOutcomeBelow lines bytes (.error p) (.error p')

/-- Two programs that ended alike, with the same machine; only what is said about
places counts from different lines. -/
structure Program.Ended.IsBelow (lines bytes : Nat) (e e' : Program.Ended) :
    Prop where
  outcome : IsOutcomeBelow lines bytes e.outcome e'.outcome
  machine : e'.machine = e.machine

section Below

variable {lines bytes : Nat}

theorem Problem.IsBelow.isReportedBelow {p p' : Problem}
    (h : p.IsBelow lines bytes p') : p.IsReportedBelow lines bytes p' := by
  cases h with
  | layout e => cases e <;> exact ⟨rfl, rfl, rfl, rfl⟩
  | grammar e hs | fault f hs =>
      refine ⟨rfl, rfl, ?_, rfl⟩
      simp only [toDiagnostic, Diagnostic.mapSpans, List.map_map, hs.sourceSpan]
      rfl

theorem IsOutcomeBelow.failed_of_isBelow {p p' : Problem}
    (h : p.IsBelow lines bytes p') :
    IsOutcomeBelow lines bytes (.error p) (.error p') :=
  .failed h h.isReportedBelow

/-- A statement does the same wherever it stands. -/
theorem execute_below (n : Nat) {s s' : Layout.Statement}
    (hs : s.IsBelow lines bytes s') (m : Machine) :
    Option.Rel
      (fun ended ended' =>
        IsOutcomeBelow lines bytes ended.1 ended'.1 ∧ ended'.2 = ended.2)
      (execute n s m) (execute n s' m) := by
  rw [execute, execute, hs.text]
  cases parseText s.text with
  | error e => exact .some ⟨.failed_of_isBelow (.grammar e hs), rfl⟩
  | ok stmt =>
      dsimp only
      cases runTopLevel n stmt m with
      | none => exact .none
      | some ended =>
          obtain ⟨fault | completion, m⟩ := ended
          · exact .some ⟨.failed_of_isBelow (.fault fault hs), rfl⟩
          · exact .some ⟨.completed completion, rfl⟩

end Below

namespace Program

open Layout

/-- A program does the same after another reader has read what stands above. -/
theorem run_below (n : Nat) (r above : Reader) (rest : List RawLine)
    (m : Machine) :
    Option.Rel (Ended.IsBelow above.number above.offset)
      (run n ⟨r, some rest⟩ m) (run n ⟨r.below above, some rest⟩ m) := by
  induction n generalizing r rest m with
  | zero => exact .none
  | succ n ih =>
      have hstatement (s : Statement)
          (hs : (r.next rest).result = .ok (some s)) :=
        Reader.isBelow_of_next hs above.number above.offset
      simp only [run, next, Reader.next_below, Reading.below]
      generalize r.next rest = reading at hstatement ⊢
      obtain ⟨e | _ | s, r, rest⟩ := reading
      · exact .some ⟨.failed_of_isBelow (.layout e), rfl⟩
      · exact .some ⟨.completed .finished, rfl⟩
      · have hexecuted := execute_below n (hstatement s rfl) m
        simp only [Except.map, Except.mapError, Option.map_some]
        generalize execute n s m = executed at hexecuted
        generalize execute n (s.below above.number above.offset) m = executed'
          at hexecuted
        cases hexecuted with
        | none => exact .none
        | @some ended ended' h =>
            obtain ⟨outcome, m⟩ := ended
            obtain ⟨outcome', m'⟩ := ended'
            obtain ⟨houtcome, rfl⟩ := h
            cases houtcome with
            | failed h hreport => exact .some ⟨.failed h hreport, rfl⟩
            | completed c =>
                cases c with
                | finished => exact ih r rest _
                | exited => exact .some ⟨.completed .exited, rfl⟩

/-! ### Going on with a second text -/

/-- Programs that read the same next run in the same way. -/
theorem run_congr {p p' : Program} {m : Machine} (h : p.next m = p'.next m)
    (n : Nat) : p.run n m = p'.run n m := by
  cases n with
  | zero => rfl
  | succ n => rw [run, run, h]

/-- Where a program finishes, it goes on if more lines follow. Within enough steps
the whole does what the lines that follow do on the machine that is left. -/
theorem run_append_lines {raws : List (List Char)} {more : List RawLine}
    (hmore : StartAfresh more) {n : Nat} {r : Reader} {rest : List RawLine}
    (hat : Reader.At raws r rest) {m : Machine} {e : Ended}
    (hrun : run n ⟨r, some rest⟩ m = some e)
    (hfinished : e.outcome = .ok .finished) :
    e.program.reader.pending = none ∧ Reader.At raws e.program.reader [] ∧
    ∃ k, ∀ n', n ≤ n' + k → run (n' + k) ⟨r, some (rest ++ more)⟩ m =
      run n' ⟨e.program.reader, some more⟩ e.machine := by
  induction n generalizing r rest m with
  | zero => cases hrun
  | succ n ih =>
      have hcontinued := r.next_append hmore rest
      obtain ⟨hafter, -⟩ := hat.next
      rw [run] at hrun
      simp only [next] at hrun
      cases hresult : (r.next rest).result with
      | error problem =>
          rw [hresult] at hrun
          cases hrun
          cases hfinished
      | ok found =>
          rw [hresult] at hrun
          cases found with
          | none =>
              cases hrun
              obtain ⟨hpending, hrest⟩ := Reader.atEnd_of_next hresult
              rw [hrest] at hafter
              simp only [Reading.ContinuedBy, hresult] at hcontinued
              refine ⟨hpending, hafter, 0, fun n' _ => run_congr ?_ n'⟩
              simp only [next, hcontinued]
          | some s =>
              simp only [Reading.ContinuedBy, hresult] at hcontinued
              obtain ⟨hlong, hgoes⟩ := hcontinued
              dsimp only at hrun
              cases hexecute : execute n s m with
              | none =>
                  rw [hexecute] at hrun
                  cases hrun
              | some ended =>
                  rw [hexecute] at hrun
                  obtain ⟨problem | _ | _, m₁⟩ := ended
                  · cases hrun
                    cases hfinished
                  · obtain ⟨hpending, hend, k, hk⟩ := ih hafter hrun
                    refine ⟨hpending, hend, k + 1, fun n' hn' => ?_⟩
                    have hle : n ≤ n' + k := by omega
                    rw [← hk n' hle, ← Nat.add_assoc, run]
                    simp only [next, hlong, execute_of_le hle hexecute]
                    apply run_congr
                    simp only [next]
                    rw [hgoes]
                  · cases hrun
                    cases hfinished

/-- Running a program in pieces is running it whole. The first text is empty or
ends with a line, it runs to its end, and the second text begins a statement of
its own. Then the second text ends on the machine that the first one has left
exactly if the whole text ends. Both end with the same machine and in the same
way, but the places in problems of the second text lie further down in the
whole. -/
theorem run_append {a b : List Char} (ha : a = [] ∨ a.getLast? = some '\n')
    (hb : StartAfresh (RawLine.ofText b)) {n : Nat} {m : Machine} {e : Ended}
    (hrun : (ofText a).run n m = some e)
    (hfinished : e.outcome = .ok .finished) :
    (∀ n₂ e₂, (ofText b).run n₂ e.machine = some e₂ →
      ∃ n' e', (ofText (a ++ b)).run n' m = some e' ∧
        e₂.IsBelow (rawLines a).length (byteLength a) e') ∧
    (∀ n' e', (ofText (a ++ b)).run n' m = some e' →
      ∃ n₂ e₂, (ofText b).run n₂ e.machine = some e₂ ∧
        e₂.IsBelow (rawLines a).length (byteLength a) e') := by
  obtain ⟨hpending, hend, k, hk⟩ :=
    run_append_lines hb (.fresh a) hrun hfinished
  obtain ⟨hoffset, hnumber⟩ := hend.atEnd
  rw [flatten_rawLines] at hoffset
  have hwhole : ofText (a ++ b) =
      ⟨.fresh, some (RawLine.ofText a ++ RawLine.ofText b)⟩ := by
    rw [ofText, RawLine.ofText, rawLines_append ha, List.map_append]
    rfl
  have hbelow (n₂ : Nat) := run_below n₂ .fresh e.program.reader
    (RawLine.ofText b) e.machine
  rw [Reader.below_fresh hpending, hoffset, hnumber] at hbelow
  rw [hwhole]
  constructor
  · intro n₂ e₂ he₂
    have hrel := hbelow (n₂ + n)
    rw [show run (n₂ + n) ⟨.fresh, some (RawLine.ofText b)⟩ e.machine = some e₂
      from run_add he₂ n, ← hk (n₂ + n) (by omega)] at hrel
    generalize hended : run (n₂ + n + k) _ m = ended at hrel
    cases hrel with
    | some h => exact ⟨_, _, hended, h⟩
  · intro n' e' he'
    have hrel := hbelow (n' + n)
    rw [← hk (n' + n) (by omega), Nat.add_assoc, run_add he' (n + k)] at hrel
    generalize hended : run (n' + n) _ e.machine = ended at hrel
    cases hrel with
    | some h => exact ⟨_, _, hended, h⟩

/-- The message of the problem that a program failed with. -/
def Ended.message? (e : Ended) : Option String :=
  match e.outcome with
  | .ok _ => none
  | .error problem => some problem.toDiagnostic.message

theorem exists_ended_in_pieces (a b : List Char) (m : Machine) (output : String)
    (message? : Option String)
    (h : ((ofText a).run 20 m).bind (fun e =>
      ((ofText b).run 20 e.machine).map fun e₂ =>
        (e.outcome.toOption, e₂.machine.output, e₂.message?)) =
      some (some .finished, output, message?)) :
    ∃ e e₂ : Ended, (ofText a).run 20 m = some e ∧
      e.outcome = .ok .finished ∧ (ofText b).run 20 e.machine = some e₂ ∧
      e₂.machine.output = output ∧ e₂.message? = message? := by
  obtain ⟨e, he, hsecond⟩ := Option.bind_eq_some_iff.1 h
  obtain ⟨e₂, he₂, hshown⟩ := Option.map_eq_some_iff.1 hsecond
  simp only [Prod.mk.injEq] at hshown
  obtain ⟨hfinished, houtput, hmessage⟩ := hshown
  refine ⟨e, e₂, he, ?_, he₂, houtput, hmessage⟩
  generalize e.outcome = outcome at hfinished
  cases outcome with
  | error problem => cases hfinished
  | ok completion =>
      cases hfinished
      rfl

def blockSource : List Char := "x is 1.\nIf true:\n  Print x.\n".toList

def missingSource : List Char := "Print x plus 1.\nPrint missing.\n".toList

theorem run_append_failure :
    ∃ e e₂ e' : Ended, ∃ n',
      (ofText blockSource).run 20 (.start .none none) = some e ∧
      (ofText missingSource).run 20 e.machine = some e₂ ∧
      e₂.machine.output = "1\n2\n" ∧
      e₂.message? = some "no such variable: missing" ∧
      (ofText (blockSource ++ missingSource)).run n' (.start .none none) =
        some e' ∧
      e₂.IsBelow 3 28 e' := by
  obtain ⟨e, e₂, he, hfinished, he₂, houtput, hmessage⟩ :=
    exists_ended_in_pieces blockSource missingSource (.start .none none)
      "1\n2\n" (some "no such variable: missing") (by decide +kernel)
  have hafresh : StartAfresh (RawLine.ofText missingSource) := by
    refine ⟨?_, ?_, ?_⟩ <;> decide +kernel
  obtain ⟨hforth, -⟩ := run_append (.inr (by decide)) hafresh he hfinished
  obtain ⟨n', e', he', hbelow⟩ := hforth 20 e₂ he₂
  exact ⟨e, e₂, e', n', he, he₂, houtput, hmessage, he', hbelow⟩

def openSource : List Char := "While true:\n".toList

def printSource : List Char := "Print 1.\n".toList

/-- The message of a missing block is not the same in the whole: the line that it
names is counted from the beginning. -/
theorem run_append_other_message :
    ∃ e e₂ e' : Ended,
      printSource.getLast? = some '\n' ∧
      StartAfresh (RawLine.ofText openSource) ∧
      (ofText printSource).run 20 (.start .none none) = some e ∧
      e.outcome = .ok .finished ∧
      (ofText openSource).run 20 e.machine = some e₂ ∧
      (ofText (printSource ++ openSource)).run 20 (.start .none none) =
        some e' ∧
      e₂.message? =
        some "expected an indented block after line 1, found end of input" ∧
      e'.message? =
        some "expected an indented block after line 2, found end of input" ∧
      e'.message? ≠ e₂.message? := by
  obtain ⟨e, e₂, he, hfinished, he₂, -, hmessage⟩ :=
    exists_ended_in_pieces printSource openSource (.start .none none) "1\n"
      (some "expected an indented block after line 1, found end of input")
      (by decide +kernel)
  obtain ⟨e', he', hmessage'⟩ := Option.map_eq_some_iff.1
    (show ((ofText (printSource ++ openSource)).run 20 (.start .none none)).map
      Ended.message? = some (some
        "expected an indented block after line 2, found end of input") by
      decide +kernel)
  have hafresh : StartAfresh (RawLine.ofText openSource) := by
    refine ⟨?_, ?_, ?_⟩ <;> decide +kernel
  refine ⟨e, e₂, e', by decide, hafresh, he, hfinished, he₂, he', hmessage,
    hmessage', ?_⟩
  rw [hmessage, hmessage']
  decide

end Program

end Prose
