import Mathlib.Data.Option.Basic
import Prose.Proofs.Caseless.Grammar
import Prose.Proofs.Caseless.Layout
import Prose.Proofs.Caseless.Runs
import Prose.Proofs.Eval.MoreSteps

/-!
Programs whatever the case of their letters. Two sources that differ only in the
case of letters outside string literals are read into statements that are alike,
these are parsed into trees that are alike, and the trees are run on machines
that are alike. So both programs end in the same way: they print the same, leave
the same values behind, and if they fail, they fail at the same stage, at the
same place and for the same reason.
-/

namespace Prose

open Text

/-! ### How programs end -/

/-- The same statement but for the case of letters outside literals, at the same
place. -/
structure Layout.Statement.Alike (s s' : Layout.Statement) : Prop where
  line : s.line = s'.line
  text : Text.caseless s.text = Text.caseless s'.text
  sourceSpan : s.sourceSpan = s'.sourceSpan

/-- The same problem, at the same stage and place and for the same reason, but
for the case of the names and words in it. -/
inductive Problem.Alike : Problem → Problem → Prop where
  | layout {e e' : Layout.LayoutError} (he : e.caseless = e'.caseless) :
      Alike (.layout e) (.layout e')
  | grammar {e e' : SyntaxError} {s s' : Layout.Statement}
      (he : e.Alike .caseless e') (hs : s.Alike s') :
      Alike (.grammar e s) (.grammar e' s')
  | fault {f f' : Fault} {s s' : Layout.Statement}
      (hf : f.caseless = f'.caseless) (hs : s.Alike s') :
      Alike (.fault f s) (.fault f' s')

/-- The same diagnostic but for the case of letters in its message and notes. -/
structure Diagnostic.Alike (d d' : Diagnostic) : Prop where
  code : d.code = d'.code
  message : lowerString d.message = lowerString d'.message
  labels : d.labels = d'.labels
  notes : d.notes.map lowerString = d'.notes.map lowerString

/-- Both completed in the same way, or both failed with the same problem. -/
inductive AlikeOutcomes :
    Except Problem Completion → Except Problem Completion → Prop where
  | completed (c : Completion) : AlikeOutcomes (.ok c) (.ok c)
  | failed {p p' : Problem} (h : p.Alike p')
      (hdiagnostic : p.toDiagnostic.Alike p'.toDiagnostic) :
      AlikeOutcomes (.error p) (.error p')

/-- Two programs that ended alike: with the same outcome and output, and with
the same values of variables and elements of lists, up to the case of the names
in functions. -/
structure Program.Ended.Alike (e e' : Program.Ended) : Prop where
  outcome : AlikeOutcomes e.outcome e'.outcome
  output : e.machine.output = e'.machine.output
  values : ∀ name, (e.machine.valueOf? name).map Value.caseless =
    (e'.machine.valueOf? name).map Value.caseless
  lists : ∀ ref, (e.machine.heap.get ref).map Value.caseless =
    (e'.machine.heap.get ref).map Value.caseless

/-! ### Diagnostics -/

theorem Fault.lowerString_message_caseless (fault : Fault) :
    lowerString fault.caseless.message = lowerString fault.message := by
  obtain ⟨cause, span?, backtrace⟩ := fault
  cases cause with
  | noSuchVariable name =>
      exact lowerString_append_congr rfl (lowerString_lowerString name)
  | unknownParameter name | duplicateParameter name =>
      apply lowerString_append_congr _ rfl
      exact lowerString_append_congr rfl (lowerString_lowerString name)
  | notUnderstood message => exact lowerString_lowerString message
  | _ => rfl

theorem Fault.diagnostic_alike {f f' : Fault} (h : f.caseless = f'.caseless) :
    f.toDiagnostic.Alike f'.toDiagnostic := by
  have hcode : f.code = f'.code := by
    rw [← f.code_caseless, h, f'.code_caseless]
  obtain ⟨_, hspan, hbacktrace⟩ := Fault.mk.inj h
  constructor
  · exact hcode
  · change lowerString f.message = lowerString f'.message
    rw [← f.lowerString_message_caseless, h, f'.lowerString_message_caseless]
  · simp only [toDiagnostic, hspan, hcode]
  · have hnotes (names : List String) :
        (names.map ("while running " ++ ·)).map lowerString =
          (names.map lowerString).map
            (lowerString "while running " ++ ·) := by
      rw [List.map_map, List.map_map]
      exact List.map_congr_left fun name _ => lowerString_append _ name
    change (f.backtrace.map ("while running " ++ ·)).map lowerString =
      (f'.backtrace.map ("while running " ++ ·)).map lowerString
    rw [hnotes, hnotes, hbacktrace]

theorem SyntaxError.Cause.Alike.shown {cause cause' : SyntaxError.Cause}
    (h : cause.Alike .caseless cause') :
    cause.code = cause'.code ∧ cause.message = cause'.message ∧
      cause.label? = cause'.label? := by
  have hcode {k l : Token.Kind} (h : k.Alike .caseless l) (code : Code) :
      Cause.codeFor k code = Cause.codeFor l code := by
    cases h <;> rfl
  cases h with
  | same cause => exact ⟨rfl, rfl, rfl⟩
  | unexpected expected hfound =>
      exact ⟨hcode hfound _,
        congrArg ("expected " ++ expected ++ ", found " ++ ·) hfound.describe,
        rfl⟩
  | noExpression hfound =>
      exact ⟨hcode hfound _, congrArg ("expected expression, found " ++ ·)
        hfound.describe, rfl⟩
  | notNegatable hfound =>
      exact ⟨rfl, congrArg ("expected a number after `-`, found " ++ ·)
        hfound.describe, rfl⟩
  | noBlock hfound =>
      exact ⟨rfl, congrArg ("expected an indented block, found " ++ ·)
        hfound.describe, rfl⟩

theorem SyntaxError.toDiagnostic_eq_of_alike {e e' : SyntaxError}
    (h : e.Alike .caseless e') : e.toDiagnostic = e'.toDiagnostic := by
  obtain ⟨hcode, hmessage, hlabel⟩ := h.cause.shown
  have hspan : e.span = e'.span := h.span
  simp only [toDiagnostic, code, message, label?, hcode, hmessage, hlabel,
    hspan]

theorem Diagnostic.Alike.mapSpans {d d' : Diagnostic} (h : d.Alike d')
    (f : Span → Span) : (d.mapSpans f).Alike (d'.mapSpans f) where
  code := h.code
  message := h.message
  labels := by simp only [Diagnostic.mapSpans, h.labels]
  notes := h.notes

theorem Layout.LayoutError.lowerString_message_caseless (e : LayoutError) :
    lowerString e.caseless.message = lowerString e.message := by
  cases e with
  | missingIndentation text line span =>
      have htext : lowerString (String.ofList (Text.caseless text)) =
          lowerString (String.ofList text) := by
        simp only [lowerString, String.toList_ofList, lower_caseless]
      exact lowerString_append_congr (lowerString_append_congr rfl htext) rfl
  | missingBlock line span | undecodable => rfl

theorem Problem.layoutDiagnostic_alike {e e' : Layout.LayoutError}
    (h : e.caseless = e'.caseless) :
    (layoutDiagnostic e).Alike (layoutDiagnostic e') := by
  have hcaseless (e : Layout.LayoutError) :
      (layoutDiagnostic e).Alike (layoutDiagnostic e.caseless) := by
    have hmessage := e.lowerString_message_caseless.symm
    cases e <;> exact ⟨rfl, hmessage, rfl, rfl⟩
  have hleft := hcaseless e
  have hright := hcaseless e'
  rw [h] at hleft
  exact ⟨hleft.code.trans hright.code.symm,
    hleft.message.trans hright.message.symm,
    hleft.labels.trans hright.labels.symm, hleft.notes.trans hright.notes.symm⟩

/-- The same problem is reported in the same way. -/
theorem Problem.Alike.diagnostic {p p' : Problem} (h : p.Alike p') :
    p.toDiagnostic.Alike p'.toDiagnostic := by
  cases h with
  | layout he => exact layoutDiagnostic_alike he
  | grammar he hs =>
      simp only [toDiagnostic, hs.sourceSpan,
        SyntaxError.toDiagnostic_eq_of_alike he]
      exact ⟨rfl, rfl, rfl, rfl⟩
  | fault hf hs =>
      simp only [toDiagnostic, hs.sourceSpan]
      exact (Fault.diagnostic_alike hf).mapSpans _

/-! ### One statement -/

theorem runTopLevel_alike {n : Nat} {stmt stmt' : Stmt}
    (hstmt : stmt.relabel .caseless = stmt'.relabel .caseless)
    {m m' : Machine} (hm : m.Alike m') :
    Run.Ends Eq (runTopLevel n stmt m) (runTopLevel n stmt' m') := by
  have hleft : Run.Alike Eval.Flow.Alike (Eval.runStmt n stmt)
      (Eval.runStmt n (stmt.relabel .caseless)) :=
    Eval.task_caseless n (.stmt stmt)
  have hright : Run.Alike Eval.Flow.Alike (Eval.runStmt n stmt')
      (Eval.runStmt n (stmt.relabel .caseless)) :=
    hstmt ▸ Eval.task_caseless n (.stmt stmt')
  have hends := Eval.flow_alike_join hleft hright m m' hm
  rw [runTopLevel, runTopLevel]
  generalize Eval.runStmt n stmt m = ended at hends
  generalize Eval.runStmt n stmt' m' = ended' at hends
  cases hends with
  | unfinished => exact .unfinished
  | ended hr hm =>
      cases hr with
      | ok _ => exact .ended (.ok rfl) hm
      | @error fault fault' h =>
          have hexit : fault.isExit = fault'.isExit := by
            rw [← fault.isExit_caseless, h, fault'.isExit_caseless]
          dsimp only
          rw [hexit]
          split
          · exact .ended (.ok rfl) hm
          · exact .ended (.error h) hm

/-- How one statement ended. -/
inductive AlikeExecutions :
    Option (Except Problem Completion × Machine) →
      Option (Except Problem Completion × Machine) → Prop where
  | unfinished : AlikeExecutions none none
  | ended {r r' : Except Problem Completion} {m m' : Machine}
      (hr : AlikeOutcomes r r') (hm : m.Alike m') :
      AlikeExecutions (some (r, m)) (some (r', m'))

theorem AlikeOutcomes.failed_of_alike {p p' : Problem} (h : p.Alike p') :
    AlikeOutcomes (.error p) (.error p') :=
  .failed h h.diagnostic

theorem execute_alike (n : Nat) {s s' : Layout.Statement} (hs : s.Alike s')
    {m m' : Machine} (hm : m.Alike m') :
    AlikeExecutions (execute n s m) (execute n s' m') := by
  rcases parseText_alike hs.text with
    ⟨stmt, stmt', hparse, hparse', hstmt⟩ | ⟨e, e', hparse, hparse', he⟩
  · have hends := runTopLevel_alike (n := n) hstmt hm
    simp only [execute, hparse, hparse']
    generalize runTopLevel n stmt m = ended at hends
    generalize runTopLevel n stmt' m' = ended' at hends
    cases hends with
    | unfinished => exact .unfinished
    | ended hr hm =>
        cases hr with
        | ok h =>
            cases h
            exact .ended (.completed _) hm
        | error h => exact .ended (.failed_of_alike (.fault h hs)) hm
  · simp only [execute, hparse, hparse']
    exact .ended (.failed_of_alike (.grammar he hs)) hm

/-! ### All statements -/

namespace Program

/-- The programs have got equally far in sources that differ only in case. -/
structure Alike (p p' : Program) : Prop where
  reader : p.reader.caseless = p'.reader.caseless
  lines : ∃ source source' rest rest', p.lines = some rest ∧
    p'.lines = some rest' ∧
    rest.map Layout.RawLine.caseless = rest'.map Layout.RawLine.caseless ∧
    Layout.Reader.At (rawLines source) p.reader rest ∧
    Layout.Reader.At (rawLines source') p'.reader rest'

theorem alike_ofText {source source' : List Char}
    (h : Text.caseless source = Text.caseless source') :
    (ofText source).Alike (ofText source') where
  reader := rfl
  lines := by
    refine ⟨source, source', _, _, rfl, rfl, ?_, .fresh source, .fresh source'⟩
    rw [← Layout.RawLine.ofText_caseless, h, Layout.RawLine.ofText_caseless]

/-- Both programs are at the end, fail to read on, or read statements that are
alike. -/
inductive AlikeReadings : Except Layout.LayoutError (Option Layout.Statement) →
    Except Layout.LayoutError (Option Layout.Statement) → Prop where
  | finished : AlikeReadings (.ok none) (.ok none)
  | read {s s' : Layout.Statement} (h : s.Alike s') :
      AlikeReadings (.ok (some s)) (.ok (some s'))
  | failed {e e' : Layout.LayoutError} (h : e.caseless = e'.caseless) :
      AlikeReadings (.error e) (.error e')

theorem statement_alike {s s' : Layout.Statement} (h : s.caseless = s'.caseless)
    (hs : Layout.Separated s.pieces) (hs' : Layout.Separated s'.pieces) :
    s.Alike s' where
  line := (Layout.Statement.mk.inj h).1
  text := by
    rw [Layout.Statement.text, ← hs.text_caseless,
      (Layout.Statement.mk.inj h).2, hs'.text_caseless, ← Layout.Statement.text]
  sourceSpan := by
    funext span
    rw [← s.sourceSpan_caseless, h, s'.sourceSpan_caseless]

theorem next_alike {p p' : Program} (hp : p.Alike p') (m m' : Machine) :
    AlikeReadings (p.next m).1 (p'.next m').1 ∧
      (p.next m).2.1.Alike (p'.next m').2.1 ∧
      (p.next m).2.2 = m ∧ (p'.next m').2.2 = m' := by
  obtain ⟨source, source', rest, rest', hlines, hlines', hrest, hat, hat'⟩ :=
    hp.lines
  have hreading : (p.reader.next rest).caseless Layout.Reader.caselessStatement =
      (p'.reader.next rest').caseless Layout.Reader.caselessStatement := by
    rw [← Layout.Reader.next_caseless, hp.reader, hrest,
      Layout.Reader.next_caseless]
  obtain ⟨hafter, hstatement⟩ := hat.next
  obtain ⟨hafter', hstatement'⟩ := hat'.next
  simp only [next, hlines, hlines', and_true]
  generalize p.reader.next rest = reading at hreading hafter hstatement ⊢
  generalize p'.reader.next rest' = reading' at hreading hafter' hstatement' ⊢
  obtain ⟨_, hreader, hleft⟩ := Layout.Reading.mk.inj hreading
  refine ⟨?_, hreader, source, source', _, _, rfl, rfl, hleft, hafter, hafter'⟩
  rcases Layout.Reading.result_cases hreading with
    ⟨e, e', hread, hread', he⟩ | ⟨found, found', hread, hread', hfound⟩
  · rw [hread, hread']
    exact .failed he
  · rw [hread, hread']
    cases found with
    | none =>
        obtain rfl : found' = none := Option.map_eq_none_iff.1 hfound.symm
        exact .finished
    | some s =>
        obtain ⟨s', rfl, hs⟩ := Option.map_eq_some_iff.1 hfound.symm
        exact .read (statement_alike hs.symm (hstatement s hread).1.separated
          (hstatement' s' hread').1.separated)

/-- Programs that have got equally far end alike, or neither ends. -/
theorem run_alike (n : Nat) {p p' : Program} (hp : p.Alike p') {m m' : Machine}
    (hm : m.Alike m') :
    Option.Rel Ended.Alike (p.run n m) (p'.run n m') := by
  have hended {p p' : Program} {m m' : Machine} (hm : m.Alike m')
      {r r' : Except Problem Completion} (hr : AlikeOutcomes r r') :
      Ended.Alike ⟨r, p, m⟩ ⟨r', p', m'⟩ :=
    { outcome := hr
      output := hm.output
      values := fun name => by
        change (m.scope.get? name).map _ = (m'.scope.get? name).map _
        rw [← Scope.get?_caseless, hm.scope, Scope.get?_caseless]
      lists := Eval.get_alike hm.heap }
  -- Both sides spend the same number of steps on a statement, so what is left
  -- of the programs is compared with one and the same bound.
  induction n generalizing p p' m m' with
  | zero => exact .none
  | succ n ih =>
      obtain ⟨hread, hp, hleft, hleft'⟩ := next_alike hp m m'
      rw [run, run]
      generalize p.next m = read at hread hp hleft
      generalize p'.next m' = read' at hread hp hleft'
      obtain ⟨found, p, m₁⟩ := read
      obtain ⟨found', p', m₁'⟩ := read'
      obtain rfl : m₁ = m := hleft
      obtain rfl : m₁' = m' := hleft'
      cases hread with
      | finished => exact .some (hended hm (.completed _))
      | failed he => exact .some (hended hm (.failed_of_alike (.layout he)))
      | @read s s' hs =>
          have hexecuted := execute_alike n hs hm
          dsimp only
          generalize execute n s m₁ = executed at hexecuted
          generalize execute n s' m₁' = executed' at hexecuted
          cases hexecuted with
          | unfinished => exact .none
          | ended hr hm =>
              cases hr with
              | failed h hdiagnostic =>
                  exact .some (hended hm (.failed h hdiagnostic))
              | completed c =>
                  cases c with
                  | finished => exact ih hp hm
                  | exited => exact .some (hended hm (.completed _))

/-- The case of letters outside string literals does not matter: two sources
that differ in nothing else, run with the same input and limit on calls, end
alike. -/
theorem run_ignores_case {source source' : List Char}
    (h : Text.caseless source = Text.caseless source') (input : Input)
    (limit : Option Nat) {n n' : Nat} {e e' : Ended}
    (he : (ofText source).run n (.start input limit) = some e)
    (he' : (ofText source').run n' (.start input limit) = some e') :
    e.Alike e' := by
  have hruns := run_alike n (alike_ofText h) (.refl (.start input limit))
  -- The second program has ended within `n` steps too, and it ends in one way.
  rw [he] at hruns
  generalize hother : (ofText source').run n (.start input limit) = other
    at hruns
  cases hruns with
  | some halike =>
      rw [run_unique he' hother]
      exact halike

/-- A program that prints and then fails inside a function. -/
def failingSource : List Char :=
  ("Total is 4.\nShow is a function given Item:\n  Print Item plus Total.\n" ++
    "  Print \"Ab\" plus Missing.\nRun Show with Item as 1.\n").toList

/-- The same program in other letters. -/
def recasedSource : List Char :=
  ("total IS 4.\nSHOW is A Function given item:\n  PRINT item PLUS total.\n" ++
    "  print \"Ab\" Plus MISSING.\nrun sHOW WITH ITEM as 1.\n").toList

theorem run_ignores_case_failure :
    ∃ e e' : Ended,
      (ofText failingSource).run 40 (.start .none (some 3)) = some e ∧
      (ofText recasedSource).run 50 (.start .none (some 3)) = some e' ∧
      e.machine.output = "5\n" ∧ e.outcome.toBool = false ∧ e.Alike e' := by
  have hended (source : List Char) (n : Nat)
      (h : ((ofText source).run n (.start .none (some 3))).map
        (fun e => (e.machine.output, e.outcome.toBool)) = some ("5\n", false)) :
      ∃ e, (ofText source).run n (.start .none (some 3)) = some e ∧
        e.machine.output = "5\n" ∧ e.outcome.toBool = false := by
    obtain ⟨e, he, hshown⟩ := Option.map_eq_some_iff.1 h
    exact ⟨e, he, congrArg Prod.fst hshown, congrArg Prod.snd hshown⟩
  obtain ⟨e, he, houtput, hfailed⟩ :=
    hended failingSource 40 (by decide +kernel)
  obtain ⟨e', he', _, _⟩ := hended recasedSource 50 (by decide +kernel)
  exact ⟨e, e', he, he', houtput, hfailed,
    run_ignores_case (by decide +kernel) .none (some 3) he he'⟩

end Program

end Prose
