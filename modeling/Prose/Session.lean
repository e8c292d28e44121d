import Prose.Eval.Interpreter
import Prose.Grammar.Parser
import Prose.Layout.Reader

/-!
Running programs statement by statement. Each statement is read, parsed and run before the next is
read, so a program that comes from the same stream as its input can read lines of that stream.
-/

namespace Prose

/-- How a program that did not fail came to an end. -/
inductive Completion where
  | finished
  | exited
deriving DecidableEq, Inhabited

/-- Why a program stopped, with the statement that was being handled. -/
inductive Problem where
  | layout (error : Layout.LayoutError)
  | grammar (error : SyntaxError) (statement : Layout.Statement)
  | fault (fault : Fault) (statement : Layout.Statement)

namespace Problem

/-- The statement that was being handled. -/
def statement? : Problem → Option Layout.Statement
  | layout _ => none
  | grammar _ statement => some statement
  | fault _ statement => some statement

/-- The diagnostic of lines that could not be folded. -/
def layoutDiagnostic (e : Layout.LayoutError) : Diagnostic :=
  let (code, labels) : Code × List Label :=
    match e with
    | .missingIndentation _ _ span =>
      (.missingIndentation, [⟨span, "the first line of a block must be indented"⟩])
    | .missingBlock _ span => (.missingBlock, [⟨span, "this line opens a block"⟩])
    | .undecodable => (.unreadableSource, [])
  { code := code, message := e.message, labels := labels, notes := [] }

/-- The problem as a diagnostic about the source of the program. -/
def toDiagnostic : Problem → Diagnostic
  | layout e => layoutDiagnostic e
  | grammar e statement => e.toDiagnostic.mapSpans statement.sourceSpan
  | fault f statement => f.toDiagnostic.mapSpans statement.sourceSpan

end Problem

/-- A program that is being read: from lines of its own, or from the input of the machine that runs
it. -/
structure Program where
  reader : Layout.Reader
  lines : Option (List Layout.RawLine)

namespace Program

def ofText (text : List Char) : Program := ⟨.fresh, some (Layout.RawLine.ofText text)⟩

def ofInput : Program := ⟨.fresh, none⟩

/-- What has been read of the program. -/
def transcript (p : Program) : List Char := p.reader.transcript

def next (p : Program) (m : Machine) :
    Except Layout.LayoutError (Option Layout.Statement) × Program × Machine :=
  match p.lines, m.input with
  | some lines, _ =>
    let reading := p.reader.next lines
    (reading.result, ⟨reading.reader, some reading.rest⟩, m)
  | none, .stream lines =>
    let reading := p.reader.next lines
    (reading.result, ⟨reading.reader, none⟩, { m with input := .stream reading.rest })
  | none, _ => (.ok none, p, m)

end Program

/-- Runs one statement of a program. A flow that leaves no loop is dropped. -/
def runTopLevel (n : Nat) (stmt : Stmt) (m : Machine) :
    Option (Except Fault Completion × Machine) :=
  match Eval.runStmt n stmt m with
  | none => none
  | some (.ok _, m) => some (.ok .finished, m)
  | some (.error fault, m) => some (if fault.isExit then .ok .exited else .error fault, m)

def execute (n : Nat) (statement : Layout.Statement) (m : Machine) :
    Option (Except Problem Completion × Machine) :=
  match parseText statement.text with
  | .error e => some (.error (.grammar e statement), m)
  | .ok stmt =>
    match runTopLevel n stmt m with
    | none => none
    | some (.error fault, m) => some (.error (.fault fault statement), m)
    | some (.ok completion, m) => some (.ok completion, m)

namespace Program

/-- How a program ended, with what is left of it and the machine as it was then. -/
structure Ended where
  outcome : Except Problem Completion
  program : Program
  machine : Machine

/-- Runs a program until it ends, exits or fails, within a number of steps. -/
def run : Nat → Program → Machine → Option Ended
  | 0, _, _ => none
  | n + 1, p, m =>
    match p.next m with
    | (.error e, p, m) => some ⟨.error (.layout e), p, m⟩
    | (.ok none, p, m) => some ⟨.ok .finished, p, m⟩
    | (.ok (some statement), p, m) =>
      match execute n statement m with
      | none => none
      | some (.ok .finished, m) => run n p m
      | some (.ok .exited, m) => some ⟨.ok .exited, p, m⟩
      | some (.error problem, m) => some ⟨.error problem, p, m⟩

end Program

/-- One step of a program that goes on after problems. -/
structure Trace.Step where
  /-- What was read. -/
  read : Except Layout.LayoutError Layout.Statement
  /-- The statement, if it could be parsed. -/
  stmt? : Option Stmt
  /-- How it ended, if it could be read. -/
  outcome : Except Problem Completion
  /-- What it printed. -/
  output : String
  /-- The machine after it. -/
  machine : Machine

/-- Runs the statements of a program one by one, going on after problems, until it ends or exits.
The machine's output is taken after each step. -/
def trace : Nat → Program → Machine → Option (List Trace.Step × Machine)
  | 0, _, _ => none
  | n + 1, p, m =>
    match p.next m with
    | (.error e, p, m) =>
      (trace n p m).map fun (steps, last) =>
        (⟨.error e, none, .error (.layout e), "", m⟩ :: steps, last)
    | (.ok none, _, m) => some ([], m)
    | (.ok (some statement), p, m) =>
      match execute n statement m with
      | none => none
      | some (outcome, m) =>
        let (output, m) := m.takeOutput
        let step : Trace.Step :=
          ⟨.ok statement, (parseText statement.text).toOption, outcome, output, m⟩
        match outcome with
        | .ok .exited => some ([step], m)
        | _ => (trace n p m).map fun (steps, last) => (step :: steps, last)

/-- A number of steps that no run on a real machine reaches. -/
def manySteps : Nat := 1000000000000000000

end Prose
