import Prose.Diagnostic.Render
import Prose.Session
import Prose.Text.Utf8
import Prose.Token.Listing
import Prose.Tree.Outline

/-!
The command line as a function: from the arguments, the files and the input to what is written and
the exit status.
-/

namespace Prose.CommandLine

/-- What reading a file gives. -/
inductive FileContent where
  | text (text : List Char)
  | missing
  | forbidden
  | undecodable
  /-- Reading failed for another reason. -/
  | failed (reason : String)
deriving DecidableEq, Inhabited

def FileContent.ofBytes (bytes : List UInt8) : FileContent :=
  match Text.ofBytes? bytes with
  | some characters => .text characters
  | none => .undecodable

/-- What the program is started with. -/
structure Invocation where
  args : List String
  /-- The environment asks for output without colours. -/
  noColor : Bool
  /-- Errors are written to a terminal. -/
  terminal : Bool
  input : List UInt8
  fileAt : String → FileContent

/-- What the program writes, and its exit status. -/
structure Outcome where
  status : UInt8
  out : String
  err : String
deriving DecidableEq, Inhabited

def usageStatus : UInt8 := 2

/-- A program that does its job. -/
def Outcome.success (out : String) : Outcome := ⟨0, out, ""⟩

/-- A command line that is not understood. -/
def Outcome.usage (err : String) : Outcome := ⟨usageStatus, "", err⟩

def unlines (lines : List String) : String := String.join (lines.map (· ++ "\n"))

/-! ### Arguments -/

/-- What the program is asked to do. -/
inductive Command where
  /-- Run the program in the input. -/
  | runInput
  | runFile (path : String)
  | lexFile (path : String)
  | parseFile (path : String)
  | help
  | version
  | missingPath (command : String)
  | extraArgument (argument : String)
  | unknownOption (option : String)
deriving DecidableEq, Inhabited

/-- What begins the option for colours. -/
def colorOption : String := "--color="

/-- What follows an option in an argument, if the argument begins with it. -/
def optionValue? (option argument : String) : Option String :=
  if Text.startsWith argument.toList option.toList then
    some (String.ofList (argument.toList.drop option.length))
  else none

/-- Takes the options for colours out of the arguments. The last one counts; a value that is none is
an error. -/
def takeColors (mode : ColorMode) : List String → Except String (ColorMode × List String)
  | [] => .ok (mode, [])
  | arg :: rest =>
    match optionValue? colorOption arg with
    | some value =>
      match ColorMode.ofWord? value with
      | some mode => takeColors mode rest
      | none => .error value
    | none => (takeColors mode rest).map fun r => (r.1, arg :: r.2)

/-- A command on one file. -/
def fileCommand (name : String) (command : String → Command) : List String → Command
  | [] => .missingPath name
  | [path] => command path
  | _ :: extra :: _ => .extraArgument extra

/-- The command that arguments without options for colours give. -/
def commandOf : List String → Command
  | [] => .runInput
  | "run" :: rest => fileCommand "run" .runFile rest
  | "lex" :: rest => fileCommand "lex" .lexFile rest
  | "parse" :: rest => fileCommand "parse" .parseFile rest
  | first :: rest =>
    if first = "help" ∨ first = "--help" ∨ first = "-h" then .help
    else if first = "version" ∨ first = "--version" ∨ first = "-V" then .version
    else if Text.startsWith first.toList ['-'] then .unknownOption first
    else match rest with
      | [] => .runFile first
      | extra :: _ => .extraArgument extra

def usage : String := unlines
  ["Newspeak interpreter",
   "",
   "Usage: nsp [options] [command] [file.nsp]",
   "",
   "Commands:",
   "  <file.nsp>          Run a program",
   "  run <file.nsp>      Run a program",
   "  lex <file.nsp>      Show the tokens of each statement",
   "  parse <file.nsp>    Show the syntax tree of each statement",
   "  help                Show this message",
   "  version             Show version information",
   "",
   "With no file, statements are read from standard input.",
   "",
   "Options:",
   "  --color=<when>      Colour diagnostics: auto, always or never",
   "",
   "Environment:",
   "  RUST_LOG            Enable tracing output on stderr, e.g. RUST_LOG=debug",
   "  NO_COLOR            Disable colour when --color=auto"]

def versionText : String := "nsp 0.1.0\n"

/-! ### Commands -/

/-- The outcome of a run that ended in a problem, or in none, after writing something. -/
def report (colored : Bool) (source : SourceText) (out : String) (problem : Option Problem) :
    Outcome :=
  match problem with
  | none => .success out
  | some problem => ⟨1, out, problem.toDiagnostic.render colored (some source)⟩

/-- The diagnostic of a file that cannot be read, or its text. -/
def textOf (path : String) : FileContent → Except Diagnostic (List Char)
  | .text text => .ok text
  | .missing => unreadable ("cannot find file '" ++ path ++ "'")
  | .forbidden => unreadable ("permission denied reading '" ++ path ++ "'")
  | .undecodable => unreadable ("'" ++ path ++ "' contains invalid UTF-8 data")
  | .failed reason => unreadable ("error reading '" ++ path ++ "': " ++ reason)
where
  unreadable (message : String) : Except Diagnostic (List Char) :=
    .error { Diagnostic.ofCode .unreadableSource with message := message }

/-- Runs a program, which ends in time. The source is known when it has ended. -/
def runProgram (colored : Bool) (program : Program) (input : List Layout.RawLine)
    (source : Program → SourceText) : Outcome :=
  match program.run manySteps (.start (.stream input) none) with
  | none => .success ""
  | some ended =>
    let problem := match ended.outcome with
      | .ok _ => none
      | .error problem => some problem
    report colored (source ended.program) ended.machine.output problem

/-- Shows statements one after the other, up to the first problem. -/
def showStatements (render : Layout.Statement → Except Problem (List String)) :
    List (Except Layout.LayoutError Layout.Statement) → List String × Option Problem
  | [] => ([], none)
  | .error e :: _ => ([], some (.layout e))
  | .ok statement :: rest =>
    match render statement with
    | .error problem => ([], some problem)
    | .ok lines =>
      let (more, problem) := showStatements render rest
      (lines ++ more, problem)

def statementHeading (statement : Layout.Statement) : String :=
  "Statement at line " ++ toString statement.line

def showTokens (statement : Layout.Statement) : Except Problem (List String) :=
  let lexed := lex statement.text
  let heading :=
    statementHeading statement ++ " (" ++ toString lexed.tokens.length ++ " tokens):"
  .ok (heading :: lexed.toListing)

def showTree (statement : Layout.Statement) : Except Problem (List String) :=
  match parseText statement.text with
  | .error e => .error (.grammar e statement)
  | .ok stmt => .ok [statementHeading statement ++ ":", (Tree.stmtOutline stmt).toText]

def showText (colored : Bool) (source : SourceText)
    (render : Layout.Statement → Except Problem (List String)) : Outcome :=
  let statements := (Layout.Reader.readAll (Layout.RawLine.ofText source.text)).map (·.1)
  let (lines, problem) := showStatements render statements
  report colored source (unlines lines) problem

/-- Does something with the text of a file. -/
def withFile (colored : Bool) (invocation : Invocation) (path : String)
    (f : List Char → Outcome) : Outcome :=
  match textOf path (invocation.fileAt path) with
  | .ok text => f text
  | .error diagnostic => ⟨1, "", diagnostic.render colored none⟩

def perform (colored : Bool) (invocation : Invocation) : Command → Outcome
  | .runInput =>
    runProgram colored .ofInput (Layout.RawLine.ofBytes invocation.input) fun p => ⟨"<stdin>", p.transcript⟩
  | .runFile path => withFile colored invocation path fun text =>
    runProgram colored (.ofText text) (Layout.RawLine.ofBytes invocation.input) fun _ => ⟨path, text⟩
  | .lexFile path => withFile colored invocation path fun text =>
    showText colored ⟨path, text⟩ showTokens
  | .parseFile path => withFile colored invocation path fun text =>
    showText colored ⟨path, text⟩ showTree
  | .help => .success usage
  | .version => .success versionText
  | .missingPath command =>
    .usage (unlines ["error: missing file path", "Usage: nsp " ++ command ++ " <file.nsp>"])
  | .extraArgument argument => .usage (unlines ["error: unexpected argument '" ++ argument ++ "'"])
  | .unknownOption option =>
    ⟨usageStatus, usage, unlines ["error: unknown option '" ++ option ++ "'", ""]⟩

/-- The colour mode in force: the environment can turn the default off. -/
def effectiveMode (invocation : Invocation) (mode : ColorMode) : ColorMode :=
  if mode = .auto ∧ invocation.noColor then .never else mode

def run (invocation : Invocation) : Outcome :=
  match takeColors .auto invocation.args with
  | .error value =>
    .usage (unlines ["error: invalid value '" ++ value ++
      "' for --color (expected auto, always or never)"])
  | .ok (mode, args) =>
    perform ((effectiveMode invocation mode).isColored invocation.terminal) invocation
      (commandOf args)

/-- The file that a command line needs, if it needs one. -/
def neededFile? (args : List String) : Option String :=
  match takeColors .auto args with
  | .error _ => none
  | .ok (_, args) =>
    match commandOf args with
    | .runFile path | .lexFile path | .parseFile path => some path
    | _ => none

end Prose.CommandLine
