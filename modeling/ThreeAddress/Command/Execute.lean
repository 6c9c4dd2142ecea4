import ThreeAddress.Listing
import ThreeAddress.Store
import ThreeAddress.Command.Arguments
import ThreeAddress.Command.Folder

/-
  This file carries out the commands of the command line.

  Key definitions include:
    * `Answer`
    * `Command.execute`
    * `answerArguments`
-/

namespace ThreeAddress

------------------------------------------------------------
-- Answers
------------------------------------------------------------

/- What a command writes, and the code that it exits with. -/
structure Answer where
  code : Nat
  output : String
  error : String
deriving DecidableEq, Repr

namespace Answer

/- Success. -/
def ok (output : String) : Answer :=
  { code := 0, output, error := "" }

/- A failure that is reported on one line. -/
def fail (code : Nat) (message : String) : Answer :=
  { code, output := "", error := "error: " ++ message ++ "\n" }

/- A file cannot be read. -/
def unreadable (file reason : String) : Answer :=
  fail 1 s!"cannot read '{file}': {reason}"

/- A text is rejected. -/
def rejected (d : Diagnostic) : Answer :=
  let code :=
    match d.kind with
    | .syntaxError => 1
    | .declarationError => 2
    | .typeError => 2
  fail code d.text

end Answer

------------------------------------------------------------
-- Commands
------------------------------------------------------------

/- The text of a file. -/
def readText
    (files : String → Opened)
    (file : String) : Except Answer String :=
  match files file with
  | .missing reason => .error (.unreadable file reason)
  | .unreadable reason => .error (.unreadable file reason)
  | .bytes b =>
      match String.fromUTF8? b.toByteArray with
      | some text => .ok text
      | none =>
          .error (.unreadable file "stream did not contain valid UTF-8")

/- The input of a run: a file, or the standard input. -/
def openInput
    (files : String → Opened)
    (stdin : List UInt8) : Option String → Except Answer Input
| none => .ok (.ofBytes stdin)
| some file =>
    match files file with
    | .missing reason => .error (.unreadable file reason)
    | .unreadable reason => .ok (.broken reason)
    | .bytes b => .ok (.ofBytes b)

/- The answer of a run. -/
def answerRun (result : Except RunError Unit) (output : String) : Answer :=
  match result with
  | .ok _ => .ok output
  | .error e =>
      { code := 3
        output
        error := "runtime error: " ++ e.message ++ "\n" }

namespace Command

/- The executable of a file. -/
def compileFile
    (files : String → Opened)
    (file : String) : Except Answer Executable :=
  match readText files file with
  | .error answer => .error answer
  | .ok text => (ThreeAddress.compile text).mapError Answer.rejected

/- Say that a program is well formed. -/
def executeCheck (files : String → Opened) (file : String) : Answer :=
  match compileFile files file with
  | .error answer => answer
  | .ok exe => .ok s!"OK: {file} ({exe.routines.size} functions)\n"

/- Write a program in its canonical form. -/
def executeFormat (files : String → Opened) (file : String) : Answer :=
  match readText files file with
  | .error answer => answer
  | .ok text =>
      match assemble text with
      | .error e => .rejected (.ofSyntaxError e)
      | .ok p => .ok p.listing

/- Run a program. -/
def executeRun
    (files : String → Opened)
    (stdin : List UInt8)
    (file : String)
    (input : Option String)
    (config : Config)
    (rounds : Nat) : Option Answer :=
  match compileFile files file with
  | .error answer => some answer
  | .ok exe =>
      match openInput files stdin input with
      | .error answer => some answer
      | .ok input =>
          let run := Run.initial input Buffer.empty
          (run.start exe config rounds).map fun (result, run) =>
            answerRun result run.machine.output.text

/-
  Carry out a command. A run that does not end within the
  rounds gives no answer.
-/
def execute
    (files : String → Opened)
    (stdin : List UInt8)
    (rounds : Nat) : Command → Option Answer
| .check file => some (executeCheck files file)
| .format file => some (executeFormat files file)
| .run file input config =>
    executeRun files stdin file input config rounds

end Command

------------------------------------------------------------
-- The Command Line
------------------------------------------------------------

/- The name and the version of the tool. -/
def versionText : String :=
  "tac 0.1.0\n"

/- The help text, which is also the answer to wrong usage. -/
def usageText : String :=
  "Check, format and run three-address code programs\n\n" ++
  "Usage: tac <COMMAND>\n\n" ++
  "Commands:\n" ++
  "  check <FILE>            Parse and verify a program\n" ++
  "  run [OPTIONS] <FILE>    Verify and run a program\n" ++
  "  fmt <FILE>              Print a program in canonical form\n" ++
  "  help [COMMAND]          Print this message\n\n" ++
  "Options of run:\n" ++
  "  --input <FILE>          Read input from a file\n" ++
  "  --max-depth <N>         Maximum call depth, main included\n" ++
  "  --budget <N>            Abort after this many instructions\n" ++
  "  --max-memory <N>        Maximum live array cells\n\n" ++
  "Options:\n" ++
  "  -h, --help              Print help\n" ++
  "  -V, --version           Print version\n"

/- The answer to an invocation. -/
def Invocation.answer
    (files : String → Opened)
    (stdin : List UInt8)
    (rounds : Nat) : Invocation → Option Answer
| .help => some (.ok usageText)
| .usageError => some { code := 1, output := "", error := usageText }
| .version => some (.ok versionText)
| .command c => c.execute files stdin rounds

end ThreeAddress
