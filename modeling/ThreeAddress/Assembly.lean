import ThreeAddress.Text.Lines
import ThreeAddress.Token.Lexer
import ThreeAddress.Line

/-
  This file reads the text of a program.

  The lines of the text are classified one after the other
  and fitted into function blocks: a start mark, a header, at
  most one list of declarations of each type, then labels and
  instructions, and an end mark. The first line that is
  malformed or out of place is the one that is reported.

  Key definitions include:
    * `Draft`, `Draft.accept`
    * `Block`
    * `Assembly`, `Assembly.accept`, `Assembly.readLine`
    * `assemble`
-/

namespace ThreeAddress

------------------------------------------------------------
-- The Function of an Open Block
------------------------------------------------------------

/-
  A function as far as its block has been read. A list of
  declarations is present once its line has been read.
-/
structure Draft where
  name : String
  returns : ReturnType
  params : List Parameter
  line : Nat
  ints : Option (List Declaration)
  floats : Option (List Declaration)
  code : Array Instruction
  labels : Array LabelDef

namespace Draft

/- The function of a header, with nothing behind it. -/
def ofHeader
    (returns : ReturnType)
    (name : String)
    (params : List Parameter)
    (line : Nat) : Draft :=
  { name, returns, params, line
    ints := none
    floats := none
    code := #[]
    labels := #[] }

/- The finished function. -/
def function (d : Draft) : Function :=
  { name := d.name
    returns := d.returns
    params := d.params
    ints := d.ints.getD []
    floats := d.floats.getD []
    code := d.code.toList
    labels := d.labels.toList
    line := d.line }

/- A label or an instruction has been read. -/
def inBody (d : Draft) : Bool :=
  !(d.code.isEmpty && d.labels.isEmpty)

/- The list of declarations of a type, once it is read. -/
def list? (d : Draft) : Scalar → Option (List Declaration)
| .int => d.ints
| .float => d.floats

/- Set the list of declarations of a type. -/
def setList (d : Draft) : Scalar → List Declaration → Draft
| .int, ds => { d with ints := some ds }
| .float, ds => { d with floats := some ds }

/- Define a label at the end of what has been read. -/
def addLabel (d : Draft) (name : String) (line : Nat) : Draft :=
  { d with labels := d.labels.push ⟨name, d.code.size, line⟩ }

/- Add an instruction, and before it the label on its line. -/
def addInstruction
    (d : Draft)
    (label : Option String)
    (i : Instruction) : Draft :=
  let d :=
    match label with
    | none => d
    | some name => d.addLabel name i.line
  { d with code := d.code.push i }

/- Add a line behind the header. -/
def accept
    (d : Draft)
    (line : Nat) : Line → Except SyntaxCause Draft
| .startFunction => .error .nestedFunction
| .endFunction => .error .nestedFunction
| .header _ _ _ => .error (.unexpectedToken "function header")
| .declarations type items =>
    if d.inBody then
      .error .declarationAfterCode
    else if (d.list? type).isSome then
      .error (.duplicateList type)
    else
      .ok (d.setList type
        (items.map fun (name, length) => ⟨name, type, length, line⟩))
| .label name => .ok (d.addLabel name line)
| .instruction label opcode operands =>
    .ok (d.addInstruction label ⟨opcode, operands, line⟩)

end Draft

------------------------------------------------------------
-- Blocks
------------------------------------------------------------

/-
  Where a text has come to: outside all blocks, behind a
  start mark, or behind a header. An open block remembers the
  line of its start mark.
-/
inductive Block where
| outside
| awaitingHeader (start : Nat)
| started (start : Nat) (draft : Draft)

/- The functions that are read, and the block that is open. -/
structure Assembly where
  functions : Array Function
  block : Block

namespace Assembly

/- Nothing has been read. -/
def empty : Assembly :=
  { functions := #[], block := .outside }

/- Fit a classified line into the blocks. -/
def accept
    (a : Assembly)
    (number : Nat)
    (line : Line) : Except SyntaxCause Assembly :=
  match a, line with
  | ⟨functions, .outside⟩, .startFunction =>
      .ok ⟨functions, .awaitingHeader number⟩
  | ⟨_, .outside⟩, .endFunction => .error .unmatchedEnd
  | ⟨_, .outside⟩, _ => .error .outsideFunction
  | ⟨_, _⟩, .startFunction => .error .nestedFunction
  | ⟨functions, .awaitingHeader start⟩,
      .header returns name params =>
      .ok ⟨functions, .started start
        (Draft.ofHeader returns name params number)⟩
  | ⟨_, .awaitingHeader _⟩, _ => .error .expectedHeader
  | ⟨functions, .started _ draft⟩, .endFunction =>
      .ok ⟨functions.push draft.function, .outside⟩
  | ⟨functions, .started start draft⟩, line =>
      match draft.accept number line with
      | .error cause => .error cause
      | .ok draft => .ok ⟨functions, .started start draft⟩

/- Read one line of text. -/
def readLine
    (a : Assembly)
    (number : Nat)
    (text : List Char) : Except SyntaxCause Assembly :=
  match Token.ofLine text with
  | .error cause => .error cause
  | .ok tokens =>
      match Line.ofTokens tokens with
      | .error cause => .error cause
      | .ok none => .ok a
      | .ok (some line) => a.accept number line

/- Read the lines of a text, from a line number on. -/
def readLines :
    Assembly →
    Nat →
    List (List Char) →
    Except SyntaxError Assembly
| a, _, [] => .ok a
| a, number, text :: texts =>
    match a.readLine number text with
    | .error cause => .error ⟨number, cause⟩
    | .ok a => readLines a (number + 1) texts

/- The program, if no block is open. -/
def finish (a : Assembly) : Except SyntaxError Program :=
  match a.block with
  | .outside => .ok ⟨a.functions.toList⟩
  | .awaitingHeader start => .error ⟨start, .unterminatedFunction⟩
  | .started start _ => .error ⟨start, .unterminatedFunction⟩

end Assembly

/- The program of a text. -/
def assemble (text : String) : Except SyntaxError Program :=
  match Assembly.empty.readLines 1 (Text.lines text.toList) with
  | .error e => .error e
  | .ok a => a.finish

end ThreeAddress
