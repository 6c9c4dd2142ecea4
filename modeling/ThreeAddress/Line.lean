import ThreeAddress.Token.Basic
import ThreeAddress.Program
import ThreeAddress.SyntaxError

/-
  This file classifies the lines of program text, each on its
  own: the marks of a function block, headers, lists of
  declarations, labels and instructions.

  When a line is malformed the first token that does not fit
  is blamed, and where a token is missing, what was expected.

  Key definitions include:
    * `Line`
    * `Line.splitCommas`
    * `Line.readParameter`
    * `Line.readHeader`
    * `Line.readDeclarations`
    * `Line.readOperand`
    * `Line.readInstruction`
    * `Line.ofTokens`
-/

namespace ThreeAddress

/- A classified line of program text. -/
inductive Line where
| startFunction
| endFunction
| header
    (returns : ReturnType)
    (name : String)
    (params : List Parameter)
| declarations
    (type : Scalar)
    (items : List (String × Option Nat))
| label (name : String)
| instruction
    (label : Option String)
    (opcode : Opcode)
    (operands : List Operand)
deriving DecidableEq

namespace Line

------------------------------------------------------------
-- Tokens
------------------------------------------------------------

/- Blame a token. -/
def unexpected {α : Type} (t : Token) : Except SyntaxCause α :=
  .error (.unexpectedToken t.text)

/- Put a token before the runs of tokens behind it. -/
def pushToken (t : Token) (runs : List (List Token)) : List (List Token) :=
  if t = .comma then
    [] :: runs
  else
    match runs with
    | [] => [[t]]
    | run :: runs => (t :: run) :: runs

/- The runs of tokens between the commas, one more than them. -/
def splitCommas (ts : List Token) : List (List Token) :=
  ts.foldr pushToken [[]]

/- The length of an array, which must not be negative. -/
def readLength (n : Int32) : Except SyntaxCause Nat :=
  if n.toInt < 0 then
    .error (.invalidNumber (String.ofList (Decimal.ofInt n.toInt)))
  else
    .ok n.toInt.toNat

------------------------------------------------------------
-- Headers
------------------------------------------------------------

/- A parameter: `int x`, or `int[100] A` for an array. -/
def readParameter : List Token → Except SyntaxCause Parameter
| [] => .error (.unexpectedEnd "parameter")
| .ident word :: rest =>
    match Scalar.ofName? word with
    | none => .error (.unknownType word)
    | some t =>
        match rest with
        | [.ident name] => .ok ⟨name, .scalar t⟩
        | [.lbracket, .int n, .rbracket, .ident name] =>
            (readLength n).map fun length => ⟨name, .array t length⟩
        | [] => .error (.unexpectedEnd "parameter name")
        | extra :: _ => unexpected extra
| other :: _ => unexpected other

/- The parameters between the parentheses of a header. -/
def readParameters (ts : List Token) : Except SyntaxCause (List Parameter) :=
  if ts.isEmpty then .ok [] else (splitCommas ts).mapM readParameter

/- Nothing but an optional colon may end a header. -/
def headerEnd : List Token → Except SyntaxCause Unit
| [] => .ok ()
| [.colon] => .ok ()
| .colon :: extra :: _ => unexpected extra
| extra :: _ => unexpected extra

/- A header, from behind its opening parenthesis on. -/
def readHeader
    (returns : ReturnType)
    (name : String)
    (ts : List Token) : Except SyntaxCause Line :=
  match ts.dropWhile (· ≠ .rparen) with
  | [] => .error (.unexpectedEnd "')'")
  | _ :: trailing =>
      match readParameters (ts.takeWhile (· ≠ .rparen)) with
      | .error cause => .error cause
      | .ok params =>
          (headerEnd trailing).map fun _ =>
            .header returns name params

------------------------------------------------------------
-- Declarations
------------------------------------------------------------

/- A declared name, with a length if it is an array. -/
def readDeclaration :
    List Token → Except SyntaxCause (String × Option Nat)
| [.ident name] => .ok (name, none)
| [.ident name, .lbracket, .int n, .rbracket] =>
    (readLength n).map fun length => (name, some length)
| [] => unexpected .comma
| [.ident _, .lbracket] => .error (.unexpectedEnd "']'")
| [.ident _, .lbracket, .int _] => .error (.unexpectedEnd "']'")
| .ident _ :: other :: _ => unexpected other
| other :: _ => unexpected other

/- The declarations of a list, from behind its colon on. -/
def readDeclarations
    (type : Scalar)
    (ts : List Token) : Except SyntaxCause Line :=
  if ts.isEmpty then
    .ok (.declarations type [])
  else
    ((splitCommas ts).mapM readDeclaration).map (.declarations type)

------------------------------------------------------------
-- Instructions
------------------------------------------------------------

/- A name and nothing else. -/
def readName : List Token → Except SyntaxCause String
| [.ident name] => .ok name
| .ident _ :: extra :: _ => unexpected extra
| other :: _ => unexpected other
| [] => unexpected .comma

/- The index of an element: a name or an integer. -/
def readIndex : Token → Except SyntaxCause (Index String)
| .ident x => .ok (.var x)
| .int n => .ok (.const n)
| other => unexpected other

/- An operand that stands for a value or a destination. -/
def readValue : List Token → Except SyntaxCause Operand
| [.ident x] => .ok (.var x)
| [.int n] => .ok (.int n)
| [.float x] => .ok (.float x)
| [.ident a, .lbracket, i, .rbracket] => (readIndex i).map (.element a)
| .ident _ :: .lbracket :: _ :: .rbracket :: extra :: _ =>
    unexpected extra
| .ident _ :: .lbracket :: _ :: other :: _ => unexpected other
| .ident _ :: .lbracket :: _ => .error (.unexpectedEnd "']'")
| _ :: extra :: _ => unexpected extra
| [] => unexpected .comma
| [other] => unexpected other

/- An operand of a kind. -/
def readOperand : OperandKind → List Token → Except SyntaxCause Operand
| .label, ts => (readName ts).map .label
| .function, ts => (readName ts).map .function
| .array, ts => (readName ts).map .var
| .destination, ts => readValue ts
| .value, ts => readValue ts

/- The operands of an operation, each read for its position. -/
def readOperands
    (op : Opcode)
    (runs : List (List Token)) : Except SyntaxCause (List Operand) :=
  runs.zipIdx.mapM fun (run, position) =>
    readOperand (op.operandKind position) run

/- The operation that a run of tokens names. -/
def readOpcode (ts : List Token) : Except SyntaxCause Opcode :=
  match readName ts with
  | .error cause => .error cause
  | .ok word =>
      match Opcode.ofMnemonic? word with
      | none => .error (.unknownOpcode word)
      | some op => .ok op

/-
  An assignment of three operands is refused by a message of
  its own, before the count of operands is looked at.
-/
def checkCount (op : Opcode) (count : Nat) : Except SyntaxCause Unit :=
  if op = .assign ∧ count = 3 then
    .error .arrayAssign
  else if op.arity.admits count then
    .ok ()
  else
    .error (.wrongOperandCount op count)

/- An instruction, behind its label if it has one. -/
def readInstruction
    (label : Option String)
    (ts : List Token) : Except SyntaxCause Line :=
  match splitCommas ts with
  | [] => unexpected .comma
  | head :: runs =>
      match readOpcode head with
      | .error cause => .error cause
      | .ok op =>
          match checkCount op runs.length with
          | .error cause => .error cause
          | .ok _ => (readOperands op runs).map (.instruction label op)

------------------------------------------------------------
-- Lines
------------------------------------------------------------

/- A mark of a function block. -/
def readDirective (word : String) : List Token → Except SyntaxCause Line
| extra :: _ => unexpected extra
| [] =>
    if word = "start_function" then .ok .startFunction
    else if word = "end_function" then .ok .endFunction
    else unexpected (.directive word)

/- A line with a word and a colon at its front. -/
def readLabelled (word : String) (ts : List Token) : Except SyntaxCause Line :=
  if word = Scalar.int.listKeyword then
    readDeclarations .int ts
  else if word = Scalar.float.listKeyword then
    readDeclarations .float ts
  else if ts.isEmpty then
    .ok (.label word)
  else
    readInstruction (some word) ts

/- A line with a word at its front. -/
def readWordLine (word : String) (rest : List Token) : Except SyntaxCause Line :=
  match ReturnType.ofName? word, rest with
  | some returns, .ident name :: .lparen :: ts => readHeader returns name ts
  | _, .colon :: ts => readLabelled word ts
  | _, ts => readInstruction none (.ident word :: ts)

/- The line that tokens make up; no tokens make up none. -/
def ofTokens : List Token → Except SyntaxCause (Option Line)
| [] => .ok none
| .directive word :: rest => (readDirective word rest).map some
| .ident word :: rest => (readWordLine word rest).map some
| other :: _ => unexpected other

end Line

end ThreeAddress
