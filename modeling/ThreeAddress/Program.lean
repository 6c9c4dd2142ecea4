import ThreeAddress.Opcode

/-
  This file defines programs as they are written: functions
  with their declarations, labels and instructions, in which
  every variable, label and function is still a name.

  Key definitions include:
    * `Index`, `Operand`
    * `Instruction`
    * `Parameter`, `Declaration`, `LabelDef`
    * `Function`
    * `Program`
-/

namespace ThreeAddress

------------------------------------------------------------
-- Operands
------------------------------------------------------------

/- The index of an array element, over the names `ν`. -/
inductive Index (ν : Type) where
| var (name : ν)
| const (n : Int32)
deriving DecidableEq, Repr

/- An operand of an instruction. -/
inductive Operand where
| var (name : String)
| element (array : String) (index : Index String)
| int (n : Int32)
| float (x : Single)
| label (name : String)
| function (name : String)
deriving DecidableEq

namespace Index

/- The text of an index. -/
def text : Index String → String
| .var x => x
| .const n => String.ofList (Decimal.ofInt n.toInt)

/- The index with its name replaced. -/
def map
    {ν μ : Type}
    (f : ν → μ) : Index ν → Index μ
| .var x => .var (f x)
| .const n => .const n

end Index

namespace Operand

/- The text of an operand. -/
def text : Operand → String
| .var x => x
| .element a i => a ++ "[" ++ i.text ++ "]"
| .int n => String.ofList (Decimal.ofInt n.toInt)
| .float x => x.text
| .label l => l
| .function f => f

/- The variable that an operand refers to. -/
def varName? : Operand → Option String
| .var x => some x
| .element a _ => some a
| _ => none

/- The operand is a number. -/
def isLiteral : Operand → Bool
| .int _ => true
| .float _ => true
| _ => false

end Operand

------------------------------------------------------------
-- Instructions
------------------------------------------------------------

/- An operation, its operands, and the line it stands on. -/
structure Instruction where
  opcode : Opcode
  operands : List Operand
  line : Nat
deriving DecidableEq

/- The text of an instruction. -/
def Instruction.text (i : Instruction) : String :=
  ", ".intercalate (i.opcode.mnemonic :: i.operands.map Operand.text)

------------------------------------------------------------
-- Functions
------------------------------------------------------------

/- A parameter of a function. -/
structure Parameter where
  name : String
  shape : Shape
deriving DecidableEq, Repr

/-
  A local variable: an array if it has a length. Its line is
  that of the list it is declared in.
-/
structure Declaration where
  name : String
  type : Scalar
  length : Option Nat
  line : Nat
deriving DecidableEq, Repr

/-
  A label, before the instruction at `position`, or at
  the end of the body when there is no such instruction.
-/
structure LabelDef where
  name : String
  position : Nat
  line : Nat
deriving DecidableEq, Repr

/- A function as it is written. -/
structure Function where
  name : String
  returns : ReturnType
  params : List Parameter
  ints : List Declaration
  floats : List Declaration
  code : List Instruction
  labels : List LabelDef
  line : Nat
deriving DecidableEq

/- The functions of a program, in order. -/
structure Program where
  functions : List Function
deriving DecidableEq

namespace Function

/- The local variables, those of the list of integers first. -/
def locals (f : Function) : List Declaration :=
  f.ints ++ f.floats

end Function

namespace Program

/- The first function of a name. -/
def function? (p : Program) (name : String) : Option Function :=
  p.functions.find? fun f => f.name = name

end Program

end ThreeAddress
