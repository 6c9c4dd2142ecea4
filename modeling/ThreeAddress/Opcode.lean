import ThreeAddress.Value

/-
  This file defines the operations of the language: their
  mnemonics, how many operands they take, and what stands at
  each operand position.

  Key definitions include:
    * `Opcode`, `Opcode.all`
    * `Opcode.ofMnemonic?`
    * `Opcode.arity`
    * `Opcode.operandKind`
    * `ArithOp`, `BitOp`, `Cond`
    * `Intrinsic`
-/

namespace ThreeAddress

------------------------------------------------------------
-- Operations
------------------------------------------------------------

/- The operation of an instruction. -/
inductive Opcode where
| assign
| add
| sub
| mult
| div
| and
| or
| goto
| breq
| brneq
| brlt
| brgt
| brgeq
| brleq
| ret
| call
| callr
| load
| store
deriving DecidableEq, Repr

/- How many operands an operation takes. -/
inductive Arity where
| exactly (count : Nat)
| atLeast (count : Nat)
| optional
deriving DecidableEq, Repr

/- What an operation expects at an operand position. -/
inductive OperandKind where
| destination
| value
| label
| function
| array
deriving DecidableEq, Repr

namespace Arity

/- The count of operands is allowed. -/
def admits : Arity → Nat → Bool
| .exactly n, count => count = n
| .atLeast n, count => n ≤ count
| .optional, count => count ≤ 1

/- The allowed counts in words. -/
def text : Arity → String
| .exactly n => String.ofList (Decimal.digits n)
| .atLeast n => "at least " ++ String.ofList (Decimal.digits n)
| .optional => "0 or 1"

end Arity

namespace Opcode

/- All operations, in the order of the language's table. -/
def all : List Opcode :=
  [ .assign
  , .add
  , .sub
  , .mult
  , .div
  , .and
  , .or
  , .goto
  , .breq
  , .brneq
  , .brlt
  , .brgt
  , .brgeq
  , .brleq
  , .ret
  , .call
  , .callr
  , .load
  , .store ]

/- The mnemonic of an operation. -/
def mnemonic : Opcode → String
| .assign => "assign"
| .add => "add"
| .sub => "sub"
| .mult => "mult"
| .div => "div"
| .and => "and"
| .or => "or"
| .goto => "goto"
| .breq => "breq"
| .brneq => "brneq"
| .brlt => "brlt"
| .brgt => "brgt"
| .brgeq => "brgeq"
| .brleq => "brleq"
| .ret => "return"
| .call => "call"
| .callr => "callr"
| .load => "array_load"
| .store => "array_store"

/- The operation that a mnemonic names. -/
def ofMnemonic? (s : String) : Option Opcode :=
  all.find? fun op => op.mnemonic = s

/- The operand counts that an operation takes. -/
def arity : Opcode → Arity
| .assign => .exactly 2
| .add | .sub | .mult | .div | .and | .or => .exactly 3
| .goto => .exactly 1
| .breq | .brneq | .brlt | .brgt | .brgeq | .brleq => .exactly 3
| .ret => .optional
| .call => .atLeast 1
| .callr => .atLeast 2
| .load | .store => .exactly 3

/- The operation is a conditional branch. -/
def isBranch : Opcode → Bool
| .breq | .brneq | .brlt | .brgt | .brgeq | .brleq => true
| _ => false

/- The operation may continue at a label. -/
def isTransfer (op : Opcode) : Bool :=
  op = .goto || op.isBranch

/-
  What stands at an operand position. The positions behind
  the callee of a call are its arguments.
-/
def operandKind : Opcode → Nat → OperandKind
| .assign, 0 => .destination
| .add, 0 | .sub, 0 | .mult, 0 | .div, 0 => .destination
| .and, 0 | .or, 0 => .destination
| .goto, 0 => .label
| .breq, 0 | .brneq, 0 | .brlt, 0 => .label
| .brgt, 0 | .brgeq, 0 | .brleq, 0 => .label
| .call, 0 => .function
| .callr, 0 => .destination
| .callr, 1 => .function
| .load, 0 => .destination
| .load, 1 | .store, 1 => .array
| _, _ => .value

/- An operation's mnemonic names that operation. -/
@[simp]
theorem ofMnemonic?_mnemonic (op : Opcode) :
    ofMnemonic? op.mnemonic = some op := by
  cases op <;> decide

end Opcode

------------------------------------------------------------
-- Families of Operations
------------------------------------------------------------

/- Arithmetic on two numbers. -/
inductive ArithOp where
| add
| sub
| mult
| div
deriving DecidableEq, Repr

/- Bitwise operations on two words. -/
inductive BitOp where
| and
| or
deriving DecidableEq, Repr

/- The condition of a branch. -/
inductive Cond where
| eq
| neq
| lt
| gt
| geq
| leq
deriving DecidableEq, Repr

namespace ArithOp

/- The operation of the instructions that do the arithmetic. -/
def opcode : ArithOp → Opcode
| .add => .add
| .sub => .sub
| .mult => .mult
| .div => .div

@[simp]
theorem arity_opcode (op : ArithOp) : op.opcode.arity = .exactly 3 := by
  cases op <;> rfl

@[simp]
theorem isTransfer_opcode (op : ArithOp) : op.opcode.isTransfer = false := by
  cases op <;> rfl

end ArithOp

namespace BitOp

/- The operation of the instructions that do it. -/
def opcode : BitOp → Opcode
| .and => .and
| .or => .or

@[simp]
theorem arity_opcode (op : BitOp) : op.opcode.arity = .exactly 3 := by
  cases op <;> rfl

@[simp]
theorem isTransfer_opcode (op : BitOp) : op.opcode.isTransfer = false := by
  cases op <;> rfl

/- The mnemonic of a bitwise operation. -/
def mnemonic : BitOp → String
| .and => "and"
| .or => "or"

/- The result of a bitwise operation. -/
def apply : BitOp → Int32 → Int32 → Int32
| .and, a, b => a &&& b
| .or, a, b => a ||| b

end BitOp

namespace Cond

/- The operation that branches under the condition. -/
def opcode : Cond → Opcode
| .eq => .breq
| .neq => .brneq
| .lt => .brlt
| .gt => .brgt
| .geq => .brgeq
| .leq => .brleq

@[simp]
theorem arity_opcode (c : Cond) : c.opcode.arity = .exactly 3 := by
  cases c <;> rfl

@[simp]
theorem isTransfer_opcode (c : Cond) : c.opcode.isTransfer = true := by
  cases c <;> rfl

/- The condition between two words. -/
def holdsInt : Cond → Int32 → Int32 → Bool
| .eq, a, b => a = b
| .neq, a, b => a ≠ b
| .lt, a, b => a < b
| .gt, a, b => b < a
| .geq, a, b => b ≤ a
| .leq, a, b => a ≤ b

/-
  The condition between two floating-point numbers. Of a
  non-number only inequality holds.
-/
def holdsSingle : Cond → Single → Single → Bool
| .eq, a, b => a.numEq b
| .neq, a, b => !a.numEq b
| .lt, a, b => a.numLt b
| .gt, a, b => b.numLt a
| .geq, a, b => b.numLe a
| .leq, a, b => a.numLe b

/- The condition between two values, widened if they differ. -/
def holds (c : Cond) : Value → Value → Bool
| .int a, .int b => c.holdsInt a b
| a, b => c.holdsSingle a.toSingle b.toSingle

end Cond

/-
  Every operation is arithmetic, bitwise, a branch, or one
  that stands for itself.
-/
@[elab_as_elim]
theorem Opcode.byFamily
    {motive : Opcode → Prop}
    (assign : motive .assign)
    (arith : ∀ op : ArithOp, motive op.opcode)
    (bit : ∀ op : BitOp, motive op.opcode)
    (goto : motive .goto)
    (branch : ∀ cond : Cond, motive cond.opcode)
    (ret : motive .ret)
    (call : motive .call)
    (callr : motive .callr)
    (load : motive .load)
    (store : motive .store)
    (op : Opcode) : motive op := by
  cases op with
  | assign => exact assign
  | add => exact arith .add
  | sub => exact arith .sub
  | mult => exact arith .mult
  | div => exact arith .div
  | and => exact bit .and
  | or => exact bit .or
  | goto => exact goto
  | breq => exact branch .eq
  | brneq => exact branch .neq
  | brlt => exact branch .lt
  | brgt => exact branch .gt
  | brgeq => exact branch .geq
  | brleq => exact branch .leq
  | ret => exact ret
  | call => exact call
  | callr => exact callr
  | load => exact load
  | store => exact store

-- Case splits then keep the operation of a family as it is.
attribute [irreducible] ArithOp.opcode BitOp.opcode Cond.opcode

------------------------------------------------------------
-- Intrinsic Functions
------------------------------------------------------------

/- The functions that every program can call for its I/O. -/
inductive Intrinsic where
| geti
| getf
| getc
| puti
| putf
| putc
deriving DecidableEq, Repr

namespace Intrinsic

/- All intrinsic functions, in the order of their table. -/
def all : List Intrinsic :=
  [.geti, .getf, .getc, .puti, .putf, .putc]

/- The name of an intrinsic function. -/
def name : Intrinsic → String
| .geti => "geti"
| .getf => "getf"
| .getc => "getc"
| .puti => "puti"
| .putf => "putf"
| .putc => "putc"

/- The intrinsic function of a name. -/
def ofName? (s : String) : Option Intrinsic :=
  all.find? fun i => i.name = s

/- The types of the parameters. -/
def params : Intrinsic → List Scalar
| .geti | .getf | .getc => []
| .puti | .putc => [.int]
| .putf => [.float]

/- What a call hands back. -/
def returns : Intrinsic → ReturnType
| .geti | .getc => .value .int
| .getf => .value .float
| .puti | .putf | .putc => .void

/- An intrinsic function's name names that function. -/
@[simp]
theorem ofName?_name (i : Intrinsic) : ofName? i.name = some i := by
  cases i <;> decide

end Intrinsic

end ThreeAddress
