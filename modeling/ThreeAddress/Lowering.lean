import ThreeAddress.Variables
import ThreeAddress.Signature

/-
  This file turns instructions into steps of the machine.

  Each operand is resolved in the scope of its function and
  given a type, and every store is checked: an `int` may go
  where a `float` is expected, and not the other way round.
  Operands are looked at from left to right, and a store is
  checked once all of them are resolved.

  Key definitions include:
    * `Scope`
    * `Scope.place`, `Scope.source`
    * `Scope.arguments`
    * `Opcode.arithOp`, `Opcode.bitOp`, `Opcode.cond`
    * `Scope.action`
    * `Scope.steps`
-/

namespace ThreeAddress

------------------------------------------------------------
-- Families of Operations
------------------------------------------------------------

namespace Opcode

/- The arithmetic that an operation does. -/
def arithOp : Opcode → ArithOp
| .add => .add
| .sub => .sub
| .mult => .mult
| _ => .div

/- The bitwise operation that an operation does. -/
def bitOp (op : Opcode) : BitOp :=
  if op = .and then .and else .or

/- The condition that an operation branches under. -/
def cond : Opcode → Cond
| .breq => .eq
| .brneq => .neq
| .brlt => .lt
| .brgt => .gt
| .brgeq => .geq
| _ => .leq

end Opcode

@[simp]
theorem ArithOp.arithOp_opcode (op : ArithOp) : op.opcode.arithOp = op := by
  cases op <;> simp [ArithOp.opcode, Opcode.arithOp]

@[simp]
theorem BitOp.bitOp_opcode (op : BitOp) : op.opcode.bitOp = op := by
  cases op <;> simp [BitOp.opcode, Opcode.bitOp]

@[simp]
theorem Cond.cond_opcode (c : Cond) : c.opcode.cond = c := by
  cases c <;> simp [Cond.opcode, Opcode.cond]

/- What the names inside a function stand for. -/
structure Scope where
  function : String
  returns : ReturnType
  slots : List Slot
  labels : List (String × Nat)
  signatures : List (String × Signature)

namespace Scope

------------------------------------------------------------
-- Variables
------------------------------------------------------------

/- Reject a name. -/
def declaration {α : Type} (c : DeclarationCause) : Except RejectionCause α :=
  .error (.declaration c)

/- Reject a type. -/
def mismatch {α : Type} (c : TypeMismatch) : Except RejectionCause α :=
  .error (.type c)

/- A variable that holds one value. -/
def scalar (s : Scope) (name : String) : Except RejectionCause (Nat × Scalar) :=
  match findSlot? s.slots name with
  | none => declaration (.undeclaredVariable name)
  | some (_, .array _ _) => declaration (.arrayUsedAsScalar name)
  | some (id, .scalar t) => .ok (id, t)

/- A variable that is an array, with its elements' type. -/
def array (s : Scope) (name : String) : Except RejectionCause (Nat × Scalar) :=
  match findSlot? s.slots name with
  | none => declaration (.undeclaredVariable name)
  | some (_, .scalar _) => declaration (.notAnArray name)
  | some (id, .array t _) => .ok (id, t)

/- The index of an element of an array. -/
def index
    (s : Scope)
    (array : String) : Index String → Except RejectionCause (Index Nat)
| .const n => .ok (.const n)
| .var name => do
    let (id, t) ← s.scalar name
    match t with
    | .int => return .var id
    | .float => mismatch (.nonIntIndex array .float)

/- An element of an array, with its type. -/
def element
    (s : Scope)
    (array : String)
    (i : Index String) : Except RejectionCause (Place × Scalar) := do
  let (id, t) ← s.array array
  let i ← s.index array i
  return (.element id i, t)

------------------------------------------------------------
-- Operands
------------------------------------------------------------

/- A destination, with its type. -/
def place (s : Scope) : Operand → Except RejectionCause (Place × Scalar)
| .var name => do
    let (id, t) ← s.scalar name
    return (.slot id, t)
| .element a i => s.element a i
| other => declaration (.notAssignable other.text)

/- A value, with its type. -/
def source (s : Scope) : Operand → Except RejectionCause (Source × Scalar)
| .int n => .ok (.int n, .int)
| .float x => .ok (.float x, .float)
| .var name => do
    let (id, t) ← s.scalar name
    return (.place (.slot id), t)
| .element a i => do
    let (p, t) ← s.element a i
    return (.place p, t)
| .label name => declaration (.undeclaredVariable name)
| .function name => declaration (.undeclaredVariable name)

/- The array of an indexed load or store. -/
def arrayOperand (s : Scope) : Operand → Except RejectionCause (Nat × Scalar)
| .var name => s.array name
| other => declaration (.notAnArray other.text)

/- The index of an indexed load or store. -/
def indexOperand
    (s : Scope)
    (array : Operand)
    (i : Operand) : Except RejectionCause Source := do
  let (src, t) ← s.source i
  match t with
  | .int => return src
  | .float => mismatch (.nonIntIndex array.text .float)

/- The position that a jump goes to. -/
def target (s : Scope) : Operand → Except RejectionCause Nat
| .label name =>
    match s.labels.lookup name with
    | some position => .ok position
    | none => declaration (.unresolvedLabel name)
| other => declaration (.unresolvedLabel other.text)

/- The name that a call calls. -/
def calleeName : Operand → Except RejectionCause String
| .function name => .ok name
| other => declaration (.unknownFunction other.text)

/- A value of a type may be stored in a location of a type. -/
def checkStore
    (target : String)
    (expected found : Scalar) : Except RejectionCause Unit :=
  if expected.accepts found then
    .ok ()
  else
    mismatch (.narrowingStore target expected found)

------------------------------------------------------------
-- Calls
------------------------------------------------------------

/- The name of an argument's position in messages. -/
def argumentName (callee : String) (position : Nat) : String :=
  s!"argument {position} of '{callee}'"

/-
  An argument for a parameter. An array goes by reference,
  and its shape must be that of the parameter.
-/
def argument
    (s : Scope)
    (callee : String)
    (position : Nat)
    (operand : Operand) : Shape → Except RejectionCause Argument
| .scalar expected => do
    let (src, found) ← s.source operand
    checkStore (argumentName callee position) expected found
    return .value src
| .array t n =>
    let refuse :=
      declaration
        (.arrayArgMismatch callee position (.array t n) operand.text)
    match operand with
    | .var name =>
        match findSlot? s.slots name with
        | none => declaration (.undeclaredVariable name)
        | some (id, shape) =>
            if shape = .array t n then .ok (.array id) else refuse
    | _ => refuse

/- The arguments of a call, counted from a position on. -/
def arguments
    (s : Scope)
    (callee : String) :
    Nat → List Operand → List Shape → Except RejectionCause (List Argument)
| position, x :: xs, shape :: shapes => do
    let arg ← s.argument callee position x shape
    let args ← s.arguments callee (position + 1) xs shapes
    return arg :: args
| _, _, _ => .ok []

/- The callee and the arguments of a call. -/
def call
    (s : Scope)
    (name : String)
    (operands : List Operand)
    (dest : Option Scalar) :
    Except RejectionCause (Callee × List Argument) :=
  match checkSite s.signatures name operands.length dest with
  | .error cause => declaration cause
  | .ok signature => do
      let args ← s.arguments name 1 operands signature.params
      return (signature.callee, args)

------------------------------------------------------------
-- Actions
------------------------------------------------------------

/- A return, with a value just when the function has one. -/
def ret (s : Scope) (value : Option Operand) : Except RejectionCause Action :=
  match s.returns, value with
  | .void, none => .ok (.ret none)
  | .void, some _ => declaration .unexpectedReturnValue
  | .value expected, none =>
      declaration (.missingReturnValue expected)
  | .value expected, some operand => do
      let (src, found) ← s.source operand
      checkStore "return value" expected found
      return .ret (some src)

/- The operand at a position. -/
def operand
    (xs : List Operand)
    (position : Nat) : Except RejectionCause Operand :=
  match xs[position]? with
  | some x => .ok x
  | none => declaration .missingOperand

/-
  The arithmetic of `op`. An operand is missed only once
  those before it are resolved.
-/
def arith
    (s : Scope)
    (op : Opcode)
    (xs : List Operand) : Except RejectionCause Action := do
  let d ← operand xs 0
  let (dest, expected) ← s.place d
  let x ← operand xs 1
  let (lhs, left) ← s.source x
  let y ← operand xs 2
  let (rhs, right) ← s.source y
  checkStore d.text expected (left.widen right)
  return .arith op.arithOp dest lhs rhs

/- The bitwise operation of `op`. -/
def bit
    (s : Scope)
    (op : Opcode)
    (xs : List Operand) : Except RejectionCause Action := do
  let d ← operand xs 0
  let (dest, expected) ← s.place d
  let x ← operand xs 1
  let (lhs, left) ← s.source x
  let y ← operand xs 2
  let (rhs, right) ← s.source y
  match left.widen right with
  | .float => mismatch (.bitwiseOnFloat op.bitOp.mnemonic)
  | .int =>
      checkStore d.text expected .int
      return .bit op.bitOp dest lhs rhs

/- The branch of `op`. -/
def branch
    (s : Scope)
    (op : Opcode)
    (xs : List Operand) : Except RejectionCause Action := do
  let l ← operand xs 0
  let target ← s.target l
  let x ← operand xs 1
  let (lhs, _) ← s.source x
  let y ← operand xs 2
  let (rhs, _) ← s.source y
  return .branch op.cond target lhs rhs

/- The action of an operation on its operands. -/
def action
    (s : Scope)
    (op : Opcode)
    (xs : List Operand) : Except RejectionCause Action :=
  match op with
  | .assign => do
      let d ← operand xs 0
      let (dest, expected) ← s.place d
      let x ← operand xs 1
      let (src, found) ← s.source x
      checkStore d.text expected found
      return .assign dest src
  | .add | .sub | .mult | .div => s.arith op xs
  | .and | .or => s.bit op xs
  | .goto => do
      let l ← operand xs 0
      let target ← s.target l
      return .goto target
  | .breq | .brneq | .brlt | .brgt | .brgeq | .brleq =>
      s.branch op xs
  | .ret => s.ret xs.head?
  | .call => do
      let f ← operand xs 0
      let name ← calleeName f
      let (callee, args) ← s.call name (xs.drop 1) none
      return .call none callee args
  | .callr => do
      let d ← operand xs 0
      let (dest, expected) ← s.place d
      let f ← operand xs 1
      let name ← calleeName f
      let (callee, args) ← s.call name (xs.drop 2) (some expected)
      return .call (some dest) callee args
  | .load => do
      let d ← operand xs 0
      let (dest, expected) ← s.place d
      let a ← operand xs 1
      let (array, found) ← s.arrayOperand a
      let x ← operand xs 2
      let index ← s.indexOperand a x
      checkStore d.text expected found
      return .load dest array index
  | .store => do
      let x ← operand xs 0
      let (value, found) ← s.source x
      let a ← operand xs 1
      let (array, expected) ← s.arrayOperand a
      let y ← operand xs 2
      let index ← s.indexOperand a y
      checkStore a.text expected found
      return .store value array index

theorem action_arith
    (s : Scope)
    (op : ArithOp)
    (xs : List Operand) :
    s.action op.opcode xs = s.arith op.opcode xs := by
  cases op <;> simp only [ArithOp.opcode, action]

theorem action_bit
    (s : Scope)
    (op : BitOp)
    (xs : List Operand) :
    s.action op.opcode xs = s.bit op.opcode xs := by
  cases op <;> simp only [BitOp.opcode, action]

theorem action_branch
    (s : Scope)
    (c : Cond)
    (xs : List Operand) :
    s.action c.opcode xs = s.branch c.opcode xs := by
  cases c <;> simp only [Cond.opcode, action]

/- The step of an instruction. -/
def step (s : Scope) (i : Instruction) : Except Rejection Step :=
  match s.action i.opcode i.operands with
  | .error cause => .error ⟨.onLine s.function i.line, cause⟩
  | .ok action => .ok ⟨action, i.line⟩

/- The steps of a function's instructions. -/
def steps (s : Scope) (code : List Instruction) : Except Rejection (List Step) :=
  code.mapM s.step

end Scope

end ThreeAddress
