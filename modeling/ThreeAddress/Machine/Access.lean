import ThreeAddress.Machine.State

/-
  This file reads and writes the values that the steps of the
  running frame refer to.

  Reading and finding the target of a write fail without any
  effect; once a target is found the write itself cannot
  fail.

  Key definitions include:
    * `Context`
    * `Context.address`
    * `Context.read`
    * `Target`, `Context.target`
    * `Machine.put`
-/

namespace ThreeAddress

/- What a step sees: its routine, its frame and the memory. -/
structure Context where
  routine : Routine
  frame : Frame
  memory : Array Value

namespace Context

------------------------------------------------------------
-- Reading
------------------------------------------------------------

/- The value of a slot. -/
def slotValue (x : Context) (slot : Nat) : Except FaultCause Value :=
  match x.frame.cells[slot]? with
  | some (.scalar v) => .ok v
  | _ => .error (.invalidSlot slot)

/- The base and the length of a slot's array. -/
def slotArray (x : Context) (slot : Nat) : Except FaultCause (Nat × Nat) :=
  match x.frame.cells[slot]? with
  | some (.array base length) => .ok (base, length)
  | _ => .error (.invalidSlot slot)

/- A failure that names a slot. -/
def blame
    (x : Context)
    (slot : Nat)
    (cause : Slot → FaultCause) : FaultCause :=
  match x.routine.slots[slot]? with
  | some s => cause s
  | none => .dangling

/- The address of an element, within the array's bounds. -/
def address
    (x : Context)
    (array : Nat)
    (index : Value) : Except FaultCause Nat :=
  match index with
  | .float _ =>
      .error (x.blame array fun s => .type (.nonIntIndex s.name .float))
  | .int n =>
      match x.slotArray array with
      | .error cause => .error cause
      | .ok (base, length) =>
          if 0 ≤ n.toInt ∧ n.toInt < length then
            .ok (base + n.toInt.toNat)
          else
            .error (x.blame array fun s =>
              .indexOutOfBounds s.name n length)

/- The value at an address. -/
def fetch (x : Context) (address : Nat) : Except FaultCause Value :=
  match x.memory[address]? with
  | some v => .ok v
  | none => .error .dangling

/- The value of an index. -/
def indexValue (x : Context) : Index Nat → Except FaultCause Value
| .const n => .ok (.int n)
| .var slot => x.slotValue slot

/- The address of an element with an index. -/
def elementAddress
    (x : Context)
    (array : Nat)
    (i : Index Nat) : Except FaultCause Nat :=
  match x.indexValue i with
  | .error cause => .error cause
  | .ok v => x.address array v

/- The value in a place. -/
def readPlace (x : Context) : Place → Except FaultCause Value
| .slot slot => x.slotValue slot
| .element array i =>
    match x.elementAddress array i with
    | .error cause => .error cause
    | .ok address => x.fetch address

/- The value of an operand. -/
def read (x : Context) : Source → Except FaultCause Value
| .int n => .ok (.int n)
| .float r => .ok (.float r)
| .place p => x.readPlace p

/- The cell that an argument binds a parameter to. -/
def argument (x : Context) : Argument → Except FaultCause Cell
| .value src => (x.read src).map .scalar
| .array slot =>
    (x.slotArray slot).map fun (base, length) => .array base length

------------------------------------------------------------
-- Writing
------------------------------------------------------------

end Context

/- Where a write goes: a cell of the frame, or the memory. -/
inductive Target where
| cell (slot : Nat)
| memory (address : Nat)
deriving DecidableEq, Repr

namespace Context

/- The value that a slot holds after a store of a value. -/
def coerce
    (x : Context)
    (slot : Nat)
    (v : Value) : Except FaultCause Value :=
  match x.routine.slots[slot]? with
  | none => .error .dangling
  | some s =>
      match v.coerce? s.shape.element with
      | some w => .ok w
      | none =>
          .error (.type
            (.narrowingStore s.name s.shape.element v.scalar))

/- The target and the value of a store to an array. -/
def storeTarget
    (x : Context)
    (array : Nat)
    (address : Nat)
    (v : Value) : Except FaultCause (Target × Value) :=
  match x.coerce array v with
  | .error cause => .error cause
  | .ok w =>
      if address < x.memory.size then
        .ok (.memory address, w)
      else
        .error .dangling

/- The target and the value of a write to a place. -/
def target
    (x : Context)
    (p : Place)
    (v : Value) : Except FaultCause (Target × Value) :=
  match p with
  | .slot slot =>
      match x.coerce slot v with
      | .error cause => .error cause
      | .ok w =>
          match x.frame.cells[slot]? with
          | some (.scalar _) => .ok (.cell slot, w)
          | _ => .error (.invalidSlot slot)
  | .element array i =>
      match x.elementAddress array i with
      | .error cause => .error cause
      | .ok address => x.storeTarget array address v

end Context

namespace Machine

variable {ω : Type}

/- Write a value to a target. -/
def put (m : Machine ω) (t : Target) (v : Value) : Machine ω :=
  match t with
  | .memory address =>
      { m with memory := m.memory.setIfInBounds address v }
  | .cell slot =>
      match m with
      | ⟨f :: frames, memory, input, output, steps⟩ =>
          let ⟨routine, pc, cells, returnTo, mark, below⟩ := f
          ⟨⟨routine, pc, cells.setIfInBounds slot (.scalar v),
              returnTo, mark, below⟩ :: frames,
            memory, input, output, steps⟩
      | m => m

end Machine

end ThreeAddress
