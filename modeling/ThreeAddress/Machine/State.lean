import ThreeAddress.Executable
import ThreeAddress.Console.Input
import ThreeAddress.Console.Sink
import ThreeAddress.Machine.Fault

/-
  This file defines the state of a machine that runs an
  executable.

  Each call in progress has a frame with one cell for each
  slot of its routine. All arrays live in one memory: a frame
  owns the arrays that its routine declares, at the end of
  the memory when it is pushed, and the cell of an array
  parameter refers to an array of a frame below it.

  Key definitions include:
    * `Config`
    * `Cell`, `Frame`
    * `Machine`
    * `bindCells`, `allocate`
    * `Machine.depth`, `Machine.push`
-/

namespace ThreeAddress

------------------------------------------------------------
-- Limits of a Run
------------------------------------------------------------

/-
  The limits of a run: calls in progress, steps, and cells of
  array memory. Without a budget the steps are unlimited.
-/
structure Config where
  maxDepth : Nat := 4096
  budget : Option Nat := none
  maxMemory : Nat := 16777216
deriving DecidableEq, Repr

------------------------------------------------------------
-- Frames
------------------------------------------------------------

/- What a slot holds: a value, or a range of the memory. -/
inductive Cell where
| scalar (v : Value)
| array (base length : Nat)
deriving DecidableEq

/-
  A call in progress. The result of the call goes to
  `returnTo` in the frame below, `mark` is the size of the
  memory below the frame's own arrays, and `below` is the
  count of the frames below it.
-/
structure Frame where
  routine : Nat
  pc : Nat
  cells : Array Cell
  returnTo : Option Place
  mark : Nat
  below : Nat
deriving DecidableEq

/- The state of a run; the running frame comes first. -/
structure Machine (ω : Type) where
  frames : List Frame
  memory : Array Value
  input : Input
  output : ω
  steps : Nat

/- The cells of memory that a frame needs for a slot. -/
def Slot.ownedCells (s : Slot) : Nat :=
  if s.param then
    0
  else
    match s.shape with
    | .scalar _ => 0
    | .array _ n => n

/- The cells of memory that a frame needs. -/
def Routine.ownedCells (r : Routine) : Nat :=
  r.slots.foldl (fun n s => n + s.ownedCells) 0

/-
  The cells of a new frame. Parameters take the arguments in
  order, and zero when there are too few; other values start
  at zero, and arrays lie one behind the other from `base`.
-/
def bindCells : List Slot → List Cell → Nat → List Cell
| [], _, _ => []
| s :: slots, args, base =>
    if s.param then
      match args with
      | [] =>
          .scalar (.zero s.shape.element) :: bindCells slots [] base
      | arg :: args => arg :: bindCells slots args base
    else
      match s.shape with
      | .scalar t => .scalar (.zero t) :: bindCells slots args base
      | .array _ n => .array base n :: bindCells slots args (base + n)

/- The memory with a slot's array behind it. -/
def allocateSlot (memory : Array Value) (s : Slot) : Array Value :=
  memory ++ Array.replicate s.ownedCells (Value.zero s.shape.element)

/- The memory with a routine's arrays behind it. -/
def allocate (memory : Array Value) (slots : Array Slot) : Array Value :=
  slots.foldl allocateSlot memory

namespace Machine

variable {ω : Type}

/- A machine before its run. -/
def initial (input : Input) (output : ω) : Machine ω :=
  { frames := []
    memory := #[]
    input
    output
    steps := 0 }

/- The count of the calls in progress. -/
def depth (m : Machine ω) : Nat :=
  match m.frames with
  | [] => 0
  | f :: _ => f.below + 1

/- Push a frame. -/
def push
    (m : Machine ω)
    (index : Nat)
    (r : Routine)
    (args : List Cell)
    (returnTo : Option Place) : Machine ω :=
  let below := m.depth
  let ⟨frames, memory, input, output, steps⟩ := m
  let mark := memory.size
  let frame : Frame :=
    { routine := index
      pc := 0
      cells := (bindCells r.slots.toList args mark).toArray
      returnTo
      mark
      below }
  { frames := frame :: frames
    memory := allocate memory r.slots
    input
    output
    steps }

/- Continue the running frame at a position. -/
def jump (m : Machine ω) (pc : Nat) : Machine ω :=
  match m with
  | ⟨f :: frames, memory, input, output, steps⟩ =>
      ⟨{ f with pc } :: frames, memory, input, output, steps⟩
  | m => m

/- Continue the running frame at the next position. -/
def advance (m : Machine ω) : Machine ω :=
  match m with
  | ⟨f :: frames, memory, input, output, steps⟩ =>
      ⟨{ f with pc := f.pc + 1 } :: frames,
        memory, input, output, steps⟩
  | m => m

end Machine

end ThreeAddress
