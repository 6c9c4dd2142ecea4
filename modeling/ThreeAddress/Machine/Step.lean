import ThreeAddress.Machine.Access

/-
  This file defines one step of the machine.

  A step either goes through, or leaves the frames and the
  memory as they were and gives the fault. Only two steps
  change anything before they fail: one that reads input or
  writes output keeps what it read and wrote, and a return
  whose value cannot be stored has popped its frame.

  Key definitions include:
    * `arith`
    * `admission`
    * `Progress`
    * `Machine.pop`
    * `Machine.intrinsic`
    * `Machine.perform`
    * `Machine.step`
-/

namespace ThreeAddress

------------------------------------------------------------
-- Arithmetic
------------------------------------------------------------

/- Integer arithmetic wraps, and division truncates. -/
def arithInt : ArithOp → Int32 → Int32 → Except FaultCause Int32
| .add, a, b => .ok (a + b)
| .sub, a, b => .ok (a - b)
| .mult, a, b => .ok (a * b)
| .div, a, b =>
    if b = 0 then .error .divisionByZero else .ok (a / b)

/- Floating-point arithmetic; no division by a zero. -/
def arithSingle : ArithOp → Single → Single → Except FaultCause Single
| .add, a, b => .ok (a.add b)
| .sub, a, b => .ok (a.sub b)
| .mult, a, b => .ok (a.mul b)
| .div, a, b =>
    if b.numEq (Single.zero false) then
      .error .divisionByZero
    else
      .ok (a.div b)

/- Arithmetic on integers, or on what they widen to. -/
def arith (op : ArithOp) : Value → Value → Except FaultCause Value
| .int a, .int b => (arithInt op a b).map .int
| a, b => (arithSingle op a.toSingle b.toSingle).map .float

/- A bitwise operation, on integers only. -/
def bitwise (op : BitOp) : Value → Value → Except FaultCause Value
| .int a, .int b => .ok (.int (op.apply a b))
| _, _ => .error (.type (.bitwiseOnFloat op.mnemonic))

------------------------------------------------------------
-- Calls
------------------------------------------------------------

/- The line of a routine's position, or of its last step. -/
def Routine.lineAt (r : Routine) (pc : Nat) : Nat :=
  match r.code[pc]? with
  | some s => s.line
  | none => (r.code.back?.map Step.line).getD 0

/-
  The routine of a call, if a frame may be pushed for it over
  `depth` frames and `used` cells of memory. The arrays of
  the first frame are charged to its own routine.
-/
def admission
    (exe : Executable)
    (cfg : Config)
    (depth used : Nat)
    (caller : Option Site)
    (index : Nat) : Except Fault Routine :=
  let site := caller.getD Site.none
  match exe.routines[index]? with
  | none => .error ⟨site, .unknownRoutine index⟩
  | some r =>
      if cfg.maxDepth ≤ depth then
        .error ⟨site, .stackOverflow cfg.maxDepth⟩
      else if cfg.maxMemory < used + r.ownedCells then
        .error
          ⟨caller.getD ⟨r.name, 0⟩,
            .memoryExhausted r.ownedCells cfg.maxMemory⟩
      else
        .ok r

------------------------------------------------------------
-- Progress
------------------------------------------------------------

/- The machine behind a step, and how the run goes on. -/
inductive Progress (ω : Type) where
| running (m : Machine ω)
| finished (m : Machine ω)
| failed (m : Machine ω) (e : Fault)

namespace Machine

variable {ω : Type}

/- Write a value to a place of the running frame, and go on. -/
def assign
    (m : Machine ω)
    (site : Site)
    (result : Except FaultCause (Target × Value)) : Progress ω :=
  match result with
  | .error cause => .failed m ⟨site, cause⟩
  | .ok (t, v) => .running ((m.put t v).advance)

/-
  Pop the running frame with its arrays. The frame below it,
  if there is one, takes the value and goes on behind its
  call; a value that cannot be stored is the call's fault.
-/
def pop
    (m : Machine ω)
    (exe : Executable)
    (value : Option Value) : Progress ω :=
  match m with
  | ⟨f :: frames, memory, input, output, steps⟩ =>
      let m : Machine ω :=
        ⟨frames, memory.shrink f.mark, input, output, steps⟩
      match frames with
      | [] => .running m
      | g :: _ =>
          match f.returnTo, value with
          | some p, some v =>
              match exe.routines[g.routine]? with
              | none => .failed m ⟨Site.none, .dangling⟩
              | some r =>
                  m.assign ⟨r.name, r.lineAt g.pc⟩
                    (Context.target ⟨r, g, m.memory⟩ p v)
          | _, _ => .running m.advance
  | m => .finished m

/- Push a frame for a call, if it is admitted. -/
def enter
    (m : Machine ω)
    (exe : Executable)
    (cfg : Config)
    (caller : Option Site)
    (index : Nat)
    (args : List Cell)
    (returnTo : Option Place) : Progress ω :=
  match admission exe cfg m.depth m.memory.size caller index with
  | .error e => .failed m e
  | .ok r => .running (m.push index r args returnTo)

------------------------------------------------------------
-- Intrinsic Functions
------------------------------------------------------------

/- The failure of an argument of the wrong type. -/
def badArgument (i : Intrinsic) (found : Option Value) : FaultCause :=
  .type (.narrowingStore
    s!"argument 1 of '{i.name}'"
    (i.params.head?.getD .int)
    ((found.map Value.scalar).getD .float))

/- Read a value from the input. -/
def readInput
    {α : Type}
    (m : Machine ω)
    (read : Input → Except ConsoleError α × Input)
    (value : α → Value) :
    Except FaultCause (Option Value) × Machine ω :=
  let ⟨frames, memory, input, output, steps⟩ := m
  let (result, input) := read input
  let m : Machine ω := ⟨frames, memory, input, output, steps⟩
  match result with
  | .error e => (.error (.console e), m)
  | .ok a => (.ok (some (value a)), m)

variable [Sink ω]

/- Write bytes to the output. -/
def writeOutput
    (m : Machine ω)
    (chunk : ByteArray) :
    Except FaultCause (Option Value) × Machine ω :=
  let ⟨frames, memory, input, output, steps⟩ := m
  let (output, failure) := Sink.write output chunk
  let m : Machine ω := ⟨frames, memory, input, output, steps⟩
  match failure with
  | some reason => (.error (.console (.write reason)), m)
  | none => (.ok none, m)

/- Run an intrinsic function on the value of its argument. -/
def intrinsic
    (m : Machine ω)
    (i : Intrinsic)
    (arg : Option Value) :
    Except FaultCause (Option Value) × Machine ω :=
  match i, arg with
  | .geti, _ => m.readInput Input.readInt .int
  | .getf, _ => m.readInput Input.readFloat .float
  | .getc, _ => m.readInput Input.readChar .int
  | .puti, some (.int n) => m.writeOutput (outputInt n)
  | .putf, some v => m.writeOutput (outputFloat v.toSingle)
  | .putc, some (.int code) =>
      match charOfCode? code with
      | some c => m.writeOutput (outputChar c)
      | none => (.error (.invalidCharCode code), m)
  | i, found => (.error (badArgument i found), m)

/- The value that an intrinsic function takes, if any. -/
def firstValue : List Cell → Option Value
| .scalar v :: _ => some v
| _ => none

/- Run an intrinsic function, and store what it gives. -/
def callIntrinsic
    (m : Machine ω)
    (r : Routine)
    (f : Frame)
    (site : Site)
    (dest : Option Place)
    (i : Intrinsic)
    (args : List Cell) : Progress ω :=
  match m.intrinsic i (firstValue args) with
  | (.error cause, m) => .failed m ⟨site, cause⟩
  | (.ok value, m) =>
      match dest, value with
      | some p, some v =>
          m.assign site (Context.target ⟨r, f, m.memory⟩ p v)
      | _, _ => .running m.advance

end Machine

------------------------------------------------------------
-- Results of Storing Actions
------------------------------------------------------------

namespace Context

/- What a copy stores. -/
def copied
    (x : Context)
    (dest : Place)
    (src : Source) : Except FaultCause (Target × Value) := do
  let v ← x.read src
  x.target dest v

/- What an operation on two operands stores. -/
def computed
    (x : Context)
    (op : Value → Value → Except FaultCause Value)
    (dest : Place)
    (lhs rhs : Source) : Except FaultCause (Target × Value) := do
  let a ← x.read lhs
  let b ← x.read rhs
  let v ← op a b
  x.target dest v

/- What an indexed load stores. -/
def loaded
    (x : Context)
    (dest : Place)
    (array : Nat)
    (index : Source) : Except FaultCause (Target × Value) := do
  let i ← x.read index
  let address ← x.address array i
  let v ← x.fetch address
  x.target dest v

/- What an indexed store stores. -/
def stored
    (x : Context)
    (value : Source)
    (array : Nat)
    (index : Source) : Except FaultCause (Target × Value) := do
  let v ← x.read value
  let i ← x.read index
  let address ← x.address array i
  x.storeTarget array address v

/- The condition of a branch holds. -/
def condition
    (x : Context)
    (cond : Cond)
    (lhs rhs : Source) : Except FaultCause Bool := do
  let a ← x.read lhs
  let b ← x.read rhs
  return cond.holds a b

/- The cells that the arguments of a call bind. -/
def arguments
    (x : Context)
    (args : List Argument) : Except FaultCause (List Cell) :=
  args.mapM x.argument

end Context

------------------------------------------------------------
-- Steps
------------------------------------------------------------

namespace Machine

variable {ω : Type} [Sink ω]

/- Perform an action of the running frame. -/
def perform
    (m : Machine ω)
    (exe : Executable)
    (cfg : Config)
    (r : Routine)
    (f : Frame)
    (site : Site) : Action → Progress ω
| .assign dest src =>
    m.assign site (Context.copied ⟨r, f, m.memory⟩ dest src)
| .arith op dest lhs rhs =>
    m.assign site
      (Context.computed ⟨r, f, m.memory⟩ (ThreeAddress.arith op)
        dest lhs rhs)
| .bit op dest lhs rhs =>
    m.assign site
      (Context.computed ⟨r, f, m.memory⟩ (bitwise op) dest lhs rhs)
| .load dest array index =>
    m.assign site
      (Context.loaded ⟨r, f, m.memory⟩ dest array index)
| .store value array index =>
    m.assign site
      (Context.stored ⟨r, f, m.memory⟩ value array index)
| .goto target => .running (m.jump target)
| .branch cond target lhs rhs =>
    match Context.condition ⟨r, f, m.memory⟩ cond lhs rhs with
    | .error cause => .failed m ⟨site, cause⟩
    | .ok true => .running (m.jump target)
    | .ok false => .running m.advance
| .ret none => m.pop exe none
| .ret (some src) =>
    match Context.read ⟨r, f, m.memory⟩ src with
    | .error cause => .failed m ⟨site, cause⟩
    | .ok v => m.pop exe (some v)
| .call dest callee args =>
    match Context.arguments ⟨r, f, m.memory⟩ args with
    | .error cause => .failed m ⟨site, cause⟩
    | .ok cells =>
        match callee with
        | .routine index =>
            m.enter exe cfg (some site) index cells dest
        | .intrinsic i => m.callIntrinsic r f site dest i cells

/- The budget is used up. -/
def outOfBudget (m : Machine ω) (cfg : Config) : Option Nat :=
  cfg.budget.filter fun b => b ≤ m.steps

/- Count a step. -/
def tick (m : Machine ω) : Machine ω :=
  let ⟨frames, memory, input, output, steps⟩ := m
  ⟨frames, memory, input, output, steps + 1⟩

/-
  One step of the running frame. Running off the end of a
  routine returns without a value, and is not counted.
-/
def step
    (m : Machine ω)
    (exe : Executable)
    (cfg : Config) : Progress ω :=
  match m.frames with
  | [] => .finished m
  | f :: _ =>
      match exe.routines[f.routine]? with
      | none => .failed m ⟨Site.none, .dangling⟩
      | some r =>
          match r.code[f.pc]? with
          | none => m.pop exe none
          | some s =>
              match m.outOfBudget cfg with
              | some budget =>
                  .failed m ⟨⟨r.name, s.line⟩, .budgetExhausted budget⟩
              | none =>
                  m.tick.perform exe cfg r f ⟨r.name, s.line⟩ s.action

end Machine

end ThreeAddress
