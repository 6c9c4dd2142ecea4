import ThreeAddress.Machine.Step

/-
  This file runs an executable from its first frame to the
  end.

  A run need not end, so running takes a number of rounds,
  and gives nothing when the run has not ended within them.
  More rounds never change the result of a run that ends.

  Key definitions include:
    * `Machine.drive`
    * `Status`, `Run`
    * `Run.start`
    * `patience`
    * `Report`, `evaluate`
-/

namespace ThreeAddress

------------------------------------------------------------
-- Rounds
------------------------------------------------------------

namespace Machine

variable {ω : Type} [Sink ω]

/- Take steps until no frame is left or one fails. -/
def drive
    (exe : Executable)
    (cfg : Config) :
    Nat → Machine ω → Option (Except Fault Unit × Machine ω)
| 0, _ => none
| rounds + 1, m =>
    match m.step exe cfg with
    | .running m => drive exe cfg rounds m
    | .finished m => some (.ok (), m)
    | .failed m e => some (.error e, m)

/- Run the routine that an executable starts with. -/
def runEntry
    (exe : Executable)
    (cfg : Config)
    (rounds : Nat)
    (m : Machine ω) : Option (Except Fault Unit × Machine ω) :=
  match m.enter exe cfg none exe.entry [] none with
  | .running m => drive exe cfg rounds m
  | .finished m => some (.ok (), m)
  | .failed m e => some (.error e, m)

/-
  Flush the output. A failure to flush is a fault only of a
  run that had none.
-/
def flush
    (exe : Executable)
    (result : Except Fault Unit)
    (m : Machine ω) : Except Fault Unit × Machine ω :=
  let ⟨frames, memory, input, output, steps⟩ := m
  let (output, failure) := Sink.flush output
  let m : Machine ω := ⟨frames, memory, input, output, steps⟩
  match result, failure with
  | .ok _, some reason =>
      let cause :=
        match exe.routines[exe.entry]? with
        | some r => ⟨⟨r.name, 0⟩, .console (.write reason)⟩
        | none => ⟨Site.none, .dangling⟩
      (.error cause, m)
  | result, _ => (result, m)

end Machine

------------------------------------------------------------
-- Runs
------------------------------------------------------------

/- How far a run has come. -/
inductive Status where
| ready
| running
| halted
| failed
deriving DecidableEq, Repr

/- A machine that runs once. -/
structure Run (ω : Type) where
  status : Status
  machine : Machine ω

namespace Run

variable {ω : Type}

/- A run before its start. -/
def initial (input : Input) (output : ω) : Run ω :=
  { status := .ready, machine := .initial input output }

variable [Sink ω]

/- The status behind a result. -/
def statusOf : Except Fault Unit → Status
| .ok _ => .halted
| .error _ => .failed

/-
  Start a run and take it to its end. A run that has been
  started before is refused and stays as it is.
-/
def start
    (run : Run ω)
    (exe : Executable)
    (cfg : Config)
    (rounds : Nat) : Option (Except RunError Unit × Run ω) :=
  match run with
  | ⟨.ready, m⟩ =>
      match Machine.runEntry exe cfg rounds m with
      | none => none
      | some (result, m) =>
          let (result, m) := Machine.flush exe result m
          some (result.mapError .fault, ⟨statusOf result, m⟩)
  | run => some (.error .alreadyRun, run)

end Run

/- More rounds than any run takes in practice. -/
def patience : Nat :=
  Nat.pow 2 62

------------------------------------------------------------
-- Reports
------------------------------------------------------------

/- What a run on a text wrote, its steps, and its result. -/
structure Report where
  output : String
  steps : Nat
  result : Except RunError Unit

/- Run an executable on a text. -/
def evaluate
    (exe : Executable)
    (input : String)
    (cfg : Config)
    (rounds : Nat) : Option Report :=
  let run := Run.initial (Input.ofString input) Buffer.empty
  (run.start exe cfg rounds).map fun (result, run) =>
    { output := run.machine.output.text
      steps := run.machine.steps
      result }

end ThreeAddress
