import ThreeAddress.Console.Error
import ThreeAddress.Value

/-
  This file defines why a run is aborted.

  Key definitions include:
    * `FaultCause`
    * `Site`
    * `Fault`, `Fault.message`
    * `RunError`
-/

namespace ThreeAddress

------------------------------------------------------------
-- Causes
------------------------------------------------------------

/-
  What goes wrong in a step. The last cause is that of an
  executable that refers to a slot, a routine or a cell that
  does not exist.
-/
inductive FaultCause where
| divisionByZero
| indexOutOfBounds (array : String) (index : Int32) (length : Nat)
| stackOverflow (limit : Nat)
| memoryExhausted (requested limit : Nat)
| budgetExhausted (budget : Nat)
| invalidCharCode (code : Int32)
| unknownRoutine (index : Nat)
| invalidSlot (slot : Nat)
| console (error : ConsoleError)
| type (mismatch : TypeMismatch)
| dangling
deriving DecidableEq, Repr

/- The function and the line that a step belongs to. -/
structure Site where
  function : String
  line : Nat
deriving DecidableEq, Repr

/- The site of what happens before any function runs. -/
def Site.none : Site :=
  { function := "", line := 0 }

------------------------------------------------------------
-- Faults
------------------------------------------------------------

/- A cause and the site of the step that it stopped. -/
structure Fault where
  site : Site
  cause : FaultCause
deriving DecidableEq, Repr

namespace Fault

/- The wording of a fault. -/
def message (e : Fault) : String :=
  let place := s!"in '{e.site.function}' at line {e.site.line}"
  match e.cause with
  | .divisionByZero => s!"division by zero {place}"
  | .indexOutOfBounds array index length =>
      let index := String.ofList (Decimal.ofInt index.toInt)
      s!"index {index} out of bounds for '{array}' " ++
        s!"(length {length}) {place}"
  | .stackOverflow limit =>
      s!"stack overflow: call depth exceeded {limit} {place}"
  | .memoryExhausted requested limit =>
      s!"out of array memory: {requested} more cells exceed " ++
        s!"the limit of {limit} {place}"
  | .budgetExhausted budget =>
      s!"instruction budget of {budget} exhausted {place}"
  | .invalidCharCode code =>
      let code := String.ofList (Decimal.ofInt code.toInt)
      s!"invalid character code {code} {place}"
  | .unknownRoutine index =>
      s!"call to unknown routine #{index} {place}"
  | .invalidSlot slot =>
      s!"slot {slot} has the wrong shape {place}"
  | .console error => s!"I/O error {place}: {error.message}"
  | .type mismatch => s!"type error {place}: {mismatch.message}"
  | .dangling => s!"dangling reference {place}"

/- The fault is a failure of the input or the output. -/
def isConsole (e : Fault) : Bool :=
  match e.cause with
  | .console _ => true
  | _ => false

end Fault

------------------------------------------------------------
-- Errors of Runs
------------------------------------------------------------

/- A run is aborted by a fault, or refused as a second one. -/
inductive RunError where
| fault (e : Fault)
| alreadyRun
deriving DecidableEq, Repr

namespace RunError

/- The wording of an error. -/
def message : RunError → String
| .fault e => e.message
| .alreadyRun => "program has already been run"

/- The line of the step that failed. -/
def line? : RunError → Option Nat
| .fault e => some e.site.line
| .alreadyRun => none

/- The error is a failure of the input or the output. -/
def isConsole : RunError → Bool
| .fault e => e.isConsole
| .alreadyRun => false

end RunError

end ThreeAddress
