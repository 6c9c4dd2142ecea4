import ThreeAddress.Limits
import ThreeAddress.Labels
import ThreeAddress.Lowering

/-
  This file checks a whole program and turns it into the form
  that the machine runs. The first error is reported: the
  sizes of all functions are checked first, then the
  functions' names, and then one function after the other its
  variables, its labels and its instructions.

  Key definitions include:
    * `Program.scope`
    * `Program.routine`
    * `verify`
-/

namespace ThreeAddress

namespace Program

/- What the names inside a function stand for. -/
def scope (p : Program) (f : Function) : Scope :=
  { function := f.name
    returns := f.returns
    slots := f.slots
    labels := f.labelTable
    signatures := p.signatures }

/- The routine of a function of the program. -/
def routine (p : Program) (f : Function) : Except Rejection Routine := do
  let scope := p.scope f
  f.checkVariables
  f.checkLabels
  let code ← scope.steps f.code
  return {
    name := f.name
    returns := f.returns
    params := f.paramSlots
    slots := scope.slots.toArray
    code := code.toArray
    labels := scope.labels }

end Program

/- The executable of a program, or its first error. -/
def verify (p : Program) : Except Rejection Executable := do
  p.checkLimits
  let entry ← p.checkFunctions
  let routines ← p.functions.mapM p.routine
  return { routines := routines.toArray, entry }

end ThreeAddress
