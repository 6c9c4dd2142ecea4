import ThreeAddress.Variables

/-
  This file bounds the size of a program, so that what one
  function needs at run time is bounded before anything runs.

  Key definitions include:
    * `maxInstructions`
    * `maxArrayLength`
    * `Program.checkLimits`
-/

namespace ThreeAddress

/- The most instructions that a function may have. -/
def maxInstructions : Nat :=
  65536

/- The most elements that an array may have. -/
def maxArrayLength : Nat :=
  1048576

/- No array is too long. -/
def checkLengths (function : String) :
    List Variable → Except Rejection Unit
| [] => .ok ()
| v :: rest =>
    match v.slot.shape with
    | .scalar _ => checkLengths function rest
    | .array _ n =>
        if maxArrayLength < n then
          .error (.declaration (.onLine function v.line)
            (.arrayTooLarge v.slot.name n maxArrayLength))
        else
          checkLengths function rest

/- The function and its arrays are not too large. -/
def Function.checkLimits (f : Function) : Except Rejection Unit :=
  if maxInstructions < f.code.length then
    .error (.declaration (.inFunction f.name)
      (.tooManyInstructions f.code.length maxInstructions))
  else
    checkLengths f.name f.vars

/- No function of the program is too large. -/
def Program.checkLimits (p : Program) : Except Rejection Unit :=
  p.functions.forM Function.checkLimits

end ThreeAddress
