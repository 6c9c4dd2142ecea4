import ThreeAddress.Program

/-
  This file defines why a program is rejected before it runs.

  Key definitions include:
    * `Location`, `Location.text`
    * `DeclarationCause`, `DeclarationCause.message`
    * `RejectionCause`
    * `Rejection`, `Rejection.message`
-/

namespace ThreeAddress

------------------------------------------------------------
-- Locations
------------------------------------------------------------

/- A place in a program, as closely as it is known. -/
structure Location where
  function : Option String
  line : Option Nat
deriving DecidableEq, Repr

namespace Location

/- The program as a whole. -/
def program : Location :=
  { function := none, line := none }

/- A function as a whole. -/
def inFunction (name : String) : Location :=
  { function := some name, line := none }

/- A line of a function. -/
def onLine (name : String) (line : Nat) : Location :=
  { function := some name, line := some line }

/- The location in words. -/
def text (l : Location) : String :=
  match l.function, l.line with
  | some name, some line => s!"function '{name}', line {line}"
  | some name, none => s!"function '{name}'"
  | none, some line => s!"line {line}"
  | none, none => "program"

end Location

------------------------------------------------------------
-- Causes
------------------------------------------------------------

/-
  What is wrong with the names of a program: its functions,
  variables, labels, call sites and returns, and its size.
-/
inductive DeclarationCause where
| duplicateFunction (name : String) (firstLine : Nat)
| shadowsIntrinsic (name : String)
| missingMain
| mainHasParams (count : Nat)
| duplicateName (name : String)
| zeroLengthArray (name : String)
| undeclaredVariable (name : String)
| notAnArray (name : String)
| arrayUsedAsScalar (name : String)
| notAssignable (operand : String)
| duplicateLabel (label : String) (firstLine : Nat)
| unresolvedLabel (label : String)
| unknownFunction (name : String)
| arityMismatch (callee : String) (expected found : Nat)
| voidResult (callee : String)
| returnTypeMismatch (callee : String) (expected found : Scalar)
| arrayArgMismatch
    (callee : String)
    (position : Nat)
    (expected : Shape)
    (found : String)
| unexpectedReturnValue
| missingReturnValue (expected : Scalar)
| missingOperand
| tooManyInstructions (count limit : Nat)
| arrayTooLarge (name : String) (length limit : Nat)
deriving DecidableEq, Repr

/- The wording of a cause. -/
def DeclarationCause.message : DeclarationCause → String
| .duplicateFunction name firstLine =>
    s!"function '{name}' is defined more than once " ++
      s!"(first at line {firstLine})"
| .shadowsIntrinsic name =>
    s!"function '{name}' shadows the built-in of the same name"
| .missingMain => "program has no 'main' function"
| .mainHasParams count =>
    s!"'main' must not take parameters, found {count}"
| .duplicateName name => s!"'{name}' is declared more than once"
| .zeroLengthArray name =>
    s!"array '{name}' must have at least one element"
| .undeclaredVariable name => s!"undeclared variable '{name}'"
| .notAnArray name => s!"'{name}' is not an array"
| .arrayUsedAsScalar name => s!"array '{name}' used as a scalar"
| .notAssignable operand => s!"'{operand}' cannot be assigned to"
| .duplicateLabel label firstLine =>
    s!"label '{label}' is defined more than once " ++
      s!"(first at line {firstLine})"
| .unresolvedLabel label => s!"unresolved label '{label}'"
| .unknownFunction name => s!"call to unknown function '{name}'"
| .arityMismatch callee expected found =>
    s!"'{callee}' takes {expected} argument(s), {found} supplied"
| .voidResult callee =>
    s!"'{callee}' returns void; use call instead of callr"
| .returnTypeMismatch callee expected found =>
    s!"'{callee}' returns {found.name}, " ++
      s!"but the destination is {expected.name}"
| .arrayArgMismatch callee position expected found =>
    s!"argument {position} of '{callee}' must be an array " ++
      s!"of type {expected.text}, found '{found}'"
| .unexpectedReturnValue => "void function returns a value"
| .missingReturnValue expected =>
    s!"function returning {expected.name} has a return " ++
      "without a value"
| .missingOperand => "instruction has too few operands"
| .tooManyInstructions count limit =>
    s!"function has {count} instructions (max {limit})"
| .arrayTooLarge name length limit =>
    s!"array '{name}' has {length} elements (max {limit})"

/- A wrong name, or a wrong type. -/
inductive RejectionCause where
| declaration (cause : DeclarationCause)
| type (cause : TypeMismatch)
deriving DecidableEq, Repr

namespace RejectionCause

/- The wording of a cause. -/
def message : RejectionCause → String
| .declaration cause => cause.message
| .type cause => cause.message

/- The kind of a cause in words. -/
def kind : RejectionCause → String
| .declaration _ => "declaration error"
| .type _ => "type error"

end RejectionCause

------------------------------------------------------------
-- Rejections
------------------------------------------------------------

/- The first error of a program, and where it is. -/
structure Rejection where
  location : Location
  cause : RejectionCause
deriving DecidableEq, Repr

namespace Rejection

/- The wording of a rejection. -/
def message (r : Rejection) : String :=
  s!"{r.cause.kind} in {r.location.text}: {r.cause.message}"

/- A rejection for a wrong name. -/
def declaration (l : Location) (cause : DeclarationCause) : Rejection :=
  { location := l, cause := .declaration cause }

end Rejection

end ThreeAddress
