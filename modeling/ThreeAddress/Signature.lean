import ThreeAddress.Executable
import ThreeAddress.Rejection

/-
  This file collects what a program can call, and checks call
  sites against it.

  A call names a function of the program or an intrinsic
  function. No function of the program has the name of
  another one or of an intrinsic function, and `main`, where
  every run starts, takes no parameters.

  Key definitions include:
    * `Signature`
    * `Program.signatures`
    * `Program.checkFunctions`
    * `Program.entry`
    * `checkSite`
-/

namespace ThreeAddress

/- What a call of a name runs, takes and hands back. -/
structure Signature where
  callee : Callee
  params : List Shape
  returns : ReturnType
deriving DecidableEq, Repr

------------------------------------------------------------
-- Callable Names
------------------------------------------------------------

/- The signature of the function with a number. -/
def Function.signature (f : Function) (index : Nat) : Signature :=
  { callee := .routine index
    params := f.params.map Parameter.shape
    returns := f.returns }

/- The signature of an intrinsic function. -/
def Intrinsic.signature (i : Intrinsic) : Signature :=
  { callee := .intrinsic i
    params := i.params.map .scalar
    returns := i.returns }

/- All callable names; the program's own come first. -/
def Program.signatures (p : Program) : List (String × Signature) :=
  p.functions.zipIdx.map (fun (f, i) => (f.name, f.signature i)) ++
    Intrinsic.all.map (fun i => (i.name, i.signature))

------------------------------------------------------------
-- Functions
------------------------------------------------------------

/- The name of the function where every run starts. -/
def entryName : String :=
  "main"

/-
  No function has the name of an intrinsic function or of a
  function before it.
-/
def checkNames (seen : List Function) :
    List Function → Except Rejection Unit
| [] => .ok ()
| f :: rest =>
    if (Intrinsic.ofName? f.name).isSome then
      .error (.declaration (.onLine f.name f.line)
        (.shadowsIntrinsic f.name))
    else
      match seen.find? fun g => g.name = f.name with
      | some first =>
          .error (.declaration (.onLine f.name f.line)
            (.duplicateFunction f.name first.line))
      | none => checkNames (f :: seen) rest

/- The number of the function where every run starts. -/
def Program.entry (p : Program) : Except Rejection Nat :=
  match p.functions.zipIdx.find? fun (f, _) => f.name = entryName with
  | none => .error (.declaration .program .missingMain)
  | some (main, index) =>
      if main.params.isEmpty then
        .ok index
      else
        .error (.declaration (.onLine entryName main.line)
          (.mainHasParams main.params.length))

/- Check the functions' names, and find the first to run. -/
def Program.checkFunctions (p : Program) : Except Rejection Nat :=
  match checkNames [] p.functions with
  | .error r => .error r
  | .ok _ => p.entry

------------------------------------------------------------
-- Call Sites
------------------------------------------------------------

/-
  The signature that a call site uses: of a known name, with
  the right number of arguments, and, when the result goes to
  a destination, with a result of the destination's type.
-/
def checkSite
    (signatures : List (String × Signature))
    (name : String)
    (args : Nat)
    (dest : Option Scalar) : Except DeclarationCause Signature :=
  match signatures.lookup name with
  | none => .error (.unknownFunction name)
  | some s =>
      if s.params.length ≠ args then
        .error (.arityMismatch name s.params.length args)
      else
        match dest, s.returns with
        | none, _ => .ok s
        | some _, .void => .error (.voidResult name)
        | some expected, .value found =>
            if found = expected then
              .ok s
            else
              .error (.returnTypeMismatch name expected found)

end ThreeAddress
