import ThreeAddress.Program

/-
  This file defines programs in the form that the machine
  runs: every variable is the number of a slot, every label
  the number of an instruction, and every callee the number
  of a routine or an intrinsic function.

  Key definitions include:
    * `Place`, `Source`, `Argument`, `Callee`
    * `Action`, `Step`
    * `Slot`, `Routine`
    * `Executable`
-/

namespace ThreeAddress

------------------------------------------------------------
-- Resolved Operands
------------------------------------------------------------

/- A location that holds one value. -/
inductive Place where
| slot (id : Nat)
| element (array : Nat) (index : Index Nat)
deriving DecidableEq, Repr

/- An operand that yields one value. -/
inductive Source where
| place (p : Place)
| int (n : Int32)
| float (x : Single)
deriving DecidableEq

/- An argument of a call: a value, or an array by reference. -/
inductive Argument where
| value (src : Source)
| array (slot : Nat)
deriving DecidableEq

/- What a call runs. -/
inductive Callee where
| routine (index : Nat)
| intrinsic (i : Intrinsic)
deriving DecidableEq, Repr

------------------------------------------------------------
-- Steps
------------------------------------------------------------

/- What one step of a routine does. -/
inductive Action where
| assign (dest : Place) (src : Source)
| arith (op : ArithOp) (dest : Place) (lhs rhs : Source)
| bit (op : BitOp) (dest : Place) (lhs rhs : Source)
| goto (target : Nat)
| branch (cond : Cond) (target : Nat) (lhs rhs : Source)
| ret (value : Option Source)
| call (dest : Option Place) (callee : Callee) (args : List Argument)
| load (dest : Place) (array : Nat) (index : Source)
| store (value : Source) (array : Nat) (index : Source)
deriving DecidableEq

/- An action and the line it was written on. -/
structure Step where
  action : Action
  line : Nat
deriving DecidableEq

------------------------------------------------------------
-- Routines
------------------------------------------------------------

/- A variable of a routine; a parameter is bound by calls. -/
structure Slot where
  name : String
  shape : Shape
  param : Bool
deriving DecidableEq, Repr

/- A function in the form that the machine runs. -/
structure Routine where
  name : String
  returns : ReturnType
  params : List Nat
  slots : Array Slot
  code : Array Step
  labels : List (String × Nat)
deriving DecidableEq

/- A program in the form that the machine runs. -/
structure Executable where
  routines : Array Routine
  entry : Nat
deriving DecidableEq

namespace Executable

/- The first routine of a name. -/
def routine? (exe : Executable) (name : String) : Option Routine :=
  exe.routines.find? fun r => r.name = name

end Executable

end ThreeAddress
