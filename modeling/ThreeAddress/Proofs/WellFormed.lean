import Mathlib.Data.List.Forall2
import ThreeAddress.Variables

/-
  This file says when a program is well formed, by its names
  alone: no slots, no positions, no order of checks.

  Inside a function a name is declared with a shape. From this
  follow the operands that may stand for a place or a value of
  a type, the operands that may be passed for a parameter, and
  the instructions that are in order. A `float` never goes
  where an `int` is expected.

  Key definitions include:
    * `Function.Declares`
    * `Function.HasPlace`, `Function.HasValue`
    * `Function.Passes`
    * `Program.Callable`
    * `Program.InOrder`
    * `Program.WellFormed`
-/

namespace ThreeAddress

------------------------------------------------------------
-- Names Inside a Function
------------------------------------------------------------

namespace Function

/- The function declares a name with a shape. -/
inductive Declares (f : Function) : String → Shape → Prop where
| param
    {p : Parameter}
    (h : p ∈ f.params) :
    Declares f p.name p.shape
| declaration
    {d : Declaration}
    (h : d ∈ f.ints ∨ d ∈ f.floats) :
    Declares f d.name (.ofLength d.type d.length)

/- The names that the function declares. -/
def declaredNames (f : Function) : List String :=
  f.params.map Parameter.name ++
    f.ints.map Declaration.name ++
    f.floats.map Declaration.name

/- The names of the function's labels. -/
def labelNames (f : Function) : List String :=
  f.labels.map LabelDef.name

------------------------------------------------------------
-- Operands
------------------------------------------------------------

/- An index is a number or an integer variable. -/
inductive HasIndex (f : Function) : Index String → Prop where
| const (n : Int32) : HasIndex f (.const n)
| var
    {x : String}
    (h : f.Declares x (.scalar .int)) :
    HasIndex f (.var x)

/- An operand is a variable or an element of a type. -/
inductive HasPlace (f : Function) : Operand → Scalar → Prop where
| var
    {x : String}
    {t : Scalar}
    (h : f.Declares x (.scalar t)) :
    HasPlace f (.var x) t
| element
    {a : String}
    {t : Scalar}
    {n : Nat}
    {i : Index String}
    (h : f.Declares a (.array t n))
    (hIndex : f.HasIndex i) :
    HasPlace f (.element a i) t

/- An operand is a number or a place of a type. -/
inductive HasValue (f : Function) : Operand → Scalar → Prop where
| int (n : Int32) : HasValue f (.int n) .int
| float (x : Single) : HasValue f (.float x) .float
| place
    {x : Operand}
    {t : Scalar}
    (h : f.HasPlace x t) :
    HasValue f x t

end Function

/- A float goes only where a float is expected. -/
def Scalar.Holds (expected found : Scalar) : Prop :=
  found = .float → expected = .float

namespace Function

/-
  An operand may be passed for a parameter. An array is
  passed for an array of the same elements and length.
-/
inductive Passes (f : Function) : Operand → Shape → Prop where
| value
    {x : Operand}
    {t u : Scalar}
    (h : f.HasValue x u)
    (hHolds : t.Holds u) :
    Passes f x (.scalar t)
| array
    {a : String}
    {t : Scalar}
    {n : Nat}
    (h : f.Declares a (.array t n)) :
    Passes f (.var a) (.array t n)

end Function

------------------------------------------------------------
-- Instructions
------------------------------------------------------------

namespace Program

/- A name can be called for parameters and a result. -/
inductive Callable (p : Program) :
    String → List Shape → ReturnType → Prop where
| function
    {f : Function}
    (h : f ∈ p.functions) :
    Callable p f.name (f.params.map Parameter.shape) f.returns
| intrinsic
    (i : Intrinsic) :
    Callable p i.name (i.params.map .scalar) i.returns

/- The instructions that may stand in a function. -/
inductive InOrder (p : Program) (f : Function) :
    Opcode → List Operand → Prop where
| assign
    {d x : Operand}
    {t u : Scalar}
    (place : f.HasPlace d t)
    (value : f.HasValue x u)
    (holds : t.Holds u) :
    InOrder p f .assign [d, x]
| arith
    {op : ArithOp}
    {d x y : Operand}
    {t u v : Scalar}
    (place : f.HasPlace d t)
    (left : f.HasValue x u)
    (right : f.HasValue y v)
    (holdsLeft : t.Holds u)
    (holdsRight : t.Holds v) :
    InOrder p f op.opcode [d, x, y]
| bit
    {op : BitOp}
    {d x y : Operand}
    {t : Scalar}
    (place : f.HasPlace d t)
    (left : f.HasValue x .int)
    (right : f.HasValue y .int) :
    InOrder p f op.opcode [d, x, y]
| goto
    {l : String}
    (label : l ∈ f.labelNames) :
    InOrder p f .goto [.label l]
| branch
    {cond : Cond}
    {l : String}
    {x y : Operand}
    {u v : Scalar}
    (label : l ∈ f.labelNames)
    (left : f.HasValue x u)
    (right : f.HasValue y v) :
    InOrder p f cond.opcode [.label l, x, y]
| retVoid
    (returns : f.returns = .void) :
    InOrder p f .ret []
| retValue
    {x : Operand}
    {t u : Scalar}
    (returns : f.returns = .value t)
    (value : f.HasValue x u)
    (holds : t.Holds u) :
    InOrder p f .ret [x]
| call
    {g : String}
    {xs : List Operand}
    {shapes : List Shape}
    {returns : ReturnType}
    (callee : p.Callable g shapes returns)
    (arguments : List.Forall₂ f.Passes xs shapes) :
    InOrder p f .call (.function g :: xs)
| callr
    {d : Operand}
    {g : String}
    {xs : List Operand}
    {shapes : List Shape}
    {t : Scalar}
    (place : f.HasPlace d t)
    (callee : p.Callable g shapes (.value t))
    (arguments : List.Forall₂ f.Passes xs shapes) :
    InOrder p f .callr (d :: .function g :: xs)
| load
    {d x : Operand}
    {a : String}
    {t u : Scalar}
    {n : Nat}
    (place : f.HasPlace d t)
    (array : f.Declares a (.array u n))
    (index : f.HasValue x .int)
    (holds : t.Holds u) :
    InOrder p f .load [d, .var a, x]
| store
    {x y : Operand}
    {a : String}
    {t u : Scalar}
    {n : Nat}
    (value : f.HasValue x u)
    (array : f.Declares a (.array t n))
    (index : f.HasValue y .int)
    (holds : t.Holds u) :
    InOrder p f .store [x, .var a, y]

------------------------------------------------------------
-- Programs
------------------------------------------------------------

/-
  A function is well formed inside a program. An array has
  between one and 2^20 elements.
-/
structure WellFormedFunction (p : Program) (f : Function) : Prop where
  size : f.code.length ≤ 65536
  lengths : ∀ x t n,
    f.Declares x (.array t n) → 1 ≤ n ∧ n ≤ 1048576
  names : f.declaredNames.Nodup
  labels : f.labelNames.Nodup
  code : ∀ i ∈ f.code, p.InOrder f i.opcode i.operands

/- A program is well formed. -/
structure WellFormed (p : Program) : Prop where
  names : (p.functions.map Function.name).Nodup
  own : ∀ f ∈ p.functions, ∀ i : Intrinsic, f.name ≠ i.name
  main : ∃ f ∈ p.functions, f.name = "main" ∧ f.params = []
  functions : ∀ f ∈ p.functions, p.WellFormedFunction f

end Program

end ThreeAddress
