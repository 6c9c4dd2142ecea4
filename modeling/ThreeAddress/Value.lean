import ThreeAddress.Text.Decimal
import ThreeAddress.Single.Text

/-
  This file defines the types of the language and the values
  that they hold.

  A type orders its values by what may be stored where: an
  `int` widens to a `float`, and no `float` narrows to an
  `int`.

  Key definitions include:
    * `Scalar`, `Scalar.widen`, `Scalar.accepts`
    * `Shape`
    * `ReturnType`
    * `Value`, `Value.coerce?`
    * `TypeMismatch`
-/

namespace ThreeAddress

------------------------------------------------------------
-- Scalar Types
------------------------------------------------------------

/- The types of a single value, each 32 bits wide. -/
inductive Scalar where
| int
| float
deriving DecidableEq, Repr

namespace Scalar

/- The keyword of a type. -/
def name : Scalar → String
| .int => "int"
| .float => "float"

/- The type that a keyword names. -/
def ofName? (s : String) : Option Scalar :=
  if s = "int" then some .int
  else if s = "float" then some .float
  else none

/- The type of an operation on two types. -/
def widen : Scalar → Scalar → Scalar
| .int, .int => .int
| _, _ => .float

/- A location of the first type may hold one of the second. -/
def accepts : Scalar → Scalar → Bool
| .int, .float => false
| _, _ => true

/- A type's keyword names that type. -/
@[simp]
theorem ofName?_name (t : Scalar) : ofName? t.name = some t := by
  cases t <;> rfl

end Scalar

------------------------------------------------------------
-- Shapes of Variables
------------------------------------------------------------

/- A variable holds one value, or a fixed number of them. -/
inductive Shape where
| scalar (type : Scalar)
| array (element : Scalar) (length : Nat)
deriving DecidableEq, Repr

namespace Shape

/- The type of the values that a variable holds. -/
def element : Shape → Scalar
| .scalar t => t
| .array t _ => t

/- The variable is an array. -/
def isArray : Shape → Bool
| .scalar _ => false
| .array _ _ => true

/- The shape of a name declared with or without a length. -/
def ofLength (t : Scalar) : Option Nat → Shape
| none => .scalar t
| some n => .array t n

/- The text of a shape, such as `int` and `int[4]`. -/
def text : Shape → String
| .scalar t => t.name
| .array t n =>
    t.name ++ "[" ++ String.ofList (Decimal.digits n) ++ "]"

end Shape

------------------------------------------------------------
-- Return Types
------------------------------------------------------------

/- What a function hands back to its caller. -/
inductive ReturnType where
| void
| value (type : Scalar)
deriving DecidableEq, Repr

namespace ReturnType

/- The keyword of a return type. -/
def name : ReturnType → String
| .void => "void"
| .value t => t.name

/- The return type that a keyword names. -/
def ofName? (s : String) : Option ReturnType :=
  if s = "void" then some .void
  else (Scalar.ofName? s).map .value

/- The function hands back nothing. -/
def isVoid : ReturnType → Bool
| .void => true
| .value _ => false

/- A return type's keyword names that return type. -/
@[simp]
theorem ofName?_name (r : ReturnType) : ofName? r.name = some r := by
  rcases r with _ | _ | _ <;> rfl

end ReturnType

------------------------------------------------------------
-- Values
------------------------------------------------------------

/- A value of a running program. -/
inductive Value where
| int (n : Int32)
| float (x : Single)
deriving DecidableEq

namespace Value

/- The type of a value. -/
def scalar : Value → Scalar
| .int _ => .int
| .float _ => .float

/- The value that a fresh location of a type holds. -/
def zero : Scalar → Value
| .int => .int 0
| .float => .float (Single.zero false)

instance : Inhabited Value :=
  ⟨zero .int⟩

/- The value as a floating-point number. -/
def toSingle : Value → Single
| .int n => Single.ofInt n.toInt
| .float x => x

/- The value that a location of a type holds after a store. -/
def coerce? (t : Scalar) : Value → Option Value
| .int n =>
    match t with
    | .int => some (.int n)
    | .float => some (.float (Single.ofInt n.toInt))
| .float x =>
    match t with
    | .int => none
    | .float => some (.float x)

/- The text of a value. -/
def text : Value → String
| .int n => String.ofList (Decimal.ofInt n.toInt)
| .float x => x.text

/- A stored value has the type of its location. -/
theorem scalar_of_coerce?
    {t : Scalar}
    {v w : Value}
    (h : coerce? t v = some w) :
    w.scalar = t := by
  cases v <;> cases t <;> simp_all [coerce?] <;> subst h <;> rfl

/- A store goes through just when the location accepts. -/
theorem isSome_coerce?
    (t : Scalar)
    (v : Value) :
    (coerce? t v).isSome = t.accepts v.scalar := by
  cases v <;> cases t <;> rfl

end Value

------------------------------------------------------------
-- Mismatches
------------------------------------------------------------

/- An operation applied to values of types it does not take. -/
inductive TypeMismatch where
| bitwiseOnFloat (op : String)
| narrowingStore (target : String) (expected found : Scalar)
| nonIntIndex (array : String) (found : Scalar)
deriving DecidableEq, Repr

/- The wording of a mismatch. -/
def TypeMismatch.message : TypeMismatch → String
| .bitwiseOnFloat op =>
    s!"bitwise '{op}' applied to a float operand"
| .narrowingStore target expected found =>
    s!"cannot store {found.name} value into {expected.name} " ++
      s!"location '{target}'"
| .nonIntIndex array found =>
    s!"array index for '{array}' must be int, found {found.name}"

end ThreeAddress
