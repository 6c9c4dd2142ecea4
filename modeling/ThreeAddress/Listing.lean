import ThreeAddress.Program
import ThreeAddress.SyntaxError

/-
  This file writes programs in their canonical form: one line
  for each mark, header, list of declarations, label and
  instruction, without indentation or blank lines. A label
  stands on a line of its own before the instruction that it
  marks.

  Key definitions include:
    * `Function.bodyLines`
    * `Function.listing`
    * `Program.listing`
-/

namespace ThreeAddress

/- The text of a declared name. -/
def Declaration.text (d : Declaration) : String :=
  match d.length with
  | none => d.name
  | some n => d.name ++ "[" ++ String.ofList (Decimal.digits n) ++ "]"

/- The text of a parameter. -/
def Parameter.text (p : Parameter) : String :=
  p.shape.text ++ " " ++ p.name

/- The line of a label. -/
def LabelDef.text (l : LabelDef) : String :=
  l.name ++ ":"

namespace Function

/- The header line. -/
def headerLine (f : Function) : String :=
  f.returns.name ++ " " ++ f.name ++ "(" ++
    ", ".intercalate (f.params.map Parameter.text) ++ "):"

/- The line of a list of declarations, if it has any. -/
def listLine (type : Scalar) (ds : List Declaration) : List String :=
  if ds.isEmpty then
    []
  else
    [type.listKeyword ++ ": " ++
      ", ".intercalate (ds.map Declaration.text)]

/-
  The lines of the instructions from a position on, and of
  the labels that are still to be written. Before an
  instruction stand the labels at the front of those that
  are due.
-/
def bodyLines :
    Nat → List LabelDef → List Instruction → List String
| _, labels, [] => labels.map LabelDef.text
| position, labels, i :: code =>
    let due := fun l : LabelDef => decide (l.position ≤ position)
    (labels.takeWhile due).map LabelDef.text ++
      i.text :: bodyLines (position + 1) (labels.dropWhile due) code

/- The lines of a function's block. -/
def listing (f : Function) : List String :=
  ["#start_function", f.headerLine] ++
    listLine .int f.ints ++
    listLine .float f.floats ++
    bodyLines 0 f.labels f.code ++
    ["#end_function"]

end Function

namespace Program

/- The canonical text of a program. -/
def listing (p : Program) : String :=
  String.join
    ((p.functions.flatMap Function.listing).map (· ++ "\n"))

end Program

end ThreeAddress
