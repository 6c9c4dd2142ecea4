import ThreeAddress.Rejection

/-
  This file resolves the labels of a function: the table of
  all labels comes first, and then every jump is checked
  against it.

  Key definitions include:
    * `Function.labelTable`
    * `Function.checkLabels`
-/

namespace ThreeAddress

/- No label has the name of a label before it. -/
def checkLabelNames
    (function : String)
    (seen : List LabelDef) :
    List LabelDef → Except Rejection Unit
| [] => .ok ()
| l :: rest =>
    match seen.find? fun m => m.name = l.name with
    | some first =>
        .error (.declaration (.onLine function l.line)
          (.duplicateLabel l.name first.line))
    | none => checkLabelNames function (l :: seen) rest

/- The label that an instruction jumps to, if it does. -/
def Instruction.target? (i : Instruction) : Option String :=
  if i.opcode.isTransfer then
    match i.operands with
    | .label name :: _ => some name
    | _ => none
  else
    none

/- Every jump goes to a label of the table. -/
def checkTargets
    (function : String)
    (table : List (String × Nat)) :
    List Instruction → Except Rejection Unit
| [] => .ok ()
| i :: rest =>
    match i.target? with
    | none => checkTargets function table rest
    | some name =>
        match table.lookup name with
        | some _ => checkTargets function table rest
        | none =>
            .error (.declaration (.onLine function i.line)
              (.unresolvedLabel name))

namespace Function

/- The positions of the labels. -/
def labelTable (f : Function) : List (String × Nat) :=
  f.labels.map fun l => (l.name, l.position)

/- Check the labels and the jumps of a function. -/
def checkLabels (f : Function) : Except Rejection Unit :=
  match checkLabelNames f.name [] f.labels with
  | .error r => .error r
  | .ok _ => checkTargets f.name f.labelTable f.code

end Function

end ThreeAddress
