import ThreeAddress.Executable
import ThreeAddress.Rejection

/-
  This file resolves the variables of a function.

  The parameters, then the list of integers, then the list of
  floats are the function's slots, numbered in that order, and
  share one name space.

  Key definitions include:
    * `Variable`
    * `Function.vars`
    * `Function.slots`, `Function.paramSlots`
    * `Function.checkVariables`
    * `findSlot?`
-/

namespace ThreeAddress

/- A slot and the line that declares it. -/
structure Variable where
  slot : Slot
  line : Nat
deriving DecidableEq, Repr

------------------------------------------------------------
-- Slots
------------------------------------------------------------

/- The slot of a parameter. -/
def Parameter.slot (p : Parameter) : Slot :=
  { name := p.name, shape := p.shape, param := true }

/- The slot of a local variable. -/
def Declaration.slot (d : Declaration) : Slot :=
  { name := d.name
    shape := .ofLength d.type d.length
    param := false }

namespace Function

/- The variables; parameters are declared on the header. -/
def vars (f : Function) : List Variable :=
  f.params.map (fun p => ⟨p.slot, f.line⟩) ++
    f.locals.map (fun d => ⟨d.slot, d.line⟩)

/- The slots. -/
def slots (f : Function) : List Slot :=
  f.vars.map Variable.slot

/- The numbers of the slots that are parameters. -/
def paramSlots (f : Function) : List Nat :=
  (f.slots.zipIdx.filter fun (s, _) => s.param).map Prod.snd

/- The slots are those of the parameters, then the locals. -/
theorem slots_eq
    (f : Function) :
    f.slots =
      f.params.map Parameter.slot ++
        f.locals.map Declaration.slot := by
  simp only [slots, vars, List.map_append, List.map_map]
  rfl

theorem param_of_mem_params
    {f : Function}
    {s : Slot}
    (h : s ∈ f.params.map Parameter.slot) :
    s.param = true := by
  rcases List.mem_map.mp h with ⟨p, _, rfl⟩
  rfl

theorem param_of_mem_locals
    {f : Function}
    {s : Slot}
    (h : s ∈ f.locals.map Declaration.slot) :
    s.param = false := by
  rcases List.mem_map.mp h with ⟨d, _, rfl⟩
  rfl

/- The parameters are the first slots, in order. -/
theorem paramSlots_eq_range
    (f : Function) :
    f.paramSlots = List.range f.params.length := by
  have hParams : ∀ x ∈ (f.params.map Parameter.slot).zipIdx,
      x.1.param = true := by
    intro x hx
    exact param_of_mem_params (List.fst_mem_of_mem_zipIdx hx)
  have hLocals : ∀ start,
      ∀ x ∈ (f.locals.map Declaration.slot).zipIdx start,
        ¬ x.1.param = true := by
    intro start x hx
    simp [param_of_mem_locals (List.fst_mem_of_mem_zipIdx hx)]
  rw [paramSlots, slots_eq, List.zipIdx_append, List.filter_append,
    List.filter_eq_self.mpr hParams,
    List.filter_eq_nil_iff.mpr (hLocals _), List.append_nil,
    List.zipIdx_map_snd, List.length_map, List.range_eq_range']

end Function

/- The number and the shape of a name's slot. -/
def findSlot? (slots : List Slot) (name : String) : Option (Nat × Shape) :=
  go 0 slots
where
  go (id : Nat) : List Slot → Option (Nat × Shape)
  | [] => none
  | s :: rest =>
      if s.name = name then some (id, s.shape) else go (id + 1) rest

------------------------------------------------------------
-- Checks
------------------------------------------------------------

/- The array has no elements. -/
def Shape.isEmptyArray : Shape → Bool
| .array _ 0 => true
| _ => false

/-
  Every array has an element, and no name is declared twice,
  given the names that are declared before.
-/
def checkVariablesFrom
    (function : String)
    (seen : List String) :
    List Variable → Except Rejection Unit
| [] => .ok ()
| v :: rest =>
    if v.slot.shape.isEmptyArray then
      .error (.declaration (.onLine function v.line)
        (.zeroLengthArray v.slot.name))
    else if v.slot.name ∈ seen then
      .error (.declaration (.onLine function v.line)
        (.duplicateName v.slot.name))
    else
      checkVariablesFrom function (v.slot.name :: seen) rest

/- Check the variables of a function. -/
def Function.checkVariables (f : Function) : Except Rejection Unit :=
  checkVariablesFrom f.name [] f.vars

end ThreeAddress
