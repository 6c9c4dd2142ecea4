import ThreeAddress.Proofs.Acceptance
import ThreeAddress.Proofs.Typing
import ThreeAddress.Proofs.Transition

/-
  This file turns the actions of an executable back into
  operations on names, by nothing but the names of its slots
  and routines, and shows that nothing is lost on the way to
  an executable: what is written back for a step is the
  instruction that the step was made from.

  Only the label of a jump is not written back, since several
  labels may stand at one position. A jump goes to the
  position of the label that its instruction names.

  Key definitions include:
    * `Routine.writtenPlace?`, `Routine.writtenSource?`
    * `Executable.writtenOperands?`
    * `Executable.Restores`
    * `Executable.Keeps`

  Main statements:
    * `Executable.writtenCallee?_of_lookup`
    * `Executable.restores_of_lowers`
    * `lowering_loses_nothing`
-/

namespace ThreeAddress

------------------------------------------------------------
-- Operands Written Back
------------------------------------------------------------

namespace Routine

/- The name of a slot. -/
def slotName? (r : Routine) (id : Nat) : Option String :=
  r.slots[id]?.map Slot.name

/- The index as it is written. -/
def writtenIndex? (r : Routine) : Index Nat → Option (Index String)
| .const n => some (.const n)
| .var id => (r.slotName? id).map .var

/- The operand that is written for a place. -/
def writtenPlace? (r : Routine) : Place → Option Operand
| .slot id => (r.slotName? id).map .var
| .element array i => do
    let name ← r.slotName? array
    let index ← r.writtenIndex? i
    return .element name index

/- The operand that is written for a value. -/
def writtenSource? (r : Routine) : Source → Option Operand
| .int n => some (.int n)
| .float x => some (.float x)
| .place p => r.writtenPlace? p

/- The operand that is written for an argument. -/
def writtenArgument? (r : Routine) : Argument → Option Operand
| .value src => r.writtenSource? src
| .array id => (r.slotName? id).map .var

end Routine

/- The operation of an action. -/
def Action.opcode : Action → Opcode
| .assign _ _ => .assign
| .arith op _ _ _ => op.opcode
| .bit op _ _ _ => op.opcode
| .goto _ => .goto
| .branch cond _ _ _ => cond.opcode
| .ret _ => .ret
| .call none _ _ => .call
| .call (some _) _ _ => .callr
| .load _ _ _ => .load
| .store _ _ _ => .store

namespace Executable

/- The operand that is written for a callee. -/
def writtenCallee? (exe : Executable) : Callee → Option Operand
| .routine index =>
    exe.routines[index]?.map fun q => .function q.name
| .intrinsic i => some (.function i.name)

/-
  The operands that are written for an action of a routine,
  in their order. The label of a jump is left out.
-/
def writtenOperands?
    (exe : Executable)
    (r : Routine) : Action → Option (List Operand)
| .assign dest src => do
    let d ← r.writtenPlace? dest
    let x ← r.writtenSource? src
    return [d, x]
| .arith _ dest lhs rhs | .bit _ dest lhs rhs => do
    let d ← r.writtenPlace? dest
    let x ← r.writtenSource? lhs
    let y ← r.writtenSource? rhs
    return [d, x, y]
| .goto _ => some []
| .branch _ _ lhs rhs => do
    let x ← r.writtenSource? lhs
    let y ← r.writtenSource? rhs
    return [x, y]
| .ret none => some []
| .ret (some src) => do
    let x ← r.writtenSource? src
    return [x]
| .call none callee args => do
    let g ← exe.writtenCallee? callee
    let xs ← args.mapM r.writtenArgument?
    return g :: xs
| .call (some dest) callee args => do
    let d ← r.writtenPlace? dest
    let g ← exe.writtenCallee? callee
    let xs ← args.mapM r.writtenArgument?
    return d :: g :: xs
| .load dest array index => do
    let d ← r.writtenPlace? dest
    let a ← r.slotName? array
    let x ← r.writtenSource? index
    return [d, .var a, x]
| .store value array index => do
    let x ← r.writtenSource? value
    let a ← r.slotName? array
    let y ← r.writtenSource? index
    return [x, .var a, y]

/-
  The action of a routine, written back, is an operation on
  operands of a function. A jump goes to the position of the
  one label of the function that the first operand names.
-/
structure Restores
    (exe : Executable)
    (r : Routine)
    (f : Function)
    (a : Action)
    (op : Opcode)
    (xs : List Operand) : Prop where
  opcode : a.opcode = op
  operands :
    a.target? = none → exe.writtenOperands? r a = some xs
  jump :
    ∀ position, a.target? = some position →
      ∃ l ys,
        f.labels.filter (fun other => other.name = l.name) = [l] ∧
          l.position = position ∧
          exe.writtenOperands? r a = some ys ∧
          xs = .label l.name :: ys

end Executable

------------------------------------------------------------
-- Resolved Operands Are Written Back
------------------------------------------------------------

section Resolved

variable {s : Scope} {r : Routine}

theorem Routine.slotName?_of_findSlot?
    {name : String}
    {id : Nat}
    {shape : Shape}
    (hSlots : r.slots = s.slots.toArray)
    (h : findSlot? s.slots name = some (id, shape)) :
    r.slotName? id = some name := by
  rcases exists_slot_of_findSlot? h with ⟨slot, hGet, hName, _⟩
  simp [slotName?, hSlots, hGet, hName]

namespace Scope

theorem ResolvesIndex.writtenIndex?_eq
    {i : Index String}
    {j : Index Nat}
    (hSlots : r.slots = s.slots.toArray)
    (h : s.ResolvesIndex i j) :
    r.writtenIndex? j = some i := by
  cases h with
  | const n => rfl
  | var hSlot =>
      simp [Routine.writtenIndex?,
        Routine.slotName?_of_findSlot? hSlots hSlot]

theorem ResolvesPlace.writtenPlace?_eq
    {x : Operand}
    {p : Place}
    {t : Scalar}
    (hSlots : r.slots = s.slots.toArray)
    (h : s.ResolvesPlace x p t) :
    r.writtenPlace? p = some x := by
  cases h with
  | var hSlot =>
      simp [Routine.writtenPlace?,
        Routine.slotName?_of_findSlot? hSlots hSlot]
  | element hSlot hIndex =>
      simp [Routine.writtenPlace?, hIndex.writtenIndex?_eq hSlots,
        Routine.slotName?_of_findSlot? hSlots hSlot]

theorem ResolvesSource.writtenSource?_eq
    {x : Operand}
    {src : Source}
    {t : Scalar}
    (hSlots : r.slots = s.slots.toArray)
    (h : s.ResolvesSource x src t) :
    r.writtenSource? src = some x := by
  cases h with
  | int n => rfl
  | float y => rfl
  | place hPlace => exact hPlace.writtenPlace?_eq hSlots

theorem ResolvesArray.exists_slotName?
    {x : Operand}
    {id : Nat}
    {t : Scalar}
    (hSlots : r.slots = s.slots.toArray)
    (h : s.ResolvesArray x id t) :
    ∃ name, r.slotName? id = some name ∧ x = .var name := by
  cases h with
  | var hSlot =>
      exact ⟨_, Routine.slotName?_of_findSlot? hSlots hSlot, rfl⟩

theorem ResolvesArguments.mapM_writtenArgument?
    {xs : List Operand}
    {shapes : List Shape}
    {args : List Argument}
    (hSlots : r.slots = s.slots.toArray)
    (h : s.ResolvesArguments xs shapes args) :
    args.mapM r.writtenArgument? = some xs := by
  induction h with
  | nil => rfl
  | cons hHead _ ih =>
      rw [List.mapM_cons, ih]
      cases hHead with
      | value hSource _ =>
          simp [Routine.writtenArgument?,
            hSource.writtenSource?_eq hSlots]
      | array hSlot =>
          simp [Routine.writtenArgument?,
            Routine.slotName?_of_findSlot? hSlots hSlot]

end Scope

end Resolved

------------------------------------------------------------
-- Labels and Callees Are Written Back
------------------------------------------------------------

namespace Function

/- A name that is found in a label table is that of one label. -/
theorem exists_label_of_lookup
    {f : Function}
    {name : String}
    {position : Nat}
    (hLabels : f.labelNames.Nodup)
    (h : f.labelTable.lookup name = some position) :
    ∃ l,
      f.labels.filter (fun other => other.name = l.name) = [l] ∧
        l.name = name ∧
        l.position = position := by
  rcases List.lookup_eq_some_iff.mp h with ⟨_, _, hTable, _⟩
  rcases List.map_eq_append_iff.mp hTable with
    ⟨before, rest, hSplit, _, hRest⟩
  rcases List.map_eq_cons_iff.mp hRest with ⟨l, after, rfl, hl, _⟩
  cases hl
  rw [labelNames, hSplit, List.map_append, List.map_cons,
    List.nodup_middle, List.nodup_cons, List.mem_append,
    not_or] at hLabels
  rcases hLabels with ⟨⟨hBefore, hAfter⟩, _⟩
  refine ⟨l, ?_, rfl, rfl⟩
  -- The other labels have other names, so none of them is kept.
  have hNone :
      ∀ ls : List LabelDef, l.name ∉ ls.map LabelDef.name →
        ls.filter (fun other => other.name = l.name) = [] := by
    intro ls hOther
    rw [List.filter_eq_nil_iff]
    intro other hMem hName
    apply hOther
    rw [← of_decide_eq_true hName]
    exact List.mem_map_of_mem hMem
  rw [hSplit, List.filter_append, hNone before hBefore,
    List.nil_append, List.filter_cons, hNone after hAfter]
  simp

/- Where no label stands twice, the table has just the labels. -/
theorem lookup_labelTable_iff
    {f : Function}
    {name : String}
    {position : Nat}
    (hLabels : f.labelNames.Nodup) :
    f.labelTable.lookup name = some position ↔
      ∃ l ∈ f.labels, l.name = name ∧ l.position = position := by
  constructor
  · intro h
    rcases exists_label_of_lookup hLabels h with ⟨l, hOne, hl⟩
    have hMem : l ∈ f.labels.filter (fun other => other.name = l.name) := by
      rw [hOne]
      exact List.mem_singleton_self l
    exact ⟨l, (List.mem_filter.mp hMem).1, hl⟩
  · rintro ⟨l, hl, rfl, rfl⟩
    apply lookup_of_mem
    · rw [labelTable, List.map_map]
      exact hLabels
    · exact List.mem_map_of_mem (f := fun l => (l.name, l.position)) hl

end Function

namespace Executable

variable {p : Program} {exe : Executable}

/- The callee that a name stands for is written as the name. -/
theorem writtenCallee?_of_lookup
    (hVerify : verify p = .ok exe)
    {name : String}
    {signature : Signature}
    (hFound : p.signatures.lookup name = some signature) :
    exe.writtenCallee? signature.callee = some (.function name) := by
  rcases mem_signatures_iff.mp (mem_signatures_of_lookup hFound) with
    ⟨f, index, hFunction, rfl, rfl⟩ | ⟨i, rfl, rfl⟩
  · rcases exists_routine_of_function hVerify hFunction with
      ⟨r, hGet, hRoutine⟩
    rcases Program.routine_eq_ok_iff.mp hRoutine with
      ⟨_, _, code, _, rfl⟩
    simp [writtenCallee?, Function.signature, hGet, Function.withSteps]
  · rfl

------------------------------------------------------------
-- Instructions Are Written Back
------------------------------------------------------------

theorem Restores.of_no_target
    {r : Routine}
    {f : Function}
    {a : Action}
    {xs : List Operand}
    (hTarget : a.target? = none)
    (h : exe.writtenOperands? r a = some xs) :
    exe.Restores r f a a.opcode xs := by
  refine ⟨rfl, fun _ => h, ?_⟩
  intro position hPosition
  rw [hTarget] at hPosition
  cases hPosition

/- A jump to the position that a table has for a label. -/
theorem Restores.of_lookup
    {r : Routine}
    {f : Function}
    {a : Action}
    {label : String}
    {position : Nat}
    {xs : List Operand}
    (hLabels : f.labelNames.Nodup)
    (hTarget : a.target? = some position)
    (hFound : f.labelTable.lookup label = some position)
    (h : exe.writtenOperands? r a = some xs) :
    exe.Restores r f a a.opcode (.label label :: xs) := by
  rcases Function.exists_label_of_lookup hLabels hFound with
    ⟨l, hOne, rfl, rfl⟩
  refine ⟨rfl, ?_, ?_⟩
  · intro hNone
    rw [hTarget] at hNone
    cases hNone
  · intro position hPosition
    rw [hTarget] at hPosition
    exact ⟨l, xs, hOne, Option.some.inj hPosition, h, rfl⟩

/-
  What an instruction with as many operands as its operation
  takes is lowered to, written back, is the instruction.
-/
theorem restores_of_lowers
    (hVerify : verify p = .ok exe)
    {f : Function}
    {r : Routine}
    {op : Opcode}
    {xs : List Operand}
    {a : Action}
    (hSlots : r.slots = (p.scope f).slots.toArray)
    (hLabels : f.labelNames.Nodup)
    (hArity : op.arity.admits xs.length = true)
    (h : (p.scope f).Lowers op xs a) :
    exe.Restores r f a op xs := by
  cases h with
  | @assign d x rest dest src t u place source accepts =>
      have hRest : rest = [] := by
        simpa [Opcode.arity, Arity.admits] using hArity
      subst hRest
      apply Restores.of_no_target rfl
      simp [writtenOperands?, place.writtenPlace?_eq hSlots,
        source.writtenSource?_eq hSlots]
  | @arith op d x y rest dest lhs rhs t u v place left right accepts =>
      have hRest : rest = [] := by
        simpa [Arity.admits] using hArity
      subst hRest
      apply Restores.of_no_target rfl
      simp [writtenOperands?, place.writtenPlace?_eq hSlots,
        left.writtenSource?_eq hSlots, right.writtenSource?_eq hSlots]
  | @bit op d x y rest dest lhs rhs t place left right =>
      have hRest : rest = [] := by
        simpa [Arity.admits] using hArity
      subst hRest
      apply Restores.of_no_target rfl
      simp [writtenOperands?, place.writtenPlace?_eq hSlots,
        left.writtenSource?_eq hSlots, right.writtenSource?_eq hSlots]
  | @goto label rest position target =>
      have hRest : rest = [] := by
        simpa [Opcode.arity, Arity.admits] using hArity
      subst hRest
      exact Restores.of_lookup hLabels rfl target rfl
  | @branch cond label x y rest position lhs rhs u v target left
      right =>
      have hRest : rest = [] := by
        simpa [Arity.admits] using hArity
      subst hRest
      apply Restores.of_lookup hLabels rfl target
      simp [writtenOperands?, left.writtenSource?_eq hSlots,
        right.writtenSource?_eq hSlots]
  | retVoid returns => exact Restores.of_no_target rfl rfl
  | @retValue x rest src t u returns source accepts =>
      have hRest : rest = [] := by
        simpa [Opcode.arity, Arity.admits] using hArity
      subst hRest
      apply Restores.of_no_target rfl
      simp [writtenOperands?, source.writtenSource?_eq hSlots]
  | call callee arguments =>
      apply Restores.of_no_target rfl
      simp [writtenOperands?, writtenCallee?_of_lookup hVerify callee,
        arguments.mapM_writtenArgument? hSlots]
  | callr place callee returns arguments =>
      apply Restores.of_no_target rfl
      simp [writtenOperands?, writtenCallee?_of_lookup hVerify callee,
        place.writtenPlace?_eq hSlots,
        arguments.mapM_writtenArgument? hSlots]
  | @load d a x rest dest id src t u place array index accepts =>
      have hRest : rest = [] := by
        simpa [Opcode.arity, Arity.admits] using hArity
      subst hRest
      rcases array.exists_slotName? hSlots with ⟨name, hName, rfl⟩
      apply Restores.of_no_target rfl
      simp [writtenOperands?, place.writtenPlace?_eq hSlots, hName,
        index.writtenSource?_eq hSlots]
  | @store x a y rest id val src t u value array index accepts =>
      have hRest : rest = [] := by
        simpa [Opcode.arity, Arity.admits] using hArity
      subst hRest
      rcases array.exists_slotName? hSlots with ⟨name, hName, rfl⟩
      apply Restores.of_no_target rfl
      simp [writtenOperands?, value.writtenSource?_eq hSlots, hName,
        index.writtenSource?_eq hSlots]

end Executable

------------------------------------------------------------
-- Programs Are Written Back
------------------------------------------------------------

/-
  A routine of an executable keeps all that a function says:
  its parameters and then its local variables, its labels, and
  its instructions, each on its line.
-/
structure Executable.Keeps
    (exe : Executable)
    (f : Function)
    (r : Routine) : Prop where
  name : r.name = f.name
  returns : r.returns = f.returns
  slots :
    r.slots.toList =
      f.params.map (fun q => ⟨q.name, q.shape, true⟩) ++
        f.ints.map (fun d => ⟨d.name, .ofLength d.type d.length, false⟩) ++
        f.floats.map (fun d => ⟨d.name, .ofLength d.type d.length, false⟩)
  params : r.params = List.range f.params.length
  labels :
    ∀ name position, r.labels.lookup name = some position ↔
      ∃ l ∈ f.labels, l.name = name ∧ l.position = position
  code :
    List.Forall₂
      (fun (i : Instruction) (st : Step) =>
        st.line = i.line ∧
          exe.Restores r f st.action i.opcode i.operands)
      f.code r.code.toList

/- The routine that is made of a function keeps it. -/
theorem Executable.keeps_of_routine
    {p : Program}
    {exe : Executable}
    {f : Function}
    {r : Routine}
    (hVerify : verify p = .ok exe)
    (hArity :
      ∀ i ∈ f.code, i.opcode.arity.admits i.operands.length = true)
    (hRoutine : p.routine f = .ok r) :
    exe.Keeps f r := by
  rcases Program.routine_eq_ok_iff.mp hRoutine with
    ⟨_, hLabels, code, hCode, rfl⟩
  replace hLabels := (Function.checkLabels_eq_ok_iff.mp hLabels).1
  constructor
  case name => rfl
  case returns => rfl
  case slots =>
    simp only [Function.withSteps, Function.slots_eq, Function.locals,
      List.map_append, List.append_assoc]
    rfl
  case params => exact f.paramSlots_eq_range
  case labels =>
    intro name position
    exact Function.lookup_labelTable_iff hLabels
  case code =>
    have hLowers := Scope.steps_eq_ok_iff.mp hCode
    rw [List.forall₂_iff_zip] at hLowers ⊢
    refine ⟨hLowers.1, ?_⟩
    intro i st hPair
    rcases hLowers.2 hPair with ⟨hLower, hLine⟩
    exact ⟨hLine, restores_of_lowers hVerify rfl hLabels
      (hArity i (List.of_mem_zip hPair).1) hLower⟩

/-
  Nothing is lost on the way to an executable: the routines
  are the functions in their order, each with all it says,
  and the entry is the only function named `main`.
-/
theorem lowering_loses_nothing
    (p : Program)
    (exe : Executable)
    (hArity :
      ∀ f ∈ p.functions, ∀ i ∈ f.code,
        i.opcode.arity.admits i.operands.length = true)
    (hVerify : verify p = .ok exe) :
    List.Forall₂ exe.Keeps p.functions exe.routines.toList ∧
      (∃ main,
        p.functions[exe.entry]? = some main ∧ main.name = "main") ∧
      ∀ (index : Nat) (f : Function),
        p.functions[index]? = some f →
          f.name = "main" →
          index = exe.entry := by
  rcases verify_eq_ok_iff.mp hVerify with ⟨_, hFunctions, hRoutines⟩
  rcases checkFunctions_eq_ok_iff.mp hFunctions with ⟨hNames, hEntry⟩
  rcases Program.getElem?_of_entry hEntry with ⟨main, hMain, hName, _⟩
  refine ⟨?_, ⟨main, hMain, hName⟩, ?_⟩
  · rw [List.forall₂_iff_zip] at hRoutines ⊢
    refine ⟨hRoutines.1, ?_⟩
    intro f r hPair
    exact Executable.keeps_of_routine hVerify
      (hArity f (List.of_mem_zip hPair).1) (hRoutines.2 hPair)
  · intro index f hf hSame
    have hNodup := freshNames_nil_iff.mp (checkNames_eq_ok_iff.mp hNames).2
    have hBound : index < (p.functions.map Function.name).length := by
      rw [List.length_map]
      exact (List.getElem?_eq_some_iff.mp hf).1
    apply (List.getElem?_inj hBound hNodup).mp
    rw [List.getElem?_map, List.getElem?_map, hf, hMain,
      Option.map_some, Option.map_some, hSame, hName]
    rfl

/-
  A program in which every kind of operand stands, with a
  float in its list of integers.
-/
def gathering : Program :=
  { functions :=
      [{ name := "main"
         returns := .void
         params := []
         ints := [⟨"a", .int, some 3, 3⟩, ⟨"x", .float, none, 3⟩]
         floats := [⟨"i", .int, none, 4⟩]
         code :=
           [⟨.callr,
              [.element "a" (.var "i"), .function "last", .var "a",
                .element "a" (.const 1)], 5⟩,
            ⟨.brleq, [.label "end", .var "i", .int 3], 6⟩,
            ⟨.div, [.var "x", .var "i", .int 2], 7⟩,
            ⟨.call, [.function "putf", .var "x"], 8⟩,
            ⟨.goto, [.label "stop"], 9⟩]
         labels := [⟨"end", 5, 10⟩, ⟨"stop", 5, 11⟩]
         line := 2 },
       { name := "last"
         returns := .value .int
         params := [⟨"v", .array .int 3⟩, ⟨"n", .scalar .int⟩]
         ints := [⟨"y", .int, none, 15⟩]
         floats := []
         code :=
           [⟨.store, [.int 7, .var "v", .var "n"], 16⟩,
            ⟨.load, [.var "y", .var "v", .int 0], 17⟩,
            ⟨.or, [.var "y", .var "y", .var "n"], 18⟩,
            ⟨.ret, [.var "y"], 19⟩]
         labels := []
         line := 14 }] }

theorem gathering_loses_nothing :
    ∃ exe,
      verify gathering = .ok exe ∧
        List.Forall₂ exe.Keeps gathering.functions exe.routines.toList ∧
        exe.entry = 0 := by
  have hArity :
      ∀ f ∈ gathering.functions, ∀ i ∈ f.code,
        i.opcode.arity.admits i.operands.length = true := by
    decide
  cases hVerify : verify gathering with
  | error r =>
      have hOk : (verify gathering).isOk = true := by
        decide
      rw [hVerify] at hOk
      cases hOk
  | ok exe =>
      rcases lowering_loses_nothing gathering exe hArity hVerify with
        ⟨hKeeps, _, hOnly⟩
      exact ⟨exe, rfl, hKeeps, (hOnly 0 _ rfl rfl).symm⟩

end ThreeAddress
