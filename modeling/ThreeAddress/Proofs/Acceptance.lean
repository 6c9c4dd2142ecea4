import ThreeAddress.Proofs.Checks
import ThreeAddress.Proofs.Verified
import ThreeAddress.Proofs.WellFormed

/-
  This file shows that the verifier accepts exactly the
  well-formed programs.

  Each check of the verifier is first read as a condition on
  the program. The names of a function that has no name twice
  then resolve exactly as they are declared, and so the
  instructions that the verifier lowers are those that are in
  order.

  Main statements:
    * `Function.exists_findSlot?_iff`
    * `Program.exists_lookup_signatures_iff`
    * `Program.InOrder.of_lowers`, `Program.InOrder.exists_lowers`
    * `Program.exists_routine_iff`
    * `verify_accepts_iff_wellFormed`
-/

namespace ThreeAddress

------------------------------------------------------------
-- Declared Names
------------------------------------------------------------

namespace Function

theorem map_name_slots
    (f : Function) :
    f.slots.map Slot.name = f.declaredNames := by
  simp only [slots, vars, locals, declaredNames, List.map_append,
    List.map_map, List.append_assoc]
  rfl

/- The slots are the declared names with their shapes. -/
theorem exists_mem_slots_iff
    {f : Function}
    {x : String}
    {shape : Shape} :
    (∃ s ∈ f.slots, s.name = x ∧ s.shape = shape) ↔
      f.Declares x shape := by
  constructor
  · intro h
    rcases h with ⟨s, hs, hName, hShape⟩
    subst hName hShape
    simp only [slots, vars, locals, List.map_append, List.map_map,
      List.mem_append, List.mem_map] at hs
    rcases hs with ⟨p, hp, hs⟩ | ⟨d, hd, hs⟩ | ⟨d, hd, hs⟩
    · subst hs
      exact .param hp
    · subst hs
      exact .declaration (.inl hd)
    · subst hs
      exact .declaration (.inr hd)
  · intro h
    simp only [slots, vars, locals, List.map_append, List.map_map,
      List.mem_append, List.mem_map]
    cases h with
    | @param p hp => exact ⟨p.slot, .inl ⟨p, hp, rfl⟩, rfl, rfl⟩
    | @declaration d hd =>
        refine ⟨d.slot, .inr ?_, rfl, rfl⟩
        rcases hd with hd | hd
        · exact .inl ⟨d, hd, rfl⟩
        · exact .inr ⟨d, hd, rfl⟩

/- Where no name is declared twice, each is found. -/
theorem exists_findSlot?_iff
    {f : Function}
    (hNames : f.declaredNames.Nodup)
    {x : String}
    {shape : Shape} :
    (∃ id, findSlot? f.slots x = some (id, shape)) ↔
      f.Declares x shape := by
  rw [← exists_mem_slots_iff]
  constructor
  · intro h
    rcases h with ⟨id, hFind⟩
    rcases exists_slot_of_findSlot? hFind with ⟨s, hs, hRest⟩
    exact ⟨s, List.mem_of_getElem? hs, hRest⟩
  · intro h
    rcases h with ⟨s, hs, hName, hShape⟩
    rcases List.mem_iff_getElem?.mp hs with ⟨id, hGet⟩
    refine ⟨id, findSlot?_eq_some_iff.mpr
      ⟨s, hGet, hName, hShape, ?_⟩⟩
    intro t ht hSame
    rcases List.mem_take_iff_getElem.mp ht with ⟨k, hk, hEarlier⟩
    have hNames' : (f.slots.map Slot.name).Nodup := by
      rw [map_name_slots]
      exact hNames
    have hEqual : (f.slots.map Slot.name)[k]? =
        (f.slots.map Slot.name)[id]? := by
      rw [List.getElem?_map, List.getElem?_map, hGet,
        List.getElem?_eq_getElem (by omega), hEarlier,
        Option.map_some, Option.map_some, hName, hSame]
    have hBound : k < (f.slots.map Slot.name).length := by
      rw [List.length_map]
      omega
    have hPosition := (List.getElem?_inj hBound hNames').mp hEqual
    omega

end Function

------------------------------------------------------------
-- Operands
------------------------------------------------------------

/- The store check refuses a float for an integer only. -/
theorem Scalar.accepts_iff_holds
    {expected found : Scalar} :
    expected.accepts found = true ↔ expected.Holds found := by
  cases expected <;> cases found <;> simp [accepts, Holds]

/- The wider of two types fits when both of them do. -/
theorem Scalar.accepts_widen_iff
    {expected left right : Scalar} :
    expected.accepts (left.widen right) = true ↔
      expected.Holds left ∧ expected.Holds right := by
  cases expected <;> cases left <;> cases right <;>
    simp [accepts, widen, Holds]

namespace Function

section

variable {p : Program} {f : Function}
variable (hNames : f.declaredNames.Nodup)

include hNames

theorem HasIndex.of_resolves
    {i : Index String}
    {j : Index Nat}
    (h : (p.scope f).ResolvesIndex i j) :
    f.HasIndex i := by
  cases h with
  | const n => exact .const n
  | var hSlot =>
      exact .var ((exists_findSlot?_iff hNames).mp ⟨_, hSlot⟩)

theorem HasIndex.exists_resolves
    {i : Index String}
    (h : f.HasIndex i) :
    ∃ j, (p.scope f).ResolvesIndex i j := by
  cases h with
  | const n => exact ⟨_, .const n⟩
  | var hDeclared =>
      rcases (exists_findSlot?_iff hNames).mpr hDeclared with
        ⟨id, hSlot⟩
      exact ⟨_, .var hSlot⟩

theorem HasPlace.of_resolves
    {x : Operand}
    {place : Place}
    {t : Scalar}
    (h : (p.scope f).ResolvesPlace x place t) :
    f.HasPlace x t := by
  cases h with
  | var hSlot =>
      exact .var ((exists_findSlot?_iff hNames).mp ⟨_, hSlot⟩)
  | element hSlot hIndex =>
      apply HasPlace.element
      · exact (exists_findSlot?_iff hNames).mp ⟨_, hSlot⟩
      · exact .of_resolves hNames hIndex

theorem HasPlace.exists_resolves
    {x : Operand}
    {t : Scalar}
    (h : f.HasPlace x t) :
    ∃ place, (p.scope f).ResolvesPlace x place t := by
  cases h with
  | var hDeclared =>
      rcases (exists_findSlot?_iff hNames).mpr hDeclared with
        ⟨id, hSlot⟩
      exact ⟨_, .var hSlot⟩
  | element hDeclared hIndex =>
      rcases (exists_findSlot?_iff hNames).mpr hDeclared with
        ⟨id, hSlot⟩
      rcases hIndex.exists_resolves (p := p) hNames with ⟨j, hj⟩
      exact ⟨_, .element hSlot hj⟩

theorem HasValue.of_resolves
    {x : Operand}
    {src : Source}
    {t : Scalar}
    (h : (p.scope f).ResolvesSource x src t) :
    f.HasValue x t := by
  cases h with
  | int n => exact .int n
  | float r => exact .float r
  | place hPlace => exact .place (.of_resolves hNames hPlace)

theorem HasValue.exists_resolves
    {x : Operand}
    {t : Scalar}
    (h : f.HasValue x t) :
    ∃ src, (p.scope f).ResolvesSource x src t := by
  cases h with
  | int n => exact ⟨_, .int n⟩
  | float r => exact ⟨_, .float r⟩
  | place hPlace =>
      rcases hPlace.exists_resolves (p := p) hNames with
        ⟨place, hResolves⟩
      exact ⟨_, .place hResolves⟩

theorem Passes.of_resolves
    {x : Operand}
    {shape : Shape}
    {arg : Argument}
    (h : (p.scope f).ResolvesArgument x shape arg) :
    f.Passes x shape := by
  cases h with
  | value hSource hAccepts =>
      apply Passes.value
      · exact .of_resolves hNames hSource
      · exact Scalar.accepts_iff_holds.mp hAccepts
  | array hSlot =>
      exact .array ((exists_findSlot?_iff hNames).mp ⟨_, hSlot⟩)

theorem Passes.exists_resolves
    {x : Operand}
    {shape : Shape}
    (h : f.Passes x shape) :
    ∃ arg, (p.scope f).ResolvesArgument x shape arg := by
  cases h with
  | value hValue hHolds =>
      rcases hValue.exists_resolves (p := p) hNames with
        ⟨src, hSource⟩
      exact ⟨_, .value hSource (Scalar.accepts_iff_holds.mpr hHolds)⟩
  | array hDeclared =>
      rcases (exists_findSlot?_iff hNames).mpr hDeclared with
        ⟨id, hSlot⟩
      exact ⟨_, .array hSlot⟩

/- Arguments are passed one for each parameter. -/
theorem passes_of_resolves
    {xs : List Operand}
    {shapes : List Shape}
    {args : List Argument}
    (h : (p.scope f).ResolvesArguments xs shapes args) :
    List.Forall₂ f.Passes xs shapes := by
  induction h with
  | nil => exact .nil
  | cons hHead _ ih => exact .cons (.of_resolves hNames hHead) ih

theorem exists_resolves_of_passes
    {xs : List Operand}
    {shapes : List Shape}
    (h : List.Forall₂ f.Passes xs shapes) :
    ∃ args, (p.scope f).ResolvesArguments xs shapes args := by
  induction h with
  | nil => exact ⟨_, .nil⟩
  | cons hHead _ ih =>
      rcases hHead.exists_resolves (p := p) hNames with ⟨arg, hArg⟩
      rcases ih with ⟨args, hArgs⟩
      exact ⟨_, .cons hArg hArgs⟩

end

end Function

------------------------------------------------------------
-- Labels and Callable Names
------------------------------------------------------------

theorem Function.exists_lookup_labelTable_iff
    {f : Function}
    {l : String} :
    (∃ position, f.labelTable.lookup l = some position) ↔
      l ∈ f.labelNames := by
  rw [← Option.isSome_iff_exists, ← Option.ne_none_iff_isSome, Ne,
    List.lookup_eq_none_iff]
  simp [labelTable, labelNames, @eq_comm _ l]

/- Where no key stands twice, the value of a key is found. -/
theorem lookup_of_mem
    {α : Type}
    {table : List (String × α)}
    {key : String}
    {value : α}
    (hKeys : (table.map Prod.fst).Nodup)
    (h : (key, value) ∈ table) :
    table.lookup key = some value := by
  induction table with
  | nil => cases h
  | cons entry table ih =>
      rw [List.map_cons, List.nodup_cons] at hKeys
      rcases List.mem_cons.mp h with hHead | hTail
      · subst hHead
        rw [List.lookup_cons_self]
      · have hOther : key ≠ entry.1 := by
          intro hKey
          apply hKeys.1
          rw [← hKey]
          exact List.mem_map_of_mem hTail
        rw [List.lookup_cons, beq_false_of_ne hOther]
        exact ih hKeys.2 hTail

namespace Program

/- No name can be called in two ways. -/
theorem nodup_signatures
    {p : Program}
    (hNames : (p.functions.map Function.name).Nodup)
    (hOwn : ∀ f ∈ p.functions, ∀ i : Intrinsic, f.name ≠ i.name) :
    (p.signatures.map Prod.fst).Nodup := by
  have hFunctions :
      (p.functions.zipIdx.map fun x => x.1.name) =
        p.functions.map Function.name := by
    rw [← List.zipIdx_map_fst 0 p.functions, List.map_map,
      List.zipIdx_map_fst]
    rfl
  have hIntrinsics : (Intrinsic.all.map Intrinsic.name).Nodup := by
    decide
  simp only [signatures, List.map_append, List.map_map,
    Function.comp_def]
  rw [hFunctions, List.nodup_append]
  refine ⟨hNames, hIntrinsics, ?_⟩
  intro x hx y hy
  rcases List.mem_map.mp hx with ⟨f, hf, hName⟩
  rcases List.mem_map.mp hy with ⟨i, _, hIntrinsic⟩
  rw [← hName, ← hIntrinsic]
  exact hOwn f hf i

/- The names that are found are those that can be called. -/
theorem exists_lookup_signatures_iff
    {p : Program}
    (hNames : (p.functions.map Function.name).Nodup)
    (hOwn : ∀ f ∈ p.functions, ∀ i : Intrinsic, f.name ≠ i.name)
    {g : String}
    {shapes : List Shape}
    {returns : ReturnType} :
    (∃ signature,
      p.signatures.lookup g = some signature ∧
        signature.params = shapes ∧
        signature.returns = returns) ↔
      p.Callable g shapes returns := by
  constructor
  · intro h
    rcases h with ⟨signature, hLookup, hParams, hReturns⟩
    subst hParams hReturns
    rcases mem_signatures_iff.mp (mem_signatures_of_lookup hLookup)
      with ⟨f, index, hf, hName, hSignature⟩ | ⟨i, hName, hSignature⟩
    · subst hName hSignature
      exact .function (List.mem_of_getElem? hf)
    · subst hName hSignature
      exact .intrinsic i
  · intro h
    have hKeys := nodup_signatures hNames hOwn
    cases h with
    | @function f hf =>
        rcases List.mem_iff_getElem?.mp hf with ⟨index, hIndex⟩
        refine ⟨f.signature index, lookup_of_mem hKeys ?_, rfl, rfl⟩
        exact mem_signatures_iff.mpr
          (.inl ⟨f, index, hIndex, rfl, rfl⟩)
    | intrinsic i =>
        refine ⟨i.signature, lookup_of_mem hKeys ?_, rfl, rfl⟩
        exact mem_signatures_iff.mpr (.inr ⟨i, rfl, rfl⟩)

------------------------------------------------------------
-- Instructions
------------------------------------------------------------

section

variable {p : Program} {f : Function}
variable (hFunctions : (p.functions.map Function.name).Nodup)
variable (hOwn : ∀ f ∈ p.functions, ∀ i : Intrinsic, f.name ≠ i.name)
variable (hNames : f.declaredNames.Nodup)

include hFunctions hOwn hNames

/-
  What the verifier lowers is in order. Since the number of
  operands is allowed, there are no operands to pass over.
-/
theorem InOrder.of_lowers
    {op : Opcode}
    {xs : List Operand}
    {action : Action}
    (hArity : op.arity.admits xs.length = true)
    (h : (p.scope f).Lowers op xs action) :
    p.InOrder f op xs := by
  cases h with
  | @assign d x rest dest src t u place source accepts =>
      have hRest : rest = [] := by
        simpa [Opcode.arity, Arity.admits] using hArity
      subst hRest
      exact .assign (.of_resolves hNames place)
        (.of_resolves hNames source)
        (Scalar.accepts_iff_holds.mp accepts)
  | @arith op d x y rest dest lhs rhs t u v place left right accepts =>
      have hRest : rest = [] := by
        simpa [Arity.admits] using hArity
      subst hRest
      rcases Scalar.accepts_widen_iff.mp accepts with
        ⟨hLeft, hRight⟩
      exact .arith (.of_resolves hNames place)
        (.of_resolves hNames left) (.of_resolves hNames right)
        hLeft hRight
  | @bit op d x y rest dest lhs rhs t place left right =>
      have hRest : rest = [] := by
        simpa [Arity.admits] using hArity
      subst hRest
      exact .bit (.of_resolves hNames place)
        (.of_resolves hNames left) (.of_resolves hNames right)
  | @goto label rest position target =>
      have hRest : rest = [] := by
        simpa [Opcode.arity, Arity.admits] using hArity
      subst hRest
      exact .goto
        (Function.exists_lookup_labelTable_iff.mp ⟨_, target⟩)
  | @branch cond label x y rest position lhs rhs u v target left
      right =>
      have hRest : rest = [] := by
        simpa [Arity.admits] using hArity
      subst hRest
      exact .branch
        (Function.exists_lookup_labelTable_iff.mp ⟨_, target⟩)
        (.of_resolves hNames left) (.of_resolves hNames right)
  | retVoid returns => exact .retVoid returns
  | @retValue x rest src t u returns source accepts =>
      have hRest : rest = [] := by
        simpa [Opcode.arity, Arity.admits] using hArity
      subst hRest
      exact .retValue returns (.of_resolves hNames source)
        (Scalar.accepts_iff_holds.mp accepts)
  | call callee arguments =>
      exact .call
        ((exists_lookup_signatures_iff hFunctions hOwn).mp
          ⟨_, callee, rfl, rfl⟩)
        (Function.passes_of_resolves hNames arguments)
  | callr place callee returns arguments =>
      exact .callr (.of_resolves hNames place)
        ((exists_lookup_signatures_iff hFunctions hOwn).mp
          ⟨_, callee, rfl, returns⟩)
        (Function.passes_of_resolves hNames arguments)
  | @load d a x rest dest id src t u place array index accepts =>
      have hRest : rest = [] := by
        simpa [Opcode.arity, Arity.admits] using hArity
      subst hRest
      cases array with
      | var hSlot =>
          exact .load (.of_resolves hNames place)
            ((Function.exists_findSlot?_iff hNames).mp ⟨_, hSlot⟩)
            (.of_resolves hNames index)
            (Scalar.accepts_iff_holds.mp accepts)
  | @store x a y rest id val src t u value array index accepts =>
      have hRest : rest = [] := by
        simpa [Opcode.arity, Arity.admits] using hArity
      subst hRest
      cases array with
      | var hSlot =>
          exact .store (.of_resolves hNames value)
            ((Function.exists_findSlot?_iff hNames).mp ⟨_, hSlot⟩)
            (.of_resolves hNames index)
            (Scalar.accepts_iff_holds.mp accepts)

/- What is in order is lowered. -/
theorem InOrder.exists_lowers
    {op : Opcode}
    {xs : List Operand}
    (h : p.InOrder f op xs) :
    ∃ action, (p.scope f).Lowers op xs action := by
  cases h with
  | assign place value holds =>
      rcases place.exists_resolves (p := p) hNames with ⟨_, hDest⟩
      rcases value.exists_resolves (p := p) hNames with ⟨_, hSrc⟩
      exact ⟨_, .assign hDest hSrc
        (Scalar.accepts_iff_holds.mpr holds)⟩
  | arith place left right holdsLeft holdsRight =>
      rcases place.exists_resolves (p := p) hNames with ⟨_, hDest⟩
      rcases left.exists_resolves (p := p) hNames with ⟨_, hLeft⟩
      rcases right.exists_resolves (p := p) hNames with ⟨_, hRight⟩
      exact ⟨_, .arith hDest hLeft hRight
        (Scalar.accepts_widen_iff.mpr ⟨holdsLeft, holdsRight⟩)⟩
  | bit place left right =>
      rcases place.exists_resolves (p := p) hNames with ⟨_, hDest⟩
      rcases left.exists_resolves (p := p) hNames with ⟨_, hLeft⟩
      rcases right.exists_resolves (p := p) hNames with ⟨_, hRight⟩
      exact ⟨_, .bit hDest hLeft hRight⟩
  | goto label =>
      rcases Function.exists_lookup_labelTable_iff.mpr label with
        ⟨_, hTarget⟩
      exact ⟨_, .goto hTarget⟩
  | branch label left right =>
      rcases Function.exists_lookup_labelTable_iff.mpr label with
        ⟨_, hTarget⟩
      rcases left.exists_resolves (p := p) hNames with ⟨_, hLeft⟩
      rcases right.exists_resolves (p := p) hNames with ⟨_, hRight⟩
      exact ⟨_, .branch hTarget hLeft hRight⟩
  | retVoid returns => exact ⟨_, .retVoid returns⟩
  | retValue returns value holds =>
      rcases value.exists_resolves (p := p) hNames with ⟨_, hSrc⟩
      exact ⟨_, .retValue returns hSrc
        (Scalar.accepts_iff_holds.mpr holds)⟩
  | call callee arguments =>
      rcases (exists_lookup_signatures_iff hFunctions hOwn).mpr callee
        with ⟨_, hCallee, hParams, _⟩
      subst hParams
      rcases Function.exists_resolves_of_passes (p := p) hNames
        arguments with ⟨_, hArgs⟩
      exact ⟨_, .call hCallee hArgs⟩
  | callr place callee arguments =>
      rcases place.exists_resolves (p := p) hNames with ⟨_, hDest⟩
      rcases (exists_lookup_signatures_iff hFunctions hOwn).mpr callee
        with ⟨_, hCallee, hParams, hReturns⟩
      subst hParams
      rcases Function.exists_resolves_of_passes (p := p) hNames
        arguments with ⟨_, hArgs⟩
      exact ⟨_, .callr hDest hCallee hReturns hArgs⟩
  | load place array index holds =>
      rcases place.exists_resolves (p := p) hNames with ⟨_, hDest⟩
      rcases (Function.exists_findSlot?_iff hNames).mpr array with
        ⟨_, hSlot⟩
      rcases index.exists_resolves (p := p) hNames with ⟨_, hIndex⟩
      exact ⟨_, .load hDest (.var hSlot) hIndex
        (Scalar.accepts_iff_holds.mpr holds)⟩
  | store value array index holds =>
      rcases value.exists_resolves (p := p) hNames with ⟨_, hSrc⟩
      rcases (Function.exists_findSlot?_iff hNames).mpr array with
        ⟨_, hSlot⟩
      rcases index.exists_resolves (p := p) hNames with ⟨_, hIndex⟩
      exact ⟨_, .store hSrc (.var hSlot) hIndex
        (Scalar.accepts_iff_holds.mpr holds)⟩

end

end Program

------------------------------------------------------------
-- Functions
------------------------------------------------------------

/- A condition on all variables is one on all declared names. -/
theorem Function.forall_vars_iff
    {f : Function}
    {P : Nat → Prop} :
    (∀ v ∈ f.vars, ∀ t n, v.slot.shape = .array t n → P n) ↔
      ∀ x t n, f.Declares x (.array t n) → P n := by
  constructor
  · intro h x t n hDeclared
    rcases exists_mem_slots_iff.mpr hDeclared with
      ⟨s, hs, _, hShape⟩
    rcases List.mem_map.mp hs with ⟨v, hv, hSlot⟩
    subst hSlot
    exact h v hv t n hShape
  · intro h v hv t n hShape
    apply h v.slot.name t n
    exact exists_mem_slots_iff.mp
      ⟨v.slot, List.mem_map_of_mem hv, rfl, hShape⟩

namespace Program

/- An instruction in order jumps to a label of its function. -/
theorem InOrder.mem_labelNames
    {p : Program}
    {f : Function}
    {i : Instruction}
    {l : String}
    (h : p.InOrder f i.opcode i.operands)
    (hTarget : i.target? = some l) :
    l ∈ f.labelNames := by
  rcases i with ⟨op, xs, line⟩
  cases h with
  | goto label =>
      cases hTarget
      exact label
  | branch label _ _ =>
      simp only [Instruction.target?, Cond.isTransfer_opcode,
        if_true] at hTarget
      cases hTarget
      exact label
  | arith | bit => simp [Instruction.target?] at hTarget
  | assign | retVoid | retValue | call | callr | load | store =>
      cases hTarget

end Program

/- Instructions are lowered when each of them is. -/
theorem Scope.exists_steps_iff
    {s : Scope}
    {code : List Instruction} :
    (∃ sts, s.steps code = .ok sts) ↔
      ∀ i ∈ code, ∃ action,
        s.Lowers i.opcode i.operands action := by
  rw [steps, Outcome.exists_mapM_iff]
  constructor
  · intro h i hi
    rcases h i hi with ⟨st, hStep⟩
    exact ⟨st.action, (step_eq_ok_iff.mp hStep).1⟩
  · intro h i hi
    rcases h i hi with ⟨action, hLowers⟩
    exact ⟨⟨action, i.line⟩, step_eq_ok_iff.mpr ⟨hLowers, rfl⟩⟩

namespace Program

/- A function has a routine when its parts are in order. -/
theorem exists_routine_iff
    {p : Program}
    {f : Function}
    (hFunctions : (p.functions.map Function.name).Nodup)
    (hOwn : ∀ f ∈ p.functions, ∀ i : Intrinsic, f.name ≠ i.name)
    (hArity : ∀ i ∈ f.code,
      i.opcode.arity.admits i.operands.length = true) :
    (∃ r, p.routine f = .ok r) ↔
      (∀ x t n, f.Declares x (.array t n) → 1 ≤ n) ∧
        f.declaredNames.Nodup ∧
        f.labelNames.Nodup ∧
        ∀ i ∈ f.code, p.InOrder f i.opcode i.operands := by
  simp only [routine_eq_ok_iff, Function.checkVariables_eq_ok_iff,
    Function.checkLabels_eq_ok_iff, Function.map_name_slots,
    Function.forall_vars_iff]
  constructor
  · intro h
    rcases h with ⟨_, ⟨hLengths, hNames⟩, ⟨hLabels, _⟩, code,
      hCode, _⟩
    refine ⟨hLengths, hNames, hLabels, ?_⟩
    intro i hi
    rcases Scope.exists_steps_iff.mp ⟨code, hCode⟩ i hi with
      ⟨action, hLowers⟩
    exact .of_lowers hFunctions hOwn hNames (hArity i hi) hLowers
  · intro h
    rcases h with ⟨hLengths, hNames, hLabels, hInOrder⟩
    have hTargets : ∀ i ∈ f.code, ∀ l, i.target? = some l →
        ∃ position, f.labelTable.lookup l = some position := by
      intro i hi l hTarget
      apply Function.exists_lookup_labelTable_iff.mpr
      exact (hInOrder i hi).mem_labelNames hTarget
    have hLowers : ∀ i ∈ f.code, ∃ action,
        (p.scope f).Lowers i.opcode i.operands action := by
      intro i hi
      exact (hInOrder i hi).exists_lowers hFunctions hOwn hNames
    rcases Scope.exists_steps_iff.mpr hLowers with ⟨code, hCode⟩
    exact ⟨_, ⟨hLengths, hNames⟩, ⟨hLabels, hTargets⟩, code,
      hCode, rfl⟩

end Program

------------------------------------------------------------
-- Programs
------------------------------------------------------------

/- A program is accepted when every check of it is passed. -/
theorem exists_verify_iff
    {p : Program} :
    (∃ exe, verify p = .ok exe) ↔
      (∀ f ∈ p.functions, f.checkLimits = .ok ()) ∧
        checkNames [] p.functions = .ok () ∧
        (∃ index, p.entry = .ok index) ∧
        ∀ f ∈ p.functions, ∃ r, p.routine f = .ok r := by
  rw [← Outcome.exists_mapM_iff, ← Outcome.forM_eq_ok]
  simp only [verify_eq_ok_iff, checkFunctions_eq_ok_iff,
    ← Outcome.mapM_eq_ok]
  constructor
  · intro h
    rcases h with ⟨exe, hLimits, ⟨hNames, hEntry⟩, hRoutines⟩
    exact ⟨hLimits, hNames, ⟨_, hEntry⟩, ⟨_, hRoutines⟩⟩
  · intro h
    rcases h with ⟨hLimits, hNames, ⟨entry, hEntry⟩, routines,
      hRoutines⟩
    exact ⟨⟨routines.toArray, entry⟩, hLimits, ⟨hNames, hEntry⟩,
      hRoutines⟩

/-
  The verifier accepts exactly the well-formed programs, among
  those whose instructions have as many operands as their
  operations take.
-/
theorem verify_accepts_iff_wellFormed
    (p : Program)
    (hArity : ∀ f ∈ p.functions, ∀ i ∈ f.code,
      i.opcode.arity.admits i.operands.length = true) :
    (∃ exe, verify p = .ok exe) ↔ p.WellFormed := by
  rw [exists_verify_iff]
  simp only [Function.checkLimits_eq_ok_iff,
    Function.forall_vars_iff, checkNames_eq_ok_iff, List.map_nil,
    freshNames_nil_iff]
  constructor
  · intro h
    rcases h with ⟨hLimits, ⟨hOwn, hNames⟩, hEntry, hRoutines⟩
    refine ⟨hNames, hOwn, (Program.exists_entry_iff hNames).mp hEntry,
      ?_⟩
    intro f hf
    rcases (Program.exists_routine_iff hNames hOwn (hArity f hf)).mp
      (hRoutines f hf) with ⟨hLengths, hDeclared, hLabels, hCode⟩
    refine ⟨(hLimits f hf).1, ?_, hDeclared, hLabels, hCode⟩
    intro x t n hArray
    exact ⟨hLengths x t n hArray, (hLimits f hf).2 x t n hArray⟩
  · intro h
    refine ⟨?_, ⟨h.own, h.names⟩,
      (Program.exists_entry_iff h.names).mpr h.main, ?_⟩
    · intro f hf
      have hFunction := h.functions f hf
      exact ⟨hFunction.size,
        fun x t n hArray => (hFunction.lengths x t n hArray).2⟩
    · intro f hf
      have hFunction := h.functions f hf
      apply (Program.exists_routine_iff h.names h.own
        (hArity f hf)).mpr
      exact ⟨fun x t n hArray => (hFunction.lengths x t n hArray).1,
        hFunction.names, hFunction.labels, hFunction.code⟩

/-
  A program that sums up an array that it passes on. One of
  its floats stands in the list of integers: it is its own
  type that counts.
-/
def summing : Program :=
  { functions :=
      [{ name := "sum"
         returns := .value .float
         params := [⟨"a", .array .float 4⟩, ⟨"n", .scalar .int⟩]
         ints := [⟨"i", .int, none, 3⟩]
         floats := [⟨"s", .float, none, 4⟩, ⟨"x", .float, none, 4⟩]
         code :=
           [⟨.breq, [.label "done", .var "i", .var "n"], 6⟩,
            ⟨.load, [.var "x", .var "a", .var "i"], 7⟩,
            ⟨.add, [.var "s", .var "s", .var "x"], 8⟩,
            ⟨.add, [.var "i", .var "i", .int 1], 9⟩,
            ⟨.goto, [.label "next"], 10⟩,
            ⟨.ret, [.var "s"], 12⟩]
         labels := [⟨"next", 0, 5⟩, ⟨"done", 5, 11⟩]
         line := 2 },
       { name := "main"
         returns := .void
         params := []
         ints := [⟨"r", .float, none, 16⟩]
         floats := [⟨"v", .float, some 4, 17⟩]
         code :=
           [⟨.store, [.int 1, .var "v", .int 0], 18⟩,
            ⟨.assign, [.element "v" (.const 1), .int 2], 19⟩,
            ⟨.callr,
              [.var "r", .function "sum", .var "v", .int 2], 20⟩,
            ⟨.call, [.function "putf", .var "r"], 21⟩,
            ⟨.ret, [], 22⟩]
         labels := []
         line := 15 }] }

theorem summing_wellFormed :
    (∀ f ∈ summing.functions, ∀ i ∈ f.code,
      i.opcode.arity.admits i.operands.length = true) ∧
      (∃ exe, verify summing = .ok exe) ∧
      summing.WellFormed := by
  have hArity : ∀ f ∈ summing.functions, ∀ i ∈ f.code,
      i.opcode.arity.admits i.operands.length = true := by
    decide
  have hOk : (verify summing).isOk = true := by
    decide
  have hAccepted : ∃ exe, verify summing = .ok exe := by
    cases hVerify : verify summing with
    | error r =>
        rw [hVerify] at hOk
        cases hOk
    | ok exe => exact ⟨exe, rfl⟩
  exact ⟨hArity, hAccepted,
    (verify_accepts_iff_wellFormed summing hArity).mp hAccepted⟩

end ThreeAddress
