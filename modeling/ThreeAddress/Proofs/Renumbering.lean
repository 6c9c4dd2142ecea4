import Mathlib.Data.List.Perm.Basic
import ThreeAddress.Proofs.Acceptance
import ThreeAddress.Proofs.Correspondence
import ThreeAddress.Proofs.Typing

/-
  This file says what the order of definitions decides about a
  program: the numbers of its functions and variables, and
  nothing else. When the functions of a program and the local
  variables of each function are put in another order, the
  verifier accepts it as before, and the two executables are
  the same up to their numbers.

  Key definitions include:
    * `Function.Reordered`, `Program.Reordered`
    * `SameSlot`, `Action.Via`
    * `Routine.Renumbers`, `Executable.Renumbers`

  Main statements:
    * `Scope.Lowers.exists_via`
    * `Program.Reordered.exists_verify`
    * `Program.Reordered.renumbers`
-/

namespace ThreeAddress

------------------------------------------------------------
-- Definitions in Another Order
------------------------------------------------------------

/-
  The functions are the same but for the order in which their
  integers and their floats are declared.
-/
structure Function.Reordered (f f' : Function) : Prop where
  ints : f.ints.Perm f'.ints
  floats : f.floats.Perm f'.floats
  rest : f' = { f with ints := f'.ints, floats := f'.floats }

/-
  The programs have the same functions, in any order, but for
  the order in which their local variables are declared.
-/
def Program.Reordered (p p' : Program) : Prop :=
  ∃ functions,
    List.Forall₂ Function.Reordered p.functions functions ∧
      functions.Perm p'.functions

------------------------------------------------------------
-- Other Numbers
------------------------------------------------------------

/- The numbers are those of one variable. -/
def SameSlot (slots slots' : Array Slot) (id id' : Nat) : Prop :=
  ∃ s, slots[id]? = some s ∧ slots'[id']? = some s

/- The callees are corresponding routines, or one intrinsic. -/
inductive Callee.Via (T : Nat → Nat → Prop) : Callee → Callee → Prop where
| routine
    {index index' : Nat}
    (same : T index index') :
    Via T (.routine index) (.routine index')
| intrinsic (i : Intrinsic) : Via T (.intrinsic i) (.intrinsic i)

/-
  The actions do the same on corresponding slots, which `S`
  relates, and routines, which `T` relates.
-/
inductive Action.Via (S T : Nat → Nat → Prop) : Action → Action → Prop where
| assign
    {dest dest' : Place}
    {src src' : Source}
    (place : Place.Via S dest dest')
    (source : Source.Via S src src') :
    Via S T (.assign dest src) (.assign dest' src')
| arith
    {op : ArithOp}
    {dest dest' : Place}
    {lhs lhs' rhs rhs' : Source}
    (place : Place.Via S dest dest')
    (left : Source.Via S lhs lhs')
    (right : Source.Via S rhs rhs') :
    Via S T (.arith op dest lhs rhs) (.arith op dest' lhs' rhs')
| bit
    {op : BitOp}
    {dest dest' : Place}
    {lhs lhs' rhs rhs' : Source}
    (place : Place.Via S dest dest')
    (left : Source.Via S lhs lhs')
    (right : Source.Via S rhs rhs') :
    Via S T (.bit op dest lhs rhs) (.bit op dest' lhs' rhs')
| goto (target : Nat) : Via S T (.goto target) (.goto target)
| branch
    {cond : Cond}
    {target : Nat}
    {lhs lhs' rhs rhs' : Source}
    (left : Source.Via S lhs lhs')
    (right : Source.Via S rhs rhs') :
    Via S T (.branch cond target lhs rhs) (.branch cond target lhs' rhs')
| ret
    {value value' : Option Source}
    (source : Option.Rel (Source.Via S) value value') :
    Via S T (.ret value) (.ret value')
| call
    {dest dest' : Option Place}
    {callee callee' : Callee}
    {args args' : List Argument}
    (place : Option.Rel (Place.Via S) dest dest')
    (routine : Callee.Via T callee callee')
    (arguments : List.Forall₂ (Argument.Via S) args args') :
    Via S T (.call dest callee args) (.call dest' callee' args')
| load
    {dest dest' : Place}
    {array array' : Nat}
    {index index' : Source}
    (place : Place.Via S dest dest')
    (slot : S array array')
    (source : Source.Via S index index') :
    Via S T (.load dest array index) (.load dest' array' index')
| store
    {value value' : Source}
    {array array' : Nat}
    {index index' : Source}
    (stored : Source.Via S value value')
    (slot : S array array')
    (source : Source.Via S index index') :
    Via S T (.store value array index) (.store value' array' index')

/-
  The routines are the same but for the order of their local
  variables and the numbers of the routines they call.
-/
structure Routine.Renumbers
    (T : Nat → Nat → Prop)
    (r r' : Routine) : Prop where
  name : r.name = r'.name
  slots :
    ∃ params locals locals',
      r.slots.toList = params ++ locals ∧
        r'.slots.toList = params ++ locals' ∧
        locals.Perm locals' ∧
        (∀ s ∈ params, s.param = true) ∧
        ∀ s ∈ locals, s.param = false
  names : (r.slots.toList.map Slot.name).Nodup
  code :
    List.Forall₂
      (fun (st st' : Step) =>
        Action.Via (SameSlot r.slots r'.slots) T st.action st'.action ∧
          st.line = st'.line)
      r.code.toList r'.code.toList

/- The executables are the same up to their numbers. -/
structure Executable.Renumbers
    (exe exe' : Executable)
    (T : Nat → Nat → Prop) : Prop where
  entry : T exe.entry exe'.entry
  routines :
    ∀ index index', T index index' →
      ∃ r r',
        exe.routines[index]? = some r ∧
          exe'.routines[index']? = some r' ∧
          Routine.Renumbers T r r'

------------------------------------------------------------
-- Lowering in Another Scope
------------------------------------------------------------

namespace Scope

/-
  What stands for something in one scope stands for what
  corresponds to it in the other.
-/
structure Reads
    (S T : Nat → Nat → Prop)
    (s s' : Scope) : Prop where
  returns : s'.returns = s.returns
  labels : s'.labels = s.labels
  slots :
    ∀ {name id shape}, findSlot? s.slots name = some (id, shape) →
      ∃ id', findSlot? s'.slots name = some (id', shape) ∧ S id id'
  signatures :
    ∀ {name signature}, s.signatures.lookup name = some signature →
      ∃ signature',
        s'.signatures.lookup name = some signature' ∧
          signature'.params = signature.params ∧
          signature'.returns = signature.returns ∧
          Callee.Via T signature.callee signature'.callee

variable {S T : Nat → Nat → Prop} {s s' : Scope}

theorem ResolvesIndex.exists_via
    {i : Index String}
    {j : Index Nat}
    (hScope : s.Reads S T s')
    (h : s.ResolvesIndex i j) :
    ∃ j', s'.ResolvesIndex i j' ∧ Index.Via S j j' := by
  cases h with
  | const n => exact ⟨_, .const n, .const n⟩
  | var slot =>
      rcases hScope.slots slot with ⟨id', hSlot, hSame⟩
      exact ⟨_, .var hSlot, .var hSame⟩

theorem ResolvesPlace.exists_via
    {x : Operand}
    {p : Place}
    {t : Scalar}
    (hScope : s.Reads S T s')
    (h : s.ResolvesPlace x p t) :
    ∃ p', s'.ResolvesPlace x p' t ∧ Place.Via S p p' := by
  cases h with
  | var slot =>
      rcases hScope.slots slot with ⟨id', hSlot, hSame⟩
      exact ⟨_, .var hSlot, .slot hSame⟩
  | element slot index =>
      rcases hScope.slots slot with ⟨id', hSlot, hSame⟩
      rcases index.exists_via hScope with ⟨j', hIndex, hIndices⟩
      exact ⟨_, .element hSlot hIndex, .element hSame hIndices⟩

theorem ResolvesSource.exists_via
    {x : Operand}
    {src : Source}
    {t : Scalar}
    (hScope : s.Reads S T s')
    (h : s.ResolvesSource x src t) :
    ∃ src', s'.ResolvesSource x src' t ∧ Source.Via S src src' := by
  cases h with
  | int n => exact ⟨_, .int n, .int n⟩
  | float y => exact ⟨_, .float y, .float y⟩
  | place place =>
      rcases place.exists_via hScope with ⟨p', hPlace, hSame⟩
      exact ⟨_, .place hPlace, .place hSame⟩

theorem ResolvesArray.exists_via
    {x : Operand}
    {id : Nat}
    {t : Scalar}
    (hScope : s.Reads S T s')
    (h : s.ResolvesArray x id t) :
    ∃ id', s'.ResolvesArray x id' t ∧ S id id' := by
  cases h with
  | var slot =>
      rcases hScope.slots slot with ⟨id', hSlot, hSame⟩
      exact ⟨id', .var hSlot, hSame⟩

theorem ResolvesArguments.exists_via
    {xs : List Operand}
    {shapes : List Shape}
    {args : List Argument}
    (hScope : s.Reads S T s')
    (h : s.ResolvesArguments xs shapes args) :
    ∃ args',
      s'.ResolvesArguments xs shapes args' ∧
        List.Forall₂ (Argument.Via S) args args' := by
  induction h with
  | nil => exact ⟨[], .nil, .nil⟩
  | cons head _ ih =>
      rcases ih with ⟨args', hArgs, hSames⟩
      cases head with
      | value source accepts =>
          rcases source.exists_via hScope with ⟨src', hSource, hSame⟩
          exact ⟨_, .cons (.value hSource accepts) hArgs,
            .cons (.value hSame) hSames⟩
      | array slot =>
          rcases hScope.slots slot with ⟨id', hSlot, hSame⟩
          exact ⟨_, .cons (.array hSlot) hArgs,
            .cons (.array hSame) hSames⟩

/- An instruction is lowered to what corresponds. -/
theorem Lowers.exists_via
    {op : Opcode}
    {xs : List Operand}
    {a : Action}
    (hScope : s.Reads S T s')
    (h : s.Lowers op xs a) :
    ∃ a', s'.Lowers op xs a' ∧ Action.Via S T a a' := by
  cases h with
  | assign place source accepts =>
      rcases place.exists_via hScope with ⟨dest', hPlace, hDest⟩
      rcases source.exists_via hScope with ⟨src', hSource, hSame⟩
      exact ⟨_, .assign hPlace hSource accepts, .assign hDest hSame⟩
  | arith place left right accepts =>
      rcases place.exists_via hScope with ⟨dest', hPlace, hDest⟩
      rcases left.exists_via hScope with ⟨lhs', hLeft, hLefts⟩
      rcases right.exists_via hScope with ⟨rhs', hRight, hRights⟩
      exact ⟨_, .arith hPlace hLeft hRight accepts,
        .arith hDest hLefts hRights⟩
  | bit place left right =>
      rcases place.exists_via hScope with ⟨dest', hPlace, hDest⟩
      rcases left.exists_via hScope with ⟨lhs', hLeft, hLefts⟩
      rcases right.exists_via hScope with ⟨rhs', hRight, hRights⟩
      exact ⟨_, .bit hPlace hLeft hRight, .bit hDest hLefts hRights⟩
  | goto target =>
      rw [← hScope.labels] at target
      exact ⟨_, .goto target, .goto _⟩
  | branch target left right =>
      rw [← hScope.labels] at target
      rcases left.exists_via hScope with ⟨lhs', hLeft, hLefts⟩
      rcases right.exists_via hScope with ⟨rhs', hRight, hRights⟩
      exact ⟨_, .branch target hLeft hRight, .branch hLefts hRights⟩
  | retVoid returns =>
      rw [← hScope.returns] at returns
      exact ⟨_, .retVoid returns, .ret .none⟩
  | retValue returns source accepts =>
      rw [← hScope.returns] at returns
      rcases source.exists_via hScope with ⟨src', hSource, hSame⟩
      exact ⟨_, .retValue returns hSource accepts, .ret (.some hSame)⟩
  | call callee arguments =>
      rcases hScope.signatures callee with
        ⟨signature', hFound, hParams, _, hCallee⟩
      rcases arguments.exists_via hScope with ⟨args', hArgs, hSame⟩
      rw [← hParams] at hArgs
      exact ⟨_, .call hFound hArgs, .call .none hCallee hSame⟩
  | callr place callee returns arguments =>
      rcases place.exists_via hScope with ⟨dest', hPlace, hDest⟩
      rcases hScope.signatures callee with
        ⟨signature', hFound, hParams, hReturns, hCallee⟩
      rcases arguments.exists_via hScope with ⟨args', hArgs, hSame⟩
      rw [← hParams] at hArgs
      rw [← hReturns] at returns
      exact ⟨_, .callr hPlace hFound returns hArgs,
        .call (.some hDest) hCallee hSame⟩
  | load place array index accepts =>
      rcases place.exists_via hScope with ⟨dest', hPlace, hDest⟩
      rcases array.exists_via hScope with ⟨id', hArray, hSame⟩
      rcases index.exists_via hScope with ⟨src', hIndex, hIndices⟩
      exact ⟨_, .load hPlace hArray hIndex accepts,
        .load hDest hSame hIndices⟩
  | store value array index accepts =>
      rcases value.exists_via hScope with ⟨val', hValue, hValues⟩
      rcases array.exists_via hScope with ⟨id', hArray, hSame⟩
      rcases index.exists_via hScope with ⟨src', hIndex, hIndices⟩
      exact ⟨_, .store hValue hArray hIndex accepts,
        .store hValues hSame hIndices⟩

/- Instructions are lowered to corresponding steps. -/
theorem Reads.forall₂_steps
    {code : List Instruction}
    {sts sts' : List Step}
    (hScope : s.Reads S T s')
    (h : s.steps code = .ok sts)
    (h' : s'.steps code = .ok sts') :
    List.Forall₂
      (fun st st' =>
        Action.Via S T st.action st'.action ∧ st.line = st'.line)
      sts sts' := by
  rw [steps_eq_ok_iff] at h h'
  induction h generalizing sts' with
  | nil =>
      cases h'
      exact .nil
  | cons hHead _ ih =>
      cases h' with
      | cons hHead' hTail' =>
          refine .cons ⟨?_, hHead.2.trans hHead'.2.symm⟩ (ih hTail')
          rcases hHead.1.exists_via hScope with ⟨a', hLowers, hVia⟩
          -- The second scope lowers the instruction in one way only.
          rw [← action_eq_ok_iff, action_eq_ok_iff.mpr hHead'.1]
            at hLowers
          rw [Except.ok.inj hLowers]
          exact hVia

end Scope

------------------------------------------------------------
-- Functions in Another Order
------------------------------------------------------------

namespace Function.Reordered

variable {f f' : Function}

theorem symm
    (h : f.Reordered f') :
    f'.Reordered f := by
  refine ⟨h.ints.symm, h.floats.symm, ?_⟩
  rw [h.rest]

theorem name_eq
    (h : f.Reordered f') :
    f'.name = f.name := by
  rw [h.rest]

theorem params_eq
    (h : f.Reordered f') :
    f'.params = f.params := by
  rw [h.rest]

theorem code_eq
    (h : f.Reordered f') :
    f'.code = f.code := by
  rw [h.rest]

/- The parameters come first and stay where they are. -/
theorem exists_slots
    (h : f.Reordered f') :
    ∃ params locals locals',
      f.slots = params ++ locals ∧
        f'.slots = params ++ locals' ∧
        locals.Perm locals' ∧
        (∀ s ∈ params, s.param = true) ∧
        ∀ s ∈ locals, s.param = false := by
  refine ⟨_, _, f'.locals.map Declaration.slot, f.slots_eq, ?_, ?_,
    fun _ => Function.param_of_mem_params,
    fun _ => Function.param_of_mem_locals⟩
  · rw [f'.slots_eq, h.params_eq]
  · exact (h.ints.append h.floats).map _

theorem perm_slots
    (h : f.Reordered f') :
    f.slots.Perm f'.slots := by
  rcases h.exists_slots with
    ⟨params, locals, locals', hSlots, hSlots', hPerm, _⟩
  rw [hSlots, hSlots']
  exact hPerm.append_left params

theorem declares_iff
    (h : f.Reordered f')
    {x : String}
    {shape : Shape} :
    f'.Declares x shape ↔ f.Declares x shape := by
  rw [← exists_mem_slots_iff, ← exists_mem_slots_iff]
  simp only [h.perm_slots.mem_iff]

theorem nodup_declaredNames_iff
    (h : f.Reordered f') :
    f'.declaredNames.Nodup ↔ f.declaredNames.Nodup := by
  rw [← map_name_slots, ← map_name_slots]
  exact ((h.perm_slots.map Slot.name).nodup_iff).symm

/- A name is found in both, as the same variable. -/
theorem exists_findSlot?
    (h : f.Reordered f')
    (hNames : f.declaredNames.Nodup)
    {name : String}
    {id : Nat}
    {shape : Shape}
    (hFound : findSlot? f.slots name = some (id, shape)) :
    ∃ id',
      findSlot? f'.slots name = some (id', shape) ∧
        SameSlot f.slots.toArray f'.slots.toArray id id' := by
  have hNames' := h.nodup_declaredNames_iff.mpr hNames
  have hDeclares := (exists_findSlot?_iff hNames).mp ⟨id, hFound⟩
  rcases (exists_findSlot?_iff hNames').mpr
    (h.declares_iff.mpr hDeclares) with ⟨id', hFound'⟩
  rcases exists_slot_of_findSlot? hFound with ⟨s, hs, hName, _⟩
  rcases exists_slot_of_findSlot? hFound' with ⟨s', hs', hName', _⟩
  have hMem := h.perm_slots.mem_iff.mp (List.mem_of_getElem? hs)
  rw [← map_name_slots] at hNames'
  have hSame : s' = s :=
    List.inj_on_of_nodup_map hNames' (List.mem_of_getElem? hs') hMem
      (hName'.trans hName.symm)
  subst hSame
  exact ⟨id', hFound', s', by simpa using hs, by simpa using hs'⟩

theorem checkLimits_eq
    (h : f.Reordered f') :
    f'.checkLimits = .ok () ↔ f.checkLimits = .ok () := by
  rw [checkLimits_eq_ok_iff, checkLimits_eq_ok_iff, forall_vars_iff,
    forall_vars_iff, h.code_eq]
  simp only [h.declares_iff]

theorem checkVariables_eq
    (h : f.Reordered f') :
    f'.checkVariables = .ok () ↔ f.checkVariables = .ok () := by
  rw [checkVariables_eq_ok_iff, checkVariables_eq_ok_iff,
    forall_vars_iff, forall_vars_iff, map_name_slots, map_name_slots,
    h.nodup_declaredNames_iff]
  simp only [h.declares_iff]

theorem checkLabels_eq
    (h : f.Reordered f') :
    f'.checkLabels = f.checkLabels := by
  rw [h.rest]
  rfl

end Function.Reordered

------------------------------------------------------------
-- Programs in Another Order
------------------------------------------------------------

namespace Program

/- The numbers are those of one function, but for its order. -/
def SameFunction (p p' : Program) (index index' : Nat) : Prop :=
  ∃ f f',
    p.functions[index]? = some f ∧
      p'.functions[index']? = some f' ∧
      f.Reordered f'

namespace Reordered

variable {p p' : Program} {exe exe' : Executable}

theorem symm
    (h : p.Reordered p') :
    p'.Reordered p := by
  rcases h with ⟨functions, hEach, hPerm⟩
  have hBack : List.Forall₂ Function.Reordered functions p.functions := by
    apply hEach.flip.imp
    intro f f' hReordered
    exact hReordered.symm
  exact List.perm_comp_forall₂ hPerm.symm hBack

theorem exists_function
    (h : p.Reordered p')
    {f : Function}
    (hf : f ∈ p.functions) :
    ∃ f' ∈ p'.functions, f.Reordered f' := by
  rcases h with ⟨functions, hEach, hPerm⟩
  rcases List.mem_iff_getElem?.mp hf with ⟨index, hGet⟩
  rcases Outcome.exists_right hEach hGet with ⟨f', hGet', hReordered⟩
  exact ⟨f', hPerm.mem_iff.mp (List.mem_of_getElem? hGet'), hReordered⟩

theorem perm_names
    (h : p.Reordered p') :
    (p.functions.map Function.name).Perm
      (p'.functions.map Function.name) := by
  rcases h with ⟨functions, hEach, hPerm⟩
  have hNames : ∀ {fs fs' : List Function},
      List.Forall₂ Function.Reordered fs fs' →
        fs.map Function.name = fs'.map Function.name := by
    intro fs fs' hBoth
    induction hBoth with
    | nil => rfl
    | cons hHead _ ih =>
        rw [List.map_cons, List.map_cons, ih, hHead.name_eq]
  rw [hNames hEach]
  exact hPerm.map Function.name

/- A name that can be called can be called in both alike. -/
theorem exists_lookup
    (h : p.Reordered p')
    (hNames : checkNames [] p'.functions = .ok ())
    {name : String}
    {signature : Signature}
    (hFound : p.signatures.lookup name = some signature) :
    ∃ signature',
      p'.signatures.lookup name = some signature' ∧
        signature'.params = signature.params ∧
        signature'.returns = signature.returns ∧
        Callee.Via (p.SameFunction p') signature.callee
          signature'.callee := by
  rcases checkNames_eq_ok_iff.mp hNames with ⟨hOwn, hFresh⟩
  have hKeys := nodup_signatures (freshNames_nil_iff.mp hFresh) hOwn
  rcases mem_signatures_iff.mp (mem_signatures_of_lookup hFound) with
    ⟨f, index, hf, rfl, rfl⟩ | ⟨i, rfl, rfl⟩
  · rcases h.exists_function (List.mem_of_getElem? hf) with
      ⟨f', hf', hReordered⟩
    rcases List.mem_iff_getElem?.mp hf' with ⟨index', hGet'⟩
    refine ⟨f'.signature index', ?_, ?_, ?_, ?_⟩
    · apply lookup_of_mem hKeys
      exact mem_signatures_iff.mpr
        (.inl ⟨f', index', hGet', hReordered.name_eq, rfl⟩)
    · simp only [Function.signature, hReordered.params_eq]
    · rw [hReordered.rest]
      rfl
    · exact .routine ⟨f, f', hf, hGet', hReordered⟩
  · refine ⟨i.signature, ?_, rfl, rfl, .intrinsic i⟩
    apply lookup_of_mem hKeys
    exact mem_signatures_iff.mpr (.inr ⟨i, rfl, rfl⟩)

/- Inside a function the same names are known in both. -/
theorem scope_reads
    (h : p.Reordered p')
    (hNames : checkNames [] p'.functions = .ok ())
    {f f' : Function}
    (hReordered : f.Reordered f')
    (hVariables : f.checkVariables = .ok ()) :
    (p.scope f).Reads (SameSlot f.slots.toArray f'.slots.toArray)
      (p.SameFunction p') (p'.scope f') := by
  rw [Function.checkVariables_eq_ok_iff, Function.map_name_slots]
    at hVariables
  constructor
  case returns =>
    rw [hReordered.rest]
    rfl
  case labels =>
    rw [hReordered.rest]
    rfl
  case slots => exact hReordered.exists_findSlot? hVariables.2
  case signatures => exact h.exists_lookup hNames

theorem checkNames_eq
    (h : p.Reordered p')
    (hNames : checkNames [] p.functions = .ok ()) :
    checkNames [] p'.functions = .ok () := by
  rw [checkNames_eq_ok_iff, List.map_nil, freshNames_nil_iff] at hNames ⊢
  refine ⟨?_, h.perm_names.nodup_iff.mp hNames.2⟩
  intro f' hf' i
  rcases h.symm.exists_function hf' with ⟨f, hf, hReordered⟩
  rw [← hReordered.name_eq]
  exact hNames.1 f hf i

/- The routine of a function, whatever the order is. -/
theorem exists_routine
    (h : p.Reordered p')
    (hNames : checkNames [] p'.functions = .ok ())
    {f f' : Function}
    {r : Routine}
    (hReordered : f.Reordered f')
    (hRoutine : p.routine f = .ok r) :
    ∃ r', p'.routine f' = .ok r' := by
  rcases routine_eq_ok_iff.mp hRoutine with
    ⟨hVariables, hLabels, code, hCode, _⟩
  have hReads := h.scope_reads hNames hReordered hVariables
  have hSteps : ∃ code', (p'.scope f').steps f'.code = .ok code' := by
    apply Scope.exists_steps_iff.mpr
    intro i hi
    rw [hReordered.code_eq] at hi
    rcases Scope.exists_steps_iff.mp ⟨code, hCode⟩ i hi with
      ⟨a, hLowers⟩
    rcases hLowers.exists_via hReads with ⟨a', hLowers', _⟩
    exact ⟨a', hLowers'⟩
  rcases hSteps with ⟨code', hCode'⟩
  refine ⟨f'.withSteps code', routine_eq_ok_iff.mpr
    ⟨hReordered.checkVariables_eq.mpr hVariables, ?_, code', hCode', rfl⟩⟩
  rw [hReordered.checkLabels_eq]
  exact hLabels

/- The order does not matter to the verifier. -/
theorem exists_verify
    (h : p.Reordered p')
    (hVerify : verify p = .ok exe) :
    ∃ exe', verify p' = .ok exe' := by
  rcases exists_verify_iff.mp ⟨exe, hVerify⟩ with
    ⟨hLimits, hNames, hEntry, hRoutines⟩
  have hNames' := h.checkNames_eq hNames
  apply exists_verify_iff.mpr
  refine ⟨?_, hNames', ?_, ?_⟩
  · intro f' hf'
    rcases h.symm.exists_function hf' with ⟨f, hf, hReordered⟩
    exact hReordered.checkLimits_eq.mp (hLimits f hf)
  · rw [checkNames_eq_ok_iff, List.map_nil, freshNames_nil_iff]
      at hNames hNames'
    rcases (exists_entry_iff hNames.2).mp hEntry with
      ⟨f, hf, hMain, hParams⟩
    rcases h.exists_function hf with ⟨f', hf', hReordered⟩
    apply (exists_entry_iff hNames'.2).mpr
    exact ⟨f', hf', hReordered.name_eq.trans hMain,
      hReordered.params_eq.trans hParams⟩
  · intro f' hf'
    rcases h.symm.exists_function hf' with ⟨f, hf, hReordered⟩
    rcases hRoutines f hf with ⟨r, hRoutine⟩
    exact h.exists_routine hNames' hReordered.symm hRoutine

------------------------------------------------------------
-- Executables of Reordered Programs
------------------------------------------------------------

/- The routines of one function are the same up to numbers. -/
theorem renumbers_routine
    (h : p.Reordered p')
    (hNames : checkNames [] p'.functions = .ok ())
    {f f' : Function}
    {r r' : Routine}
    (hReordered : f.Reordered f')
    (hRoutine : p.routine f = .ok r)
    (hRoutine' : p'.routine f' = .ok r') :
    Routine.Renumbers (p.SameFunction p') r r' := by
  rcases routine_eq_ok_iff.mp hRoutine with
    ⟨hVariables, _, code, hCode, rfl⟩
  rcases routine_eq_ok_iff.mp hRoutine' with
    ⟨_, _, code', hCode', rfl⟩
  have hReads := h.scope_reads hNames hReordered hVariables
  rw [hReordered.code_eq] at hCode'
  constructor
  case name => exact hReordered.name_eq.symm
  case slots => exact hReordered.exists_slots
  case names => exact (Function.checkVariables_eq_ok_iff.mp hVariables).2
  case code => exact hReads.forall₂_steps hCode hCode'

/- The executables of both are the same up to numbers. -/
theorem renumbers
    (h : p.Reordered p')
    (hVerify : verify p = .ok exe)
    (hVerify' : verify p' = .ok exe') :
    exe.Renumbers exe' (p.SameFunction p') := by
  rcases verify_eq_ok_iff.mp hVerify with ⟨_, hFunctions, _⟩
  rcases verify_eq_ok_iff.mp hVerify' with ⟨_, hFunctions', _⟩
  rcases checkFunctions_eq_ok_iff.mp hFunctions with ⟨_, hEntry⟩
  rcases checkFunctions_eq_ok_iff.mp hFunctions' with ⟨hNames', hEntry'⟩
  constructor
  case entry =>
    rcases getElem?_of_entry hEntry with ⟨main, hGet, hMain, _⟩
    rcases getElem?_of_entry hEntry' with ⟨main', hGet', hMain', _⟩
    rcases h.exists_function (List.mem_of_getElem? hGet) with
      ⟨f', hf', hReordered⟩
    have hNodup := freshNames_nil_iff.mp
      (checkNames_eq_ok_iff.mp hNames').2
    have hSame : f' = main' :=
      List.inj_on_of_nodup_map hNodup hf' (List.mem_of_getElem? hGet')
        (hReordered.name_eq.trans (hMain.trans hMain'.symm))
    rw [hSame] at hReordered
    exact ⟨main, main', hGet, hGet', hReordered⟩
  case routines =>
    intro index index' hSame
    rcases hSame with ⟨f, f', hf, hf', hReordered⟩
    rcases exists_routine_of_function hVerify hf with
      ⟨r, hGet, hRoutine⟩
    rcases exists_routine_of_function hVerify' hf' with
      ⟨r', hGet', hRoutine'⟩
    exact ⟨r, r', hGet, hGet',
      h.renumbers_routine hNames' hReordered hRoutine hRoutine'⟩

end Reordered

end Program

end ThreeAddress
