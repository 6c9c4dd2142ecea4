import ThreeAddress.Proofs.Verified

/-
  This file gives types to the operands, arguments and
  actions of an executable, by the shapes of the slots they
  refer to, and shows that every executable that the verifier
  makes is well typed.

  Key definitions include:
    * `Place.HasType`, `Source.HasType`
    * `Argument.Passes`
    * `Callee.HasSignature`
    * `Action.WellTyped`
    * `Executable.WellTyped`

  Main statements:
    * `Scope.ResolvesSource.hasType`
    * `Executable.wellTyped_of_verify`
-/

namespace ThreeAddress

------------------------------------------------------------
-- Types of Operands
------------------------------------------------------------

/- The index is a number, or a variable that holds one. -/
inductive Index.IsInt (slots : Array Slot) : Index Nat → Prop where
| const (n : Int32) : IsInt slots (.const n)
| var
    {id : Nat}
    {s : Slot}
    (slot : slots[id]? = some s)
    (shape : s.shape = .scalar .int) :
    IsInt slots (.var id)

/- The place holds values of a type. -/
inductive Place.HasType (slots : Array Slot) : Place → Scalar → Prop where
| slot
    {id : Nat}
    {s : Slot}
    {t : Scalar}
    (slot : slots[id]? = some s)
    (shape : s.shape = .scalar t) :
    HasType slots (.slot id) t
| element
    {id n : Nat}
    {s : Slot}
    {t : Scalar}
    {i : Index Nat}
    (slot : slots[id]? = some s)
    (shape : s.shape = .array t n)
    (index : i.IsInt slots) :
    HasType slots (.element id i) t

/- The operand yields values of a type. -/
inductive Source.HasType (slots : Array Slot) : Source → Scalar → Prop where
| int (n : Int32) : HasType slots (.int n) .int
| float (x : Single) : HasType slots (.float x) .float
| place
    {p : Place}
    {t : Scalar}
    (place : p.HasType slots t) :
    HasType slots (.place p) t

/- The argument may be passed for a parameter of a shape. -/
inductive Argument.Passes (slots : Array Slot) :
    Argument → Shape → Prop where
| value
    {src : Source}
    {t u : Scalar}
    (source : src.HasType slots u)
    (accepts : t.accepts u = true) :
    Passes slots (.value src) (.scalar t)
| array
    {id n : Nat}
    {s : Slot}
    {t : Scalar}
    (slot : slots[id]? = some s)
    (shape : s.shape = .array t n) :
    Passes slots (.array id) (.array t n)

------------------------------------------------------------
-- Types of Actions
------------------------------------------------------------

/- The shapes of a routine's parameters, in order. -/
def Routine.paramShapes (r : Routine) : List Shape :=
  (r.slots.toList.filter Slot.param).map Slot.shape

/- What a callee takes and hands back. -/
inductive Callee.HasSignature (exe : Executable) :
    Callee → List Shape → ReturnType → Prop where
| routine
    {index : Nat}
    {r : Routine}
    (routine : exe.routines[index]? = some r) :
    HasSignature exe (.routine index) r.paramShapes r.returns
| intrinsic (i : Intrinsic) :
    HasSignature exe (.intrinsic i) (i.params.map .scalar) i.returns

/-
  The action is one that a routine with the given slots and
  return type may perform.
-/
inductive Action.WellTyped
    (exe : Executable)
    (slots : Array Slot)
    (returns : ReturnType) : Action → Prop where
| assign
    {dest : Place}
    {src : Source}
    {t u : Scalar}
    (place : dest.HasType slots t)
    (source : src.HasType slots u)
    (accepts : t.accepts u = true) :
    WellTyped exe slots returns (.assign dest src)
| arith
    {op : ArithOp}
    {dest : Place}
    {lhs rhs : Source}
    {t u v : Scalar}
    (place : dest.HasType slots t)
    (left : lhs.HasType slots u)
    (right : rhs.HasType slots v)
    (accepts : t.accepts (u.widen v) = true) :
    WellTyped exe slots returns (.arith op dest lhs rhs)
| bit
    {op : BitOp}
    {dest : Place}
    {lhs rhs : Source}
    {t : Scalar}
    (place : dest.HasType slots t)
    (left : lhs.HasType slots .int)
    (right : rhs.HasType slots .int) :
    WellTyped exe slots returns (.bit op dest lhs rhs)
| goto (target : Nat) : WellTyped exe slots returns (.goto target)
| branch
    {cond : Cond}
    {target : Nat}
    {lhs rhs : Source}
    {u v : Scalar}
    (left : lhs.HasType slots u)
    (right : rhs.HasType slots v) :
    WellTyped exe slots returns (.branch cond target lhs rhs)
| retVoid : WellTyped exe slots returns (.ret none)
| retValue
    {src : Source}
    {t u : Scalar}
    (value : returns = .value t)
    (source : src.HasType slots u)
    (accepts : t.accepts u = true) :
    WellTyped exe slots returns (.ret (some src))
| call
    {dest : Option Place}
    {callee : Callee}
    {args : List Argument}
    {shapes : List Shape}
    {result : ReturnType}
    (signature : callee.HasSignature exe shapes result)
    (passes : List.Forall₂ (Argument.Passes slots) args shapes)
    (place : ∀ p, dest = some p →
      ∃ t, p.HasType slots t ∧ result = .value t) :
    WellTyped exe slots returns (.call dest callee args)
| load
    {dest : Place}
    {array n : Nat}
    {index : Source}
    {s : Slot}
    {t u : Scalar}
    (place : dest.HasType slots t)
    (slot : slots[array]? = some s)
    (shape : s.shape = .array u n)
    (position : index.HasType slots .int)
    (accepts : t.accepts u = true) :
    WellTyped exe slots returns (.load dest array index)
| store
    {value : Source}
    {array n : Nat}
    {index : Source}
    {s : Slot}
    {t u : Scalar}
    (source : value.HasType slots u)
    (slot : slots[array]? = some s)
    (shape : s.shape = .array t n)
    (position : index.HasType slots .int)
    (accepts : t.accepts u = true) :
    WellTyped exe slots returns (.store value array index)

/-
  Every step is well typed, and runs start with a routine
  that takes nothing.
-/
structure Executable.WellTyped (exe : Executable) : Prop where
  entry :
    ∃ r, exe.routines[exe.entry]? = some r ∧ r.paramShapes = []
  action :
    ∀ (index : Nat) (r : Routine) (pc : Nat) (st : Step),
      exe.routines[index]? = some r →
      r.code[pc]? = some st →
        st.action.WellTyped exe r.slots r.returns

------------------------------------------------------------
-- Resolved Operands Are Well Typed
------------------------------------------------------------

namespace Scope

variable {s : Scope}

/- The slot of a name, in the array of the slots. -/
theorem exists_slot
    {name : String}
    {id : Nat}
    {shape : Shape}
    (h : findSlot? s.slots name = some (id, shape)) :
    ∃ slot, s.slots.toArray[id]? = some slot ∧ slot.shape = shape := by
  rcases exists_slot_of_findSlot? h with ⟨slot, hGet, _, hShape⟩
  exact ⟨slot, by simpa using hGet, hShape⟩

theorem ResolvesIndex.isInt
    {i : Index String}
    {j : Index Nat}
    (h : s.ResolvesIndex i j) :
    j.IsInt s.slots.toArray := by
  cases h with
  | const n => exact .const n
  | var hSlot =>
      rcases exists_slot hSlot with ⟨slot, hGet, hShape⟩
      exact .var hGet hShape

theorem ResolvesPlace.hasType
    {x : Operand}
    {p : Place}
    {t : Scalar}
    (h : s.ResolvesPlace x p t) :
    p.HasType s.slots.toArray t := by
  cases h with
  | var hSlot =>
      rcases exists_slot hSlot with ⟨slot, hGet, hShape⟩
      exact .slot hGet hShape
  | element hSlot hIndex =>
      rcases exists_slot hSlot with ⟨slot, hGet, hShape⟩
      exact .element hGet hShape hIndex.isInt

/- The type that the verifier finds is the operand's type. -/
theorem ResolvesSource.hasType
    {x : Operand}
    {src : Source}
    {t : Scalar}
    (h : s.ResolvesSource x src t) :
    src.HasType s.slots.toArray t := by
  cases h with
  | int n => exact .int n
  | float r => exact .float r
  | place hPlace => exact .place hPlace.hasType

theorem ResolvesArray.exists_slot
    {x : Operand}
    {id : Nat}
    {t : Scalar}
    (h : s.ResolvesArray x id t) :
    ∃ slot n,
      s.slots.toArray[id]? = some slot ∧ slot.shape = .array t n := by
  cases h with
  | var hSlot =>
      rcases Scope.exists_slot hSlot with ⟨slot, hGet, hShape⟩
      exact ⟨slot, _, hGet, hShape⟩

theorem ResolvesArguments.passes
    {xs : List Operand}
    {shapes : List Shape}
    {args : List Argument}
    (h : s.ResolvesArguments xs shapes args) :
    List.Forall₂ (Argument.Passes s.slots.toArray) args shapes := by
  induction h with
  | nil => exact .nil
  | cons hHead _ ih =>
      refine .cons ?_ ih
      cases hHead with
      | value hSource hAccepts =>
          exact .value hSource.hasType hAccepts
      | array hSlot =>
          rcases Scope.exists_slot hSlot with ⟨slot, hGet, hShape⟩
          exact .array hGet hShape

/-
  An action is well typed when the signatures that its scope
  knows are those of the executable.
-/
theorem Lowers.wellTyped
    {exe : Executable}
    (hSignatures :
      ∀ name signature,
        s.signatures.lookup name = some signature →
          signature.callee.HasSignature exe
            signature.params signature.returns)
    {op : Opcode}
    {xs : List Operand}
    {a : Action}
    (h : s.Lowers op xs a) :
    a.WellTyped exe s.slots.toArray s.returns := by
  cases h with
  | assign hPlace hSource hAccepts =>
      exact .assign hPlace.hasType hSource.hasType hAccepts
  | arith hPlace hLeft hRight hAccepts =>
      exact .arith hPlace.hasType hLeft.hasType hRight.hasType
        hAccepts
  | bit hPlace hLeft hRight =>
      exact .bit hPlace.hasType hLeft.hasType hRight.hasType
  | goto hTarget => exact .goto _
  | branch hTarget hLeft hRight =>
      exact .branch hLeft.hasType hRight.hasType
  | retVoid hReturns => exact .retVoid
  | retValue hReturns hSource hAccepts =>
      exact .retValue hReturns hSource.hasType hAccepts
  | call hFound hArgs =>
      exact .call (hSignatures _ _ hFound) hArgs.passes nofun
  | callr hPlace hFound hReturns hArgs =>
      refine .call (hSignatures _ _ hFound) hArgs.passes ?_
      intro p hp
      cases hp
      exact ⟨_, hPlace.hasType, hReturns⟩
  | load hPlace hArray hIndex hAccepts =>
      rcases hArray.exists_slot with ⟨slot, n, hGet, hShape⟩
      exact .load hPlace.hasType hGet hShape hIndex.hasType hAccepts
  | store hValue hArray hIndex hAccepts =>
      rcases hArray.exists_slot with ⟨slot, n, hGet, hShape⟩
      exact .store hValue.hasType hGet hShape hIndex.hasType hAccepts

end Scope

------------------------------------------------------------
-- Verified Executables Are Well Typed
------------------------------------------------------------

/- A function's parameters are those of its routine. -/
theorem Function.paramShapes_withSteps
    (f : Function)
    (code : List Step) :
    (f.withSteps code).paramShapes = f.params.map Parameter.shape := by
  have hParams :
      (f.params.map Parameter.slot).filter Slot.param =
        f.params.map Parameter.slot :=
    List.filter_eq_self.mpr fun _ => Function.param_of_mem_params
  have hLocals :
      (f.locals.map Declaration.slot).filter Slot.param = [] := by
    rw [List.filter_eq_nil_iff]
    intro s hs
    simp [Function.param_of_mem_locals hs]
  simp only [Routine.paramShapes, Function.withSteps,
    Function.slots_eq, List.filter_append, hParams, hLocals,
    List.append_nil, List.map_map]
  rfl

namespace Executable

variable {p : Program} {exe : Executable}

/- The names that a program can call are callable. -/
theorem hasSignature_of_lookup
    (hVerify : verify p = .ok exe)
    {name : String}
    {signature : Signature}
    (hFound : p.signatures.lookup name = some signature) :
    signature.callee.HasSignature exe
      signature.params signature.returns := by
  rcases mem_signatures_iff.mp (mem_signatures_of_lookup hFound) with
    ⟨f, index, hFunction, _, rfl⟩ | ⟨i, _, rfl⟩
  · rcases exists_routine_of_function hVerify hFunction with
      ⟨r, hGet, hRoutine⟩
    rcases Program.routine_eq_ok_iff.mp hRoutine with
      ⟨_, _, code, _, rfl⟩
    have hSignature := Callee.HasSignature.routine hGet
    rw [f.paramShapes_withSteps code] at hSignature
    exact hSignature
  · exact .intrinsic i

/- Every verified executable is well typed. -/
theorem wellTyped_of_verify
    (hVerify : verify p = .ok exe) :
    exe.WellTyped := by
  constructor
  · rcases verify_eq_ok_iff.mp hVerify with ⟨_, hFunctions, _⟩
    rcases checkFunctions_eq_ok_iff.mp hFunctions with ⟨_, hEntry⟩
    rcases Program.getElem?_of_entry hEntry with
      ⟨f, hFunction, _, hParams⟩
    rcases exists_routine_of_function hVerify hFunction with
      ⟨r, hGet, hRoutine⟩
    rcases Program.routine_eq_ok_iff.mp hRoutine with
      ⟨_, _, code, _, rfl⟩
    refine ⟨_, hGet, ?_⟩
    rw [f.paramShapes_withSteps code, hParams]
    rfl
  · intro index r pc st hGet hStep
    rcases exists_function_of_routine hVerify hGet with
      ⟨f, hFunction, hRoutine⟩
    rcases exists_instruction_of_step hRoutine hStep with
      ⟨i, _, hLowers, _⟩
    have hTyped :=
      hLowers.wellTyped fun _ _ hFound =>
        hasSignature_of_lookup hVerify hFound
    rcases Program.routine_eq_ok_iff.mp hRoutine with
      ⟨_, _, code, _, rfl⟩
    exact hTyped

end Executable

end ThreeAddress
