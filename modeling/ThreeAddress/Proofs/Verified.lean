import ThreeAddress.Verification
import ThreeAddress.Proofs.Resolution

/-
  This file says what the verifier makes of a program that it
  accepts: one routine for each function, in order, and one
  step for each instruction, each the action that the
  instruction lowers to.

  Main statements:
    * `mem_signatures_iff`
    * `Program.getElem?_of_entry`
    * `Program.routine_eq_ok_iff`
    * `verify_eq_ok_iff`
    * `exists_function_of_routine`
-/

namespace ThreeAddress

------------------------------------------------------------
-- Callable Names
------------------------------------------------------------

/-
  The callable names are those of the functions, each with
  its number, and those of the intrinsic functions.
-/
theorem mem_signatures_iff
    {p : Program}
    {name : String}
    {signature : Signature} :
    (name, signature) ∈ p.signatures ↔
      (∃ (f : Function) (index : Nat),
        p.functions[index]? = some f ∧
          f.name = name ∧
          f.signature index = signature) ∨
      ∃ i : Intrinsic, i.name = name ∧ i.signature = signature := by
  have hAll : ∀ i : Intrinsic, i ∈ Intrinsic.all := by
    intro i
    cases i <;> decide
  simp only [Program.signatures, List.mem_append, List.mem_map,
    Prod.mk.injEq, Prod.exists, List.mem_zipIdx_iff_getElem?]
  simp [hAll]

/- A name that is found is callable. -/
theorem mem_signatures_of_lookup
    {signatures : List (String × Signature)}
    {name : String}
    {signature : Signature}
    (h : signatures.lookup name = some signature) :
    (name, signature) ∈ signatures := by
  rcases List.lookup_eq_some_iff.mp h with ⟨before, after, rfl, _⟩
  simp

------------------------------------------------------------
-- The Parts of a Verified Program
------------------------------------------------------------

namespace Scope

theorem step_eq_ok_iff
    {s : Scope}
    {i : Instruction}
    {st : Step} :
    s.step i = .ok st ↔
      s.Lowers i.opcode i.operands st.action ∧ st.line = i.line := by
  rw [← action_eq_ok_iff, step]
  rcases st with ⟨action, line⟩
  split
  · next hCause => simp [hCause]
  · next hAction =>
      rw [hAction]
      simp [eq_comm]

/- Each instruction gives one step. -/
theorem steps_eq_ok_iff
    {s : Scope}
    {code : List Instruction}
    {sts : List Step} :
    s.steps code = .ok sts ↔
      List.Forall₂
        (fun i st =>
          s.Lowers i.opcode i.operands st.action ∧
            st.line = i.line)
        code sts := by
  rw [steps, Outcome.mapM_eq_ok]
  simp only [step_eq_ok_iff]

end Scope

/- The routine of a function with the given steps. -/
def Function.withSteps (f : Function) (code : List Step) : Routine :=
  { name := f.name
    returns := f.returns
    params := f.paramSlots
    slots := f.slots.toArray
    code := code.toArray
    labels := f.labelTable }

namespace Program

/- The entry is the number of the first `main`. -/
theorem getElem?_of_entry
    {p : Program}
    {index : Nat}
    (h : p.entry = .ok index) :
    ∃ f,
      p.functions[index]? = some f ∧
        f.name = entryName ∧
        f.params = [] := by
  unfold entry at h
  split at h
  · cases h
  · next f number hFind =>
      have hName := List.find?_some hFind
      have hMem := List.mem_of_find?_eq_some hFind
      rw [List.mem_zipIdx_iff_getElem?] at hMem
      split at h
      · next hParams =>
          cases h
          exact ⟨f, hMem, by simpa using hName, by simpa using hParams⟩
      · cases h

theorem routine_eq_ok_iff
    {p : Program}
    {f : Function}
    {r : Routine} :
    p.routine f = .ok r ↔
      f.checkVariables = .ok () ∧
        f.checkLabels = .ok () ∧
        ∃ code,
          (p.scope f).steps f.code = .ok code ∧
            r = f.withSteps code := by
  simp only [routine, Outcome.bind_eq_ok, Outcome.pure_eq_ok]
  constructor
  · rintro ⟨_, hVariables, _, hLabels, code, hCode, rfl⟩
    exact ⟨hVariables, hLabels, code, hCode, rfl⟩
  · rintro ⟨hVariables, hLabels, code, hCode, rfl⟩
    exact ⟨(), hVariables, (), hLabels, code, hCode, rfl⟩

end Program

/- A program is accepted when it passes every check. -/
theorem verify_eq_ok_iff
    {p : Program}
    {exe : Executable} :
    verify p = .ok exe ↔
      p.checkLimits = .ok () ∧
        p.checkFunctions = .ok exe.entry ∧
        List.Forall₂ (fun f r => p.routine f = .ok r)
          p.functions exe.routines.toList := by
  simp only [verify, Outcome.bind_eq_ok, Outcome.pure_eq_ok,
    Outcome.mapM_eq_ok]
  constructor
  · rintro ⟨_, hLimits, entry, hEntry, routines, hRoutines, rfl⟩
    exact ⟨hLimits, hEntry, hRoutines⟩
  · rintro ⟨hLimits, hEntry, hRoutines⟩
    exact ⟨(), hLimits, exe.entry, hEntry, exe.routines.toList,
      hRoutines, rfl⟩

/- The functions' names are checked before the entry is found. -/
theorem checkFunctions_eq_ok_iff
    {p : Program}
    {index : Nat} :
    p.checkFunctions = .ok index ↔
      checkNames [] p.functions = .ok () ∧ p.entry = .ok index := by
  unfold Program.checkFunctions
  split
  · next h => simp [h]
  · next h => simp [h]

------------------------------------------------------------
-- Routines and Their Functions
------------------------------------------------------------

variable {p : Program} {exe : Executable}

/- Each routine is that of the function of its number. -/
theorem exists_function_of_routine
    (hVerify : verify p = .ok exe)
    {index : Nat}
    {r : Routine}
    (hRoutine : exe.routines[index]? = some r) :
    ∃ f, p.functions[index]? = some f ∧ p.routine f = .ok r := by
  rcases verify_eq_ok_iff.mp hVerify with ⟨_, _, hRoutines⟩
  apply Outcome.exists_left hRoutines
  simpa using hRoutine

/- Each function has the routine of its number. -/
theorem exists_routine_of_function
    (hVerify : verify p = .ok exe)
    {index : Nat}
    {f : Function}
    (hFunction : p.functions[index]? = some f) :
    ∃ r, exe.routines[index]? = some r ∧ p.routine f = .ok r := by
  rcases verify_eq_ok_iff.mp hVerify with ⟨_, _, hRoutines⟩
  rcases Outcome.exists_right hRoutines hFunction with
    ⟨r, hGet, hRoutine⟩
  exact ⟨r, by simpa using hGet, hRoutine⟩

/- Each step is the action that its instruction lowers to. -/
theorem exists_instruction_of_step
    {f : Function}
    {r : Routine}
    (hRoutine : p.routine f = .ok r)
    {pc : Nat}
    {st : Step}
    (hStep : r.code[pc]? = some st) :
    ∃ i,
      f.code[pc]? = some i ∧
        (p.scope f).Lowers i.opcode i.operands st.action ∧
        st.line = i.line := by
  rcases Program.routine_eq_ok_iff.mp hRoutine with
    ⟨_, _, code, hCode, rfl⟩
  apply Outcome.exists_left (Scope.steps_eq_ok_iff.mp hCode)
  simpa [Function.withSteps] using hStep

end ThreeAddress
