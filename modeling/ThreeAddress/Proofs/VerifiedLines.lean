import ThreeAddress.Verification
import ThreeAddress.Proofs.Outcome
import ThreeAddress.Proofs.PrintableProgram

/-
  This file shows that the lines of a program matter to the
  verifier only for what it reports. A program without its
  lines is accepted just when the program is, with the same
  executable up to the lines of its steps, and it is rejected
  for the same cause at the same place up to lines.

  Key definitions include:
    * `Rejection.eraseLines`
    * `Executable.eraseLines`
    * `Lineless`

  Main statements:
    * `Program.checkLimits_eraseLines`
    * `Program.checkFunctions_eraseLines`
    * `Program.routine_eraseLines`
    * `verify_eraseLines`
-/

namespace ThreeAddress

------------------------------------------------------------
-- Rejections and Executables Up to Lines
------------------------------------------------------------

/- The location without its line, if it has one. -/
def Location.eraseLine (l : Location) : Location :=
  { l with line := l.line.map fun _ => 0 }

/- The cause without the line of what came first. -/
def DeclarationCause.eraseLine : DeclarationCause → DeclarationCause
| .duplicateFunction name _ => .duplicateFunction name 0
| .duplicateLabel label _ => .duplicateLabel label 0
| cause => cause

/- The cause without the line of what came first. -/
def RejectionCause.eraseLine : RejectionCause → RejectionCause
| .declaration cause => .declaration cause.eraseLine
| .type cause => .type cause

/- The rejection without its lines. -/
def Rejection.eraseLines (r : Rejection) : Rejection :=
  { location := r.location.eraseLine
    cause := r.cause.eraseLine }

/- The step without its line. -/
def Step.eraseLine (s : Step) : Step :=
  { s with line := 0 }

/- The routine without the lines of its steps. -/
def Routine.eraseLines (r : Routine) : Routine :=
  { r with code := r.code.map Step.eraseLine }

/- The executable without the lines of its steps. -/
def Executable.eraseLines (exe : Executable) : Executable :=
  { exe with routines := exe.routines.map Routine.eraseLines }

/- The variable without its line. -/
def Variable.eraseLine (v : Variable) : Variable :=
  { v with line := 0 }

------------------------------------------------------------
-- Sizes and Variables
------------------------------------------------------------

/- The variables are those of the function, without lines. -/
theorem Function.vars_eraseLines
    (f : Function) :
    f.eraseLines.vars = f.vars.map Variable.eraseLine := by
  simp only [vars, locals, eraseLines, List.map_append,
    List.map_map]
  rfl

theorem Function.slots_eraseLines
    (f : Function) :
    f.eraseLines.slots = f.slots := by
  simp only [slots, vars_eraseLines, List.map_map]
  rfl

theorem Function.labelTable_eraseLines
    (f : Function) :
    f.eraseLines.labelTable = f.labelTable := by
  simp only [labelTable, eraseLines, List.map_map]
  rfl

theorem checkLengths_eraseLine
    (function : String)
    (vs : List Variable) :
    checkLengths function (vs.map Variable.eraseLine) =
      Outcome.bimap Rejection.eraseLines id
        (checkLengths function vs) := by
  induction vs with
  | nil => rfl
  | cons v vs ih =>
      have hSlot : v.eraseLine.slot = v.slot := rfl
      rw [List.map_cons, checkLengths, checkLengths, hSlot]
      split
      · exact ih
      · split
        · rfl
        · exact ih

theorem Function.checkLimits_eraseLines
    (f : Function) :
    f.eraseLines.checkLimits =
      Outcome.bimap Rejection.eraseLines id f.checkLimits := by
  have hLength : f.eraseLines.code.length = f.code.length :=
    List.length_map _
  rw [checkLimits, checkLimits, hLength, vars_eraseLines]
  split
  · rfl
  · exact checkLengths_eraseLine f.name f.vars

/- The sizes of a program are checked up to lines. -/
theorem Program.checkLimits_eraseLines
    (p : Program) :
    p.eraseLines.checkLimits =
      Outcome.bimap Rejection.eraseLines id p.checkLimits :=
  Outcome.bimap_forM Function.checkLimits_eraseLines p.functions

theorem checkVariablesFrom_eraseLine
    (function : String)
    (seen : List String)
    (vs : List Variable) :
    checkVariablesFrom function seen (vs.map Variable.eraseLine) =
      Outcome.bimap Rejection.eraseLines id
        (checkVariablesFrom function seen vs) := by
  induction vs generalizing seen with
  | nil => rfl
  | cons v vs ih =>
      have hSlot : v.eraseLine.slot = v.slot := rfl
      rw [List.map_cons, checkVariablesFrom, checkVariablesFrom,
        hSlot]
      by_cases hEmpty : v.slot.shape.isEmptyArray = true
      · rw [if_pos hEmpty, if_pos hEmpty]
        rfl
      · rw [if_neg hEmpty, if_neg hEmpty]
        by_cases hSeen : v.slot.name ∈ seen
        · rw [if_pos hSeen, if_pos hSeen]
          rfl
        · rw [if_neg hSeen, if_neg hSeen]
          exact ih _

theorem Function.checkVariables_eraseLines
    (f : Function) :
    f.eraseLines.checkVariables =
      Outcome.bimap Rejection.eraseLines id f.checkVariables := by
  rw [checkVariables, vars_eraseLines]
  exact checkVariablesFrom_eraseLine f.name [] f.vars

------------------------------------------------------------
-- Labels
------------------------------------------------------------

theorem checkLabelNames_eraseLine
    (function : String)
    (seen ls : List LabelDef) :
    checkLabelNames function (seen.map LabelDef.eraseLine)
        (ls.map LabelDef.eraseLine) =
      Outcome.bimap Rejection.eraseLines id
        (checkLabelNames function seen ls) := by
  induction ls generalizing seen with
  | nil => rfl
  | cons l ls ih =>
      have hFind :
          (seen.map LabelDef.eraseLine).find?
              (fun m => m.name = l.eraseLine.name) =
            (seen.find? fun m => m.name = l.name).map
              LabelDef.eraseLine :=
        List.find?_map
      rw [List.map_cons, checkLabelNames, checkLabelNames, hFind]
      cases seen.find? fun m => m.name = l.name with
      | some first => rfl
      | none => exact ih (l :: seen)

theorem checkTargets_eraseLine
    (function : String)
    (table : List (String × Nat))
    (code : List Instruction) :
    checkTargets function table (code.map Instruction.eraseLine) =
      Outcome.bimap Rejection.eraseLines id
        (checkTargets function table code) := by
  induction code with
  | nil => rfl
  | cons i code ih =>
      have hTarget : i.eraseLine.target? = i.target? := rfl
      rw [List.map_cons, checkTargets, checkTargets, hTarget]
      split
      · exact ih
      · split
        · exact ih
        · rfl

theorem Function.checkLabels_eraseLines
    (f : Function) :
    f.eraseLines.checkLabels =
      Outcome.bimap Rejection.eraseLines id f.checkLabels := by
  have hNames :
      checkLabelNames f.eraseLines.name [] f.eraseLines.labels =
        Outcome.bimap Rejection.eraseLines id
          (checkLabelNames f.name [] f.labels) :=
    checkLabelNames_eraseLine f.name [] f.labels
  rw [checkLabels, checkLabels, labelTable_eraseLines, hNames]
  cases checkLabelNames f.name [] f.labels with
  | error r => rfl
  | ok _ => exact checkTargets_eraseLine f.name f.labelTable f.code

------------------------------------------------------------
-- Functions
------------------------------------------------------------

theorem checkNames_eraseLines
    (seen fs : List Function) :
    checkNames (seen.map Function.eraseLines)
        (fs.map Function.eraseLines) =
      Outcome.bimap Rejection.eraseLines id
        (checkNames seen fs) := by
  induction fs generalizing seen with
  | nil => rfl
  | cons f fs ih =>
      have hFind :
          (seen.map Function.eraseLines).find?
              (fun g => g.name = f.eraseLines.name) =
            (seen.find? fun g => g.name = f.name).map
              Function.eraseLines :=
        List.find?_map
      have hName : f.eraseLines.name = f.name := rfl
      rw [List.map_cons, checkNames, checkNames, hFind, hName]
      split
      · rfl
      · cases seen.find? fun g => g.name = f.name with
        | some first => rfl
        | none => exact ih (f :: seen)

namespace Program

/- The functions keep their numbers. -/
theorem zipIdx_eraseLines
    (p : Program) :
    p.eraseLines.functions.zipIdx =
      p.functions.zipIdx.map (Prod.map Function.eraseLines id) :=
  List.zipIdx_map

theorem entry_eraseLines
    (p : Program) :
    p.eraseLines.entry =
      Outcome.bimap Rejection.eraseLines id p.entry := by
  rw [entry, entry, zipIdx_eraseLines, List.find?_map]
  have hSame :
      ((fun x : Function × Nat => decide (x.1.name = entryName)) ∘
          Prod.map Function.eraseLines id) =
        fun x => decide (x.1.name = entryName) := rfl
  rw [hSame]
  cases p.functions.zipIdx.find? fun x => x.1.name = entryName with
  | none => rfl
  | some found =>
      simp only [Option.map_some, Prod.map, id, Function.eraseLines]
      split <;> rfl

/- The names of a program are checked up to lines. -/
theorem checkFunctions_eraseLines
    (p : Program) :
    p.eraseLines.checkFunctions =
      Outcome.bimap Rejection.eraseLines id p.checkFunctions := by
  have hNames :
      checkNames [] p.eraseLines.functions =
        Outcome.bimap Rejection.eraseLines id
          (checkNames [] p.functions) :=
    checkNames_eraseLines [] p.functions
  rw [checkFunctions, checkFunctions, entry_eraseLines, hNames]
  cases checkNames [] p.functions <;> rfl

theorem signatures_eraseLines
    (p : Program) :
    p.eraseLines.signatures = p.signatures := by
  rw [signatures, signatures, zipIdx_eraseLines, List.map_map]
  rfl

/- Names stand for the same, whatever the lines. -/
theorem scope_eraseLines
    (p : Program)
    (f : Function) :
    p.eraseLines.scope f.eraseLines = p.scope f := by
  simp only [scope, Function.slots_eraseLines,
    Function.labelTable_eraseLines, signatures_eraseLines]
  rfl

end Program

------------------------------------------------------------
-- Instructions
------------------------------------------------------------

/- If there is no result, then for a cause without a line. -/
def Lineless {α : Type} (x : Except RejectionCause α) : Prop :=
  Outcome.bimap RejectionCause.eraseLine id x = x

namespace Lineless

variable {α β : Type}

theorem bind
    {x : Except RejectionCause α}
    {k : α → Except RejectionCause β}
    (hx : Lineless x)
    (hk : ∀ a, Lineless (k a)) :
    Lineless (x >>= k) := by
  have hBind :
      Outcome.bimap RejectionCause.eraseLine id x >>= k =
        Outcome.bimap RejectionCause.eraseLine id (x >>= k) :=
    Outcome.bimap_bind x fun a => (hk a).symm
  rw [hx] at hBind
  exact hBind.symm

theorem ok
    (a : α) :
    Lineless (.ok a : Except RejectionCause α) :=
  rfl

end Lineless

namespace Scope

variable (s : Scope)

theorem lineless_scalar
    (name : String) :
    Lineless (s.scalar name) := by
  unfold scalar
  split <;> rfl

theorem lineless_array
    (name : String) :
    Lineless (s.array name) := by
  unfold array
  split <;> rfl

theorem lineless_index
    (array : String)
    (i : Index String) :
    Lineless (s.index array i) := by
  cases i with
  | const n => exact .ok _
  | var name =>
      apply (s.lineless_scalar name).bind
      rintro ⟨id, _ | _⟩ <;> rfl

theorem lineless_element
    (array : String)
    (i : Index String) :
    Lineless (s.element array i) := by
  apply (s.lineless_array array).bind
  intro found
  apply (s.lineless_index array i).bind
  intro j
  exact .ok _

theorem lineless_place
    (x : Operand) :
    Lineless (s.place x) := by
  cases x with
  | var name =>
      apply (s.lineless_scalar name).bind
      intro found
      exact .ok _
  | element a i => exact s.lineless_element a i
  | int | float | label | function => rfl

theorem lineless_source
    (x : Operand) :
    Lineless (s.source x) := by
  cases x with
  | var name =>
      apply (s.lineless_scalar name).bind
      intro found
      exact .ok _
  | element a i =>
      apply (s.lineless_element a i).bind
      intro found
      exact .ok _
  | int | float | label | function => rfl

theorem lineless_arrayOperand
    (x : Operand) :
    Lineless (s.arrayOperand x) := by
  cases x with
  | var name => exact s.lineless_array name
  | element | int | float | label | function => rfl

theorem lineless_indexOperand
    (array x : Operand) :
    Lineless (s.indexOperand array x) := by
  apply (s.lineless_source x).bind
  rintro ⟨src, _ | _⟩ <;> rfl

theorem lineless_target
    (x : Operand) :
    Lineless (s.target x) := by
  cases x with
  | label name =>
      unfold target
      dsimp only
      split <;> rfl
  | var | element | int | float | function => rfl

theorem lineless_calleeName
    (x : Operand) :
    Lineless (calleeName x) := by
  cases x <;> rfl

theorem lineless_checkStore
    (target : String)
    (expected found : Scalar) :
    Lineless (checkStore target expected found) := by
  unfold checkStore
  split <;> rfl

theorem lineless_argument
    (callee : String)
    (position : Nat)
    (x : Operand)
    (shape : Shape) :
    Lineless (s.argument callee position x shape) := by
  cases shape with
  | scalar expected =>
      apply (s.lineless_source x).bind
      intro found
      apply (lineless_checkStore _ _ _).bind
      intro _
      exact .ok _
  | array t n =>
      unfold argument
      dsimp only
      split
      · split
        · rfl
        · split <;> rfl
      · rfl

theorem lineless_arguments
    (callee : String)
    (position : Nat)
    (xs : List Operand)
    (shapes : List Shape) :
    Lineless (s.arguments callee position xs shapes) := by
  induction xs generalizing position shapes with
  | nil => exact .ok _
  | cons x xs ih =>
      cases shapes with
      | nil => exact .ok _
      | cons shape shapes =>
          apply (s.lineless_argument callee position x shape).bind
          intro arg
          apply (ih (position + 1) shapes).bind
          intro args
          exact .ok _

theorem eraseLine_of_checkSite
    {signatures : List (String × Signature)}
    {name : String}
    {args : Nat}
    {dest : Option Scalar}
    {cause : DeclarationCause}
    (h : checkSite signatures name args dest = .error cause) :
    cause.eraseLine = cause := by
  unfold checkSite at h
  split at h
  · cases h
    rfl
  · split at h
    · cases h
      rfl
    · split at h
      · cases h
      · cases h
        rfl
      · split at h
        · cases h
        · cases h
          rfl

theorem lineless_call
    (name : String)
    (xs : List Operand)
    (dest : Option Scalar) :
    Lineless (s.call name xs dest) := by
  unfold call
  split
  · next cause hSite =>
      exact congrArg (fun c => Except.error (RejectionCause.declaration c))
        (eraseLine_of_checkSite hSite)
  · next signature _ =>
      apply (s.lineless_arguments name 1 xs signature.params).bind
      intro args
      exact .ok _

theorem lineless_ret
    (value : Option Operand) :
    Lineless (s.ret value) := by
  unfold ret
  split
  · rfl
  · rfl
  · rfl
  · next expected x _ =>
      apply (s.lineless_source x).bind
      intro found
      apply (lineless_checkStore _ _ _).bind
      intro _
      exact .ok _

theorem lineless_operand
    (xs : List Operand)
    (position : Nat) :
    Lineless (operand xs position) := by
  unfold operand
  split <;> rfl

/- No cause that an instruction is refused for has a line. -/
theorem lineless_action
    (op : Opcode)
    (xs : List Operand) :
    Lineless (s.action op xs) := by
  cases op using Opcode.byFamily with
  | assign =>
      refine (lineless_operand xs 0).bind fun d => ?_
      refine (s.lineless_place d).bind fun dest => ?_
      refine (lineless_operand xs 1).bind fun x => ?_
      refine (s.lineless_source x).bind fun src => ?_
      exact (lineless_checkStore _ _ _).bind fun _ => .ok _
  | arith op =>
      rw [action_arith]
      refine (lineless_operand xs 0).bind fun d => ?_
      refine (s.lineless_place d).bind fun dest => ?_
      refine (lineless_operand xs 1).bind fun x => ?_
      refine (s.lineless_source x).bind fun lhs => ?_
      refine (lineless_operand xs 2).bind fun y => ?_
      refine (s.lineless_source y).bind fun rhs => ?_
      exact (lineless_checkStore _ _ _).bind fun _ => .ok _
  | bit op =>
      rw [action_bit]
      refine (lineless_operand xs 0).bind fun d => ?_
      refine (s.lineless_place d).bind fun dest => ?_
      refine (lineless_operand xs 1).bind fun x => ?_
      refine (s.lineless_source x).bind fun lhs => ?_
      refine (lineless_operand xs 2).bind fun y => ?_
      refine (s.lineless_source y).bind fun rhs => ?_
      dsimp only
      split
      · rfl
      · exact (lineless_checkStore _ _ _).bind fun _ => .ok _
  | goto =>
      refine (lineless_operand xs 0).bind fun l => ?_
      exact (s.lineless_target l).bind fun _ => .ok _
  | branch cond =>
      rw [action_branch]
      refine (lineless_operand xs 0).bind fun l => ?_
      refine (s.lineless_target l).bind fun target => ?_
      refine (lineless_operand xs 1).bind fun x => ?_
      refine (s.lineless_source x).bind fun lhs => ?_
      refine (lineless_operand xs 2).bind fun y => ?_
      exact (s.lineless_source y).bind fun _ => .ok _
  | ret => exact s.lineless_ret xs.head?
  | call =>
      refine (lineless_operand xs 0).bind fun x => ?_
      refine (lineless_calleeName x).bind fun name => ?_
      exact (s.lineless_call name _ none).bind fun _ => .ok _
  | callr =>
      refine (lineless_operand xs 0).bind fun d => ?_
      refine (s.lineless_place d).bind fun dest => ?_
      refine (lineless_operand xs 1).bind fun x => ?_
      refine (lineless_calleeName x).bind fun name => ?_
      exact (s.lineless_call name _ _).bind fun _ => .ok _
  | load =>
      refine (lineless_operand xs 0).bind fun d => ?_
      refine (s.lineless_place d).bind fun dest => ?_
      refine (lineless_operand xs 1).bind fun a => ?_
      refine (s.lineless_arrayOperand a).bind fun array => ?_
      refine (lineless_operand xs 2).bind fun x => ?_
      refine (s.lineless_indexOperand a x).bind fun index => ?_
      exact (lineless_checkStore _ _ _).bind fun _ => .ok _
  | store =>
      refine (lineless_operand xs 0).bind fun x => ?_
      refine (s.lineless_source x).bind fun value => ?_
      refine (lineless_operand xs 1).bind fun a => ?_
      refine (s.lineless_arrayOperand a).bind fun array => ?_
      refine (lineless_operand xs 2).bind fun y => ?_
      refine (s.lineless_indexOperand a y).bind fun index => ?_
      exact (lineless_checkStore _ _ _).bind fun _ => .ok _

/- The step of an instruction is made up to its line. -/
theorem step_eraseLine
    (i : Instruction) :
    s.step i.eraseLine =
      Outcome.bimap Rejection.eraseLines Step.eraseLine
        (s.step i) := by
  have hAction := s.lineless_action i.opcode i.operands
  unfold step
  simp only [Instruction.eraseLine]
  cases hResult : s.action i.opcode i.operands with
  | ok action => rfl
  | error cause =>
      rw [hResult] at hAction
      have hCause : cause.eraseLine = cause := by
        injection hAction
      simp only [Outcome.bimap, Rejection.eraseLines, hCause]
      rfl

end Scope

/- The routine of a function is made up to lines. -/
theorem Program.routine_eraseLines
    (p : Program)
    (f : Function) :
    p.eraseLines.routine f.eraseLines =
      Outcome.bimap Rejection.eraseLines Routine.eraseLines
        (p.routine f) := by
  simp only [routine, scope_eraseLines,
    Function.checkVariables_eraseLines,
    Function.checkLabels_eraseLines]
  apply Outcome.bimap_bind
  intro _
  apply Outcome.bimap_bind
  intro _
  have hSteps :
      (p.scope f).steps f.eraseLines.code =
        Outcome.bimap Rejection.eraseLines (List.map Step.eraseLine)
          ((p.scope f).steps f.code) :=
    Outcome.bimap_mapM (p.scope f).step_eraseLine f.code
  rw [hSteps]
  apply Outcome.bimap_bind
  intro code
  simp [Outcome.bimap, pure, Except.pure, Routine.eraseLines,
    Function.eraseLines, Function.paramSlots_eq_range]

/- A program is verified up to lines. -/
theorem verify_eraseLines
    (p : Program) :
    verify p.eraseLines =
      Outcome.bimap Rejection.eraseLines Executable.eraseLines
        (verify p) := by
  simp only [verify, Program.checkLimits_eraseLines,
    Program.checkFunctions_eraseLines]
  apply Outcome.bimap_bind
  intro _
  apply Outcome.bimap_bind
  intro entry
  have hRoutines :
      p.eraseLines.functions.mapM p.eraseLines.routine =
        Outcome.bimap Rejection.eraseLines
          (List.map Routine.eraseLines)
          (p.functions.mapM p.routine) :=
    Outcome.bimap_mapM p.routine_eraseLines p.functions
  rw [hRoutines]
  apply Outcome.bimap_bind
  intro routines
  simp [Outcome.bimap, pure, Except.pure, Executable.eraseLines]

end ThreeAddress
