import ThreeAddress.Proofs.Safety

/-
  This file compares the values of a run with the types that
  the program declares. Every store converts its value to the
  type of the location, but the binding of an argument does
  not: a parameter that is a `float` holds an integer when an
  integer is passed for it. This is the only exception, and
  without it operations choose between integers and
  floating-point numbers by the types that the verifier
  found.

  Key definitions include:
    * `Cell.HasDeclaredType`
    * `Machine.RespectsTypes`
    * `Machine.ChoosesByStaticTypes`
    * `Executable.WidensArgument`

  Main statements:
    * `Machine.Typed.respectsTypes`
    * `declared_types_hold_iff_no_int_bound_to_float`
-/

namespace ThreeAddress

variable {strict : Bool} {exe : Executable} {cfg : Config}
variable {r : Routine} {f : Frame} {rest : List Frame}
variable {memory : Array Value}

------------------------------------------------------------
-- Declared Types
------------------------------------------------------------

/- What a cell holds has the type declared for its slot. -/
def Cell.HasDeclaredType
    (memory : Array Value)
    (s : Slot) : Cell → Prop
| .scalar v => s.shape = .scalar v.scalar
| .array base length =>
    ∃ t, s.shape = .array t length ∧ HoldsType memory t base length

/- The cell is an integer for a parameter that is a `float`. -/
def Cell.IsUnconverted (s : Slot) (c : Cell) : Prop :=
  s.param = true ∧
    s.shape = .scalar .float ∧
    ∃ n, c = .scalar (.int n)

/- A property holds of all slots and cells of a machine. -/
def Machine.EachCell
    {ω : Type}
    (exe : Executable)
    (P : Slot → Cell → Prop)
    (m : Machine ω) : Prop :=
  ∀ f ∈ m.frames,
    ∃ r,
      exe.routines[f.routine]? = some r ∧
        ∀ (id : Nat) (s : Slot),
          r.slots[id]? = some s →
            ∃ c, f.cells[id]? = some c ∧ P s c

/- Every cell and every element has its declared type. -/
def Machine.RespectsTypes
    {ω : Type}
    (exe : Executable)
    (m : Machine ω) : Prop :=
  m.EachCell exe (Cell.HasDeclaredType m.memory)

theorem Cell.Fits.hasDeclaredType
    {limit : Nat}
    {s : Slot}
    {c : Cell}
    (h : c.Fits strict memory limit s) :
    c.HasDeclaredType memory s ∨
      strict = false ∧ c.IsUnconverted s := by
  cases h with
  | array hShape _ hElements => exact .inl ⟨_, hShape, hElements⟩
  | @scalar t v hShape hType =>
      by_cases hSame : v.scalar = t
      · subst hSame
        exact .inl hShape
      · refine .inr ?_
        have hAccepts := hType.accepts
        cases strict with
        | true => exact absurd hType hSame
        | false =>
            cases hParam : s.param with
            | false =>
                rw [hParam] at hType
                exact absurd hType hSame
            | true =>
                cases v with
                | float x =>
                    cases t with
                    | int => cases hAccepts
                    | float => exact absurd rfl hSame
                | int n =>
                    cases t with
                    | int => exact absurd rfl hSame
                    | float => exact ⟨rfl, hParam, hShape, n, rfl⟩

/- A cell of its declared type fits strictly if it fits. -/
theorem Cell.HasDeclaredType.fits
    {limit : Nat}
    {s : Slot}
    {c : Cell}
    (h : c.HasDeclaredType memory s)
    (hFits : c.Fits false memory limit s) :
    c.Fits strict memory limit s := by
  apply hFits.strengthen
  intro _ n hShape hCell
  subst hCell
  have hInt : s.shape = .scalar .int := h
  rw [hShape] at hInt
  cases hInt

namespace Machine

variable {ω : Type}
variable {m m' : Machine ω}

/- Every cell of a typed machine fits its slot. -/
theorem Typed.eachCell
    (hTyped : m.Typed strict exe) :
    m.EachCell exe
      (fun s c => c.Fits strict m.memory m.memory.size s) := by
  intro f hf
  rcases StackTyped.exists_typed hTyped f hf with
    ⟨r, hRoutine, hFrame⟩
  exact ⟨r, hRoutine, hFrame.cell⟩

theorem EachCell.imp
    {P Q : Slot → Cell → Prop}
    (h : m.EachCell exe P)
    (hImp : ∀ s c, P s c → Q s c) :
    m.EachCell exe Q := by
  intro f hf
  rcases h f hf with ⟨r, hRoutine, hCells⟩
  refine ⟨r, hRoutine, ?_⟩
  intro id s hSlot
  rcases hCells id s hSlot with ⟨c, hCell, hc⟩
  exact ⟨c, hCell, hImp s c hc⟩

/- A strictly typed machine respects the declared types. -/
theorem Typed.respectsTypes
    (hTyped : m.Typed true exe) :
    m.RespectsTypes exe := by
  refine hTyped.eachCell.imp ?_
  intro s c hFits
  rcases hFits.hasDeclaredType with hType | ⟨hFalse, _⟩
  · exact hType
  · cases hFalse

/- The running frame is strictly typed where types hold. -/
theorem RespectsTypes.exists_context
    (hTyped : m.Typed strict exe)
    (hTypes : m.RespectsTypes exe)
    (hFrames : m.frames = f :: rest) :
    ∃ r,
      exe.routines[f.routine]? = some r ∧
        Context.Typed true ⟨r, f, m.memory⟩ := by
  rcases hTyped.exists_context hFrames with
    ⟨r, hRoutine, hContext, _⟩
  have hFrame : f ∈ m.frames := by
    rw [hFrames]
    exact List.mem_cons_self
  rcases hTypes f hFrame with ⟨r', hRoutine', hCells⟩
  rw [hRoutine] at hRoutine'
  cases hRoutine'
  refine ⟨r, hRoutine, hContext.size, ?_⟩
  intro id s hSlot
  rcases hContext.cell id s hSlot with ⟨c, hCell, hFits⟩
  rcases hCells id s hSlot with ⟨c', hCell', hType⟩
  rw [hCell] at hCell'
  cases hCell'
  exact ⟨c, hCell, hType.fits hFits.weaken⟩

end Machine

------------------------------------------------------------
-- Bound Arguments
------------------------------------------------------------

/- Parameters take the arguments in order. -/
theorem exists_getElem?_bindCells
    {slots : List Slot}
    {args : List Cell}
    {position : Nat}
    {s : Slot}
    {c : Cell}
    (base : Nat)
    (hSlot : (slots.filter Slot.param)[position]? = some s)
    (hArg : args[position]? = some c) :
    ∃ id : Nat,
      slots[id]? = some s ∧
        (bindCells slots args base)[id]? = some c := by
  induction slots generalizing args position base with
  | nil => cases hSlot
  | cons q slots ih =>
      rw [bindCells.eq_def]
      dsimp only
      by_cases hParam : q.param = true
      · rw [List.filter_cons_of_pos hParam] at hSlot
        rw [if_pos hParam]
        cases args with
        | nil => cases hArg
        | cons arg args =>
            cases position with
            | zero =>
                cases hSlot
                cases hArg
                exact ⟨0, rfl, rfl⟩
            | succ position =>
                rcases ih base hSlot hArg with ⟨id, hGet, hBound⟩
                exact ⟨id + 1, hGet, hBound⟩
      · rw [List.filter_cons_of_neg hParam] at hSlot
        rw [if_neg hParam]
        cases hShape : q.shape with
        | scalar t =>
            rcases ih base hSlot hArg with ⟨id, hGet, hBound⟩
            exact ⟨id + 1, hGet, hBound⟩
        | array t n =>
            rcases ih (base + n) hSlot hArg with ⟨id, hGet, hBound⟩
            exact ⟨id + 1, hGet, hBound⟩

namespace Machine

variable {ω : Type} [Sink ω]
variable {m m' : Machine ω}

/- A call that goes through pushes the frame of its callee. -/
theorem frames_of_call
    {dest : Option Place}
    {index line : Nat}
    {args : List Argument}
    {cells : List Cell}
    {q : Routine}
    (hFrames : m.frames = f :: rest)
    (hRoutine : exe.routines[f.routine]? = some r)
    (hStep : r.code[f.pc]? =
      some ⟨.call dest (.routine index) args, line⟩)
    (hArguments :
      Context.arguments ⟨r, f, m.memory⟩ args = .ok cells)
    (hCallee : exe.routines[index]? = some q)
    (h : m.step exe cfg = .running m') :
    m'.frames =
      Frame.ofCall index q cells dest m.memory.size (f.below + 1) ::
        f :: rest := by
  rcases exists_entered_of_call hFrames hRoutine hStep h with
    ⟨cells', q', hArguments', hCallee', rfl⟩
  rw [hArguments] at hArguments'
  cases hArguments'
  rw [hCallee] at hCallee'
  cases hCallee'
  rfl

/- An integer that is passed for a `float` is not converted. -/
theorem not_respectsTypes_of_passesIntForFloat
    (hPasses : m.PassesIntForFloat exe)
    (h : m.step exe cfg = .running m') :
    ¬ m'.RespectsTypes exe := by
  rcases hPasses with ⟨f, rest, r, hFrames, hRoutine, hCall⟩
  rcases hCall with
    ⟨dest, index, args, line, cells, q, position, s, n,
      hStep, hArguments, hCallee, hSlot, hShape, hCell⟩
  have hFrames' :=
    frames_of_call hFrames hRoutine hStep hArguments hCallee h
  intro hTypes
  have hNew :
      Frame.ofCall index q cells dest m.memory.size (f.below + 1) ∈
        m'.frames := by
    rw [hFrames']
    exact List.mem_cons_self
  rcases hTypes _ hNew with ⟨q', hCallee', hCells⟩
  have hSame : exe.routines[index]? = some q' := hCallee'
  rw [hCallee] at hSame
  cases hSame
  rcases exists_getElem?_bindCells m.memory.size hSlot hCell with
    ⟨id, hGet, hBound⟩
  rcases hCells id s (by simpa using hGet) with ⟨c, hc, hType⟩
  have hInt : c = .scalar (.int n) := by
    simpa [Frame.ofCall, hBound] using hc.symm
  subst hInt
  have hShape' : s.shape = .scalar .int := hType
  rw [hShape] at hShape'
  cases hShape'

/- A run that binds no integer to a `float` is strictly typed. -/
theorem Typed.of_reachable_strict
    {input : Input}
    {output : ω}
    (hExe : exe.WellTyped)
    (hBinds : ∀ m m' : Machine ω,
      Reachable exe cfg input output m → m.Typed true exe →
        m.step exe cfg = .running m' →
          ¬ m.PassesIntForFloat exe)
    (h : Reachable exe cfg input output m) :
    m.Typed true exe := by
  apply h.invariant
  · intro m hEnter
    exact Typed.of_enter hExe hEnter
  · intro m m' hReachable hTyped hStep
    refine hTyped.of_step hExe ?_ hStep
    intro _
    exact hBinds m m' hReachable hTyped hStep

end Machine

------------------------------------------------------------
-- Calls That Widen
------------------------------------------------------------

/-
  Some call passes an operand of type `int` for a parameter
  that is declared a `float`.
-/
def Executable.WidensArgument (exe : Executable) : Prop :=
  ∃ (index pc : Nat) (r : Routine) (dest : Option Place)
    (callee : Nat) (args : List Argument) (line : Nat)
    (q : Routine) (position : Nat) (src : Source) (s : Slot),
    exe.routines[index]? = some r ∧
      r.code[pc]? = some ⟨.call dest (.routine callee) args, line⟩ ∧
      exe.routines[callee]? = some q ∧
      args[position]? = some (.value src) ∧
      src.HasType r.slots .int ∧
      (q.slots.toList.filter Slot.param)[position]? = some s ∧
      s.shape = .scalar .float

/- In a strict machine an integer comes from an `int` operand. -/
theorem Machine.Typed.widensArgument
    {ω : Type}
    {m : Machine ω}
    (hExe : exe.WellTyped)
    (hTyped : m.Typed true exe)
    (hPasses : m.PassesIntForFloat exe) :
    exe.WidensArgument := by
  rcases hPasses with ⟨f, rest, r, hFrames, hRoutine, hCall⟩
  rcases hCall with
    ⟨dest, callee, args, line, cells, q, position, s, n,
      hStep, hArguments, hCallee, hSlot, hShape, hCell⟩
  rcases hTyped.exists_context hFrames with
    ⟨r', hRoutine', hContext, _⟩
  rw [hRoutine] at hRoutine'
  cases hRoutine'
  rcases Outcome.exists_left (Outcome.mapM_eq_ok.mp hArguments)
    hCell with ⟨arg, hArg, hBound⟩
  have hAction := hExe.action f.routine r f.pc _ hRoutine hStep
  cases hAction with
  | call hSignature hPassed _ =>
      rcases Outcome.exists_right hPassed hArg with
        ⟨shape, _, hPass⟩
      cases hPass with
      | array hGet hArray =>
          rcases Context.exists_slotArray hContext hGet hArray with
            ⟨base, hFound, _⟩
          simp [Context.argument, hFound, Except.map] at hBound
      | @value src t u hSource _ =>
          rcases Outcome.map_eq_ok.mp hBound with ⟨v, hRead, hValue⟩
          cases hValue
          have hType : Scalar.int = u :=
            (Context.read_gives hContext hSource).of_ok hRead
          subst hType
          exact ⟨f.routine, f.pc, r, dest, callee, args, line, q,
            position, src, s, hRoutine, hStep, hCallee, hArg,
            hSource, hSlot, hShape⟩

------------------------------------------------------------
-- Operations Chosen by Types
------------------------------------------------------------

/- The action computes with two operands, or compares them. -/
inductive Action.Combines : Action → Source → Source → Prop where
| arith
    (op : ArithOp)
    (dest : Place)
    (lhs rhs : Source) :
    Combines (.arith op dest lhs rhs) lhs rhs
| branch
    (cond : Cond)
    (target : Nat)
    (lhs rhs : Source) :
    Combines (.branch cond target lhs rhs) lhs rhs

/-
  Operations on the values and comparisons of them are made
  on numbers of a type.
-/
def Value.CombineAs (a b : Value) : Scalar → Prop
| .int =>
    ∃ k n,
      a = .int k ∧ b = .int n ∧
        (∀ op, arith op a b = (arithInt op k n).map .int) ∧
        ∀ cond : Cond, cond.holds a b = cond.holdsInt k n
| .float =>
    (∀ op, arith op a b =
        (arithSingle op a.toSingle b.toSingle).map .float) ∧
      ∀ cond : Cond,
        cond.holds a b = cond.holdsSingle a.toSingle b.toSingle

/- Values are combined as numbers of their wider type. -/
theorem Value.combineAs_widen
    (a b : Value) :
    a.CombineAs b (a.scalar.widen b.scalar) := by
  cases a with
  | float x => cases b <;> exact ⟨fun _ => rfl, fun _ => rfl⟩
  | int k =>
      cases b with
      | float x => exact ⟨fun _ => rfl, fun _ => rfl⟩
      | int n => exact ⟨k, n, rfl, rfl, fun _ => rfl, fun _ => rfl⟩

/-
  The values of the operands that the machine is about to
  combine have the types that the verifier found for the
  operands, and are combined as these types say.
-/
def Machine.ChoosesByStaticTypes
    {ω : Type}
    (p : Program)
    (exe : Executable)
    (m : Machine ω) : Prop :=
  ∀ (f : Frame) (rest : List Frame) (r : Routine) (st : Step)
    (lhs rhs : Source) (a b : Value),
    m.frames = f :: rest →
    exe.routines[f.routine]? = some r →
    r.code[f.pc]? = some st →
    st.action.Combines lhs rhs →
    Context.read ⟨r, f, m.memory⟩ lhs = .ok a →
    Context.read ⟨r, f, m.memory⟩ rhs = .ok b →
      ∃ fn i z x y zs t u,
        p.functions[f.routine]? = some fn ∧
          fn.code[f.pc]? = some i ∧
          i.operands = z :: x :: y :: zs ∧
          (p.scope fn).source x = .ok (lhs, t) ∧
          (p.scope fn).source y = .ok (rhs, u) ∧
          a.scalar = t ∧
          b.scalar = u ∧
          a.CombineAs b (t.widen u)

/- The operands of an action are those of its instruction. -/
theorem Scope.Lowers.exists_operands
    {s : Scope}
    {op : Opcode}
    {xs : List Operand}
    {action : Action}
    {lhs rhs : Source}
    (h : s.Lowers op xs action)
    (hCombines : action.Combines lhs rhs) :
    ∃ z x y zs t u,
      xs = z :: x :: y :: zs ∧
        s.ResolvesSource x lhs t ∧
        s.ResolvesSource y rhs u := by
  cases hCombines with
  | arith =>
      cases h with
      | arith _ hLeft hRight _ =>
          exact ⟨_, _, _, _, _, _, rfl, hLeft, hRight⟩
  | branch =>
      cases h with
      | branch _ hLeft hRight =>
          exact ⟨_, _, _, _, _, _, rfl, hLeft, hRight⟩

theorem Machine.RespectsTypes.choosesByStaticTypes
    {ω : Type}
    {p : Program}
    {m : Machine ω}
    (hVerify : verify p = .ok exe)
    (hTyped : m.Typed strict exe)
    (hTypes : m.RespectsTypes exe) :
    m.ChoosesByStaticTypes p exe := by
  intro f rest r st lhs rhs a b hFrames hRoutine hStep hCombines
    hLeft hRight
  rcases hTypes.exists_context hTyped hFrames with
    ⟨r', hRoutine', hContext⟩
  rw [hRoutine] at hRoutine'
  cases hRoutine'
  rcases exists_function_of_routine hVerify hRoutine with
    ⟨fn, hFunction, hMade⟩
  rcases exists_instruction_of_step hMade hStep with
    ⟨i, hInstruction, hLowers, _⟩
  rcases hLowers.exists_operands hCombines with
    ⟨z, x, y, zs, t, u, hOperands, hx, hy⟩
  rcases Program.routine_eq_ok_iff.mp hMade with
    ⟨_, _, code, _, rfl⟩
  have ha : a.scalar = t :=
    (Context.read_gives hContext hx.hasType).of_ok hLeft
  have hb : b.scalar = u :=
    (Context.read_gives hContext hy.hasType).of_ok hRight
  refine ⟨fn, i, z, x, y, zs, t, u, hFunction, hInstruction,
    hOperands, Scope.source_eq_ok_iff.mpr hx,
    Scope.source_eq_ok_iff.mpr hy, ha, hb, ?_⟩
  rw [← ha, ← hb]
  exact a.combineAs_widen b

------------------------------------------------------------
-- Verified Programs and Their Declared Types
------------------------------------------------------------

/-
  In every run of a verified program every element has the
  type of its array, and every value the type of its slot,
  except for parameters that are `float` and were passed an
  integer. Nothing else breaks the declared types: they hold
  throughout a run just when no call of the run binds an
  integer to a `float`, which no run does when no call is
  written that way. Where they hold, the values that are
  combined have the types that the verifier found.
-/
theorem declared_types_hold_iff_no_int_bound_to_float
    {p : Program}
    {exe : Executable}
    (hVerify : verify p = .ok exe)
    {ω : Type}
    [Sink ω]
    (cfg : Config)
    (input : Input)
    (output : ω) :
    (∀ m : Machine ω, Machine.Reachable exe cfg input output m →
      m.EachCell exe fun s c =>
        c.HasDeclaredType m.memory s ∨ c.IsUnconverted s) ∧
    ((∀ m : Machine ω, Machine.Reachable exe cfg input output m →
        m.RespectsTypes exe) ↔
      ∀ m m' : Machine ω,
        Machine.Reachable exe cfg input output m →
        m.step exe cfg = .running m' →
          ¬ m.PassesIntForFloat exe) ∧
    (¬ exe.WidensArgument →
      ∀ m : Machine ω, Machine.Reachable exe cfg input output m →
        m.RespectsTypes exe) ∧
    ∀ m : Machine ω, Machine.Reachable exe cfg input output m →
      m.RespectsTypes exe → m.ChoosesByStaticTypes p exe := by
  have hExe := Executable.wellTyped_of_verify hVerify
  refine ⟨?_, ⟨?_, ?_⟩, ?_, ?_⟩
  · intro m hReachable
    have hTyped := Machine.Typed.of_reachable hExe hReachable
    refine hTyped.eachCell.imp ?_
    intro s c hFits
    rcases hFits.hasDeclaredType with hType | ⟨_, hInt⟩
    · exact .inl hType
    · exact .inr hInt
  · intro hTypes m m' hReachable hStep hPasses
    exact Machine.not_respectsTypes_of_passesIntForFloat hPasses
      hStep (hTypes m' (.step hReachable hStep))
  · intro hBinds m hReachable
    refine (Machine.Typed.of_reachable_strict hExe ?_
      hReachable).respectsTypes
    intro m m' hBefore _ hStep
    exact hBinds m m' hBefore hStep
  · intro hWidens m hReachable
    refine (Machine.Typed.of_reachable_strict hExe ?_
      hReachable).respectsTypes
    intro m m' _ hTyped _ hPasses
    exact hWidens (hTyped.widensArgument hExe hPasses)
  · intro m hReachable hTypes
    exact hTypes.choosesByStaticTypes hVerify
      (Machine.Typed.of_reachable hExe hReachable)

/- A program that passes a number to a `float` to be halved. -/
def halving (x : Operand) : Program :=
  { functions :=
      [{ name := "half"
         returns := .void
         params := [⟨"x", .scalar .float⟩]
         ints := []
         floats := [⟨"y", .float, none, 3⟩]
         code :=
           [⟨.div, [.var "y", .var "x", .int 2], 4⟩,
            ⟨.call, [.function "putf", .var "y"], 5⟩]
         labels := []
         line := 2 },
       { name := "main"
         returns := .void
         params := []
         ints := []
         floats := []
         code := [⟨.call, [.function "half", x], 9⟩]
         labels := []
         line := 8 }] }

/- The executable of the program. -/
def halvingExecutable (src : Source) : Executable :=
  { routines :=
      #[{ name := "half"
          returns := .void
          params := [0]
          slots :=
            #[⟨"x", .scalar .float, true⟩,
              ⟨"y", .scalar .float, false⟩]
          code :=
            #[⟨.arith .div (.slot 1) (.place (.slot 0)) (.int 2), 4⟩,
              ⟨.call none (.intrinsic .putf)
                [.value (.place (.slot 1))], 5⟩]
          labels := [] },
        { name := "main"
          returns := .void
          params := []
          slots := #[]
          code := #[⟨.call none (.routine 0) [.value src], 9⟩]
          labels := [] }]
    entry := 1 }

theorem verify_halving_int
    (n : Int32) :
    verify (halving (.int n)) = .ok (halvingExecutable (.int n)) := by
  rfl

theorem verify_halving_float
    (x : Single) :
    verify (halving (.float x)) =
      .ok (halvingExecutable (.float x)) := by
  rfl

/- An integer is bound to the parameter as it is. -/
theorem halving_int_passesIntForFloat
    (n : Int32) :
    ∃ m m',
      Machine.Reachable (halvingExecutable (.int n)) {}
          (Input.ofString "") Buffer.empty m ∧
        m.step (halvingExecutable (.int n)) {} = .running m' ∧
        m.PassesIntForFloat (halvingExecutable (.int n)) := by
  refine ⟨_, _, .start rfl, rfl, ?_⟩
  exact ⟨_, _, _, rfl, rfl, none, 0, _, 9, _, _, 0, _, n,
    rfl, rfl, rfl, rfl, rfl, rfl⟩

theorem not_widensArgument_halving_float
    (x : Single) :
    ¬ (halvingExecutable (.float x)).WidensArgument := by
  intro hWidens
  rcases hWidens with
    ⟨index, pc, r, dest, callee, args, line, q, position, src, s,
      hRoutine, hStep, _, hArg, hType, _, _⟩
  match index with
  | 0 =>
      cases hRoutine
      match pc with
      | 0 => cases hStep
      | 1 => cases hStep
      | pc + 2 => cases hStep
  | 1 =>
      cases hRoutine
      match pc with
      | 0 =>
          cases hStep
          match position with
          | 0 =>
              cases hArg
              cases hType
          | position + 1 => simp at hArg
      | pc + 1 => cases hStep
  | index + 2 => simp [halvingExecutable] at hRoutine

/- Both sides occur: the half of 1.0, and the half of 1. -/
theorem declared_types_of_halving :
    (verify (halving (.float (Single.ofInt 1))) =
        .ok (halvingExecutable (.float (Single.ofInt 1))) ∧
      ∀ m,
        Machine.Reachable
            (halvingExecutable (.float (Single.ofInt 1))) {}
            (Input.ofString "") Buffer.empty m →
          m.RespectsTypes
            (halvingExecutable (.float (Single.ofInt 1)))) ∧
    verify (halving (.int 1)) = .ok (halvingExecutable (.int 1)) ∧
      ¬ ∀ m,
        Machine.Reachable (halvingExecutable (.int 1)) {}
            (Input.ofString "") Buffer.empty m →
          m.RespectsTypes (halvingExecutable (.int 1)) := by
  refine ⟨⟨verify_halving_float _, ?_⟩, verify_halving_int 1, ?_⟩
  · rcases declared_types_hold_iff_no_int_bound_to_float
      (verify_halving_float (Single.ofInt 1)) {} (Input.ofString "")
      Buffer.empty with ⟨_, _, hNarrow, _⟩
    exact hNarrow (not_widensArgument_halving_float _)
  · rcases declared_types_hold_iff_no_int_bound_to_float
      (verify_halving_int 1) {} (Input.ofString "")
      Buffer.empty with ⟨_, hIff, _, _⟩
    intro hTypes
    rcases halving_int_passesIntForFloat 1 with
      ⟨m, m', hReachable, hStep, hPasses⟩
    exact hIff.mp hTypes m m' hReachable hStep hPasses

/- The half of 1, passed as an integer, is 0. -/
theorem half_of_integer_breaks_declared_types :
    verify (halving (.int 1)) = .ok (halvingExecutable (.int 1)) ∧
      (∃ m,
        Machine.Reachable (halvingExecutable (.int 1)) {}
            (Input.ofString "") Buffer.empty m ∧
          ¬ m.RespectsTypes (halvingExecutable (.int 1))) ∧
      (evaluate (halvingExecutable (.int 1)) "" {} 8).map
          Report.output = some "0.0" := by
  refine ⟨verify_halving_int 1, ?_, ?_⟩
  · rcases halving_int_passesIntForFloat 1 with
      ⟨m, m', hReachable, hStep, hPasses⟩
    exact ⟨m', .step hReachable hStep,
      Machine.not_respectsTypes_of_passesIntForFloat hPasses hStep⟩
  · decide

end ThreeAddress
