import ThreeAddress.Proofs.TypedAccess

/-
  This file shows that the machines of a run stay typed: every
  step of a well-typed executable keeps the frames and the
  memory so. They stay strictly typed as long as no call
  passes an integer for a parameter that is a `float`.

  Key definitions include:
    * `Frame.PassesIntForFloat`, `Machine.PassesIntForFloat`
    * `Machine.Typed`

  Main statements:
    * `StackTyped.of_transition`
    * `Machine.Typed.of_step`
    * `Machine.Typed.of_reachable`
-/

namespace ThreeAddress

variable {strict : Bool} {exe : Executable} {cfg : Config}
variable {r : Routine} {f : Frame} {rest : List Frame}
variable {memory : Array Value}

------------------------------------------------------------
-- Typed Frames Stay Typed
------------------------------------------------------------

/-
  The frame is about to call a routine, with an integer for a
  parameter that is declared a `float`.
-/
def Frame.PassesIntForFloat
    (exe : Executable)
    (r : Routine)
    (memory : Array Value)
    (f : Frame) : Prop :=
  ∃ (dest : Option Place) (index : Nat) (args : List Argument)
    (line : Nat) (cells : List Cell) (q : Routine)
    (position : Nat) (s : Slot) (n : Int32),
    r.code[f.pc]? = some ⟨.call dest (.routine index) args, line⟩ ∧
      Context.arguments ⟨r, f, memory⟩ args = .ok cells ∧
      exe.routines[index]? = some q ∧
      (q.slots.toList.filter Slot.param)[position]? = some s ∧
      s.shape = .scalar .float ∧
      cells[position]? = some (.scalar (.int n))

/- A cell that fits strictly fits. -/
theorem Cell.Fits.weaken
    {limit : Nat}
    {s : Slot}
    {c : Cell}
    (h : c.Fits strict memory limit s) :
    c.Fits false memory limit s := by
  cases h with
  | array hShape hInside hElements =>
      exact .array hShape hInside hElements
  | scalar hShape hType =>
      refine .scalar hShape ?_
      cases strict with
      | false => exact hType
      | true => exact Value.fits_of_scalar_eq hType

/- A cell that fits does so strictly, integers for floats apart. -/
theorem Cell.Fits.strengthen
    {limit : Nat}
    {s : Slot}
    {c : Cell}
    (h : c.Fits false memory limit s)
    (hStrict : strict = true →
      ∀ n, s.shape = .scalar .float → c ≠ .scalar (.int n)) :
    c.Fits strict memory limit s := by
  cases strict with
  | false => exact h
  | true =>
      cases h with
      | array hShape hInside hElements =>
          exact .array hShape hInside hElements
      | @scalar t v hShape hType =>
          refine .scalar hShape ?_
          have hAccepts := hType.accepts
          cases v with
          | int n =>
              cases t with
              | int => exact rfl
              | float => exact absurd rfl (hStrict rfl n hShape)
          | float x =>
              cases t with
              | int => cases hAccepts
              | float => exact rfl

/- Arguments that fit do so strictly under the same proviso. -/
theorem Cell.fits_strengthen
    {limit : Nat}
    {cells : List Cell}
    {params : List Slot}
    (h :
      List.Forall₂ (fun c s => Cell.Fits false memory limit s c)
        cells params)
    (hStrict : strict = true →
      ∀ (position : Nat) (s : Slot) (n : Int32),
        params[position]? = some s → s.shape = .scalar .float →
          cells[position]? ≠ some (.scalar (.int n))) :
    List.Forall₂ (fun c s => Cell.Fits strict memory limit s c)
      cells params := by
  induction h with
  | nil => exact .nil
  | cons hHead _ ih =>
      refine .cons ?_ (ih ?_)
      · apply hHead.strengthen
        intro hs n hShape hc
        subst hc
        exact hStrict hs 0 _ n rfl hShape rfl
      · intro hs position s n hGet hShape
        exact hStrict hs (position + 1) s n hGet hShape

/- A call of a well-typed routine pushes a typed frame. -/
theorem StackTyped.call
    {line index : Nat}
    {dest : Option Place}
    {args : List Argument}
    {cells : List Cell}
    {q : Routine}
    (hExe : exe.WellTyped)
    (hRoutine : exe.routines[f.routine]? = some r)
    (hStrict : strict = true → ¬ f.PassesIntForFloat exe r memory)
    (hTyped : StackTyped strict exe memory memory.size (f :: rest))
    (hStep : r.code[f.pc]? =
      some ⟨.call dest (.routine index) args, line⟩)
    (hArguments : Context.arguments ⟨r, f, memory⟩ args = .ok cells)
    (hCallee : exe.routines[index]? = some q)
    (below : Nat) :
    StackTyped strict exe (allocate memory q.slots)
      (allocate memory q.slots).size
      (Frame.ofCall index q cells dest memory.size below ::
        f :: rest) := by
  have hAction := hExe.action f.routine r f.pc _ hRoutine hStep
  cases hAction with
  | call hSignature hPasses hPlace =>
      cases hSignature with
      | @routine _ q' hCallee' =>
          rw [hCallee] at hCallee'
          cases hCallee'
          rcases hTyped with
            ⟨⟨r', hRoutine', hFrame, hReturns⟩, hMark, hRest⟩
          rw [hRoutine] at hRoutine'
          cases hRoutine'
          have hParams : ∀ s ∈ q.slots.toList.filter Slot.param,
              s.param = true := by
            intro s hs
            exact (List.mem_filter.mp hs).2
          have hContext : Context.Typed strict ⟨r, f, memory⟩ := hFrame
          have hCells :=
            (Context.arguments_gives hContext hParams hPasses).of_ok
              hArguments
          have hFits :
              List.Forall₂
                (fun c s =>
                  Cell.Fits strict memory memory.size s c)
                cells (q.slots.toList.filter Slot.param) := by
            apply Cell.fits_strengthen hCells
            intro hs position s n hSlot hShape hCell
            exact hStrict hs
              ⟨dest, index, args, line, cells, q, position, s, n,
                hStep, hArguments, hCallee, hSlot, hShape, hCell⟩
          rcases sameTypes_foldl_allocateSlot q.slots.toList memory
            with ⟨hGrows, hTypes⟩
          rw [← allocate_eq_foldl] at hGrows hTypes
          have hBelow :
              StackTyped strict exe memory memory.size (f :: rest) :=
            ⟨⟨r, hRoutine, hFrame, hReturns⟩, hMark, hRest⟩
          refine ⟨⟨q, hCallee,
              Frame.typed_ofCall index dest below hFits, ?_⟩,
            hGrows, hBelow.of_sameTypes hTypes⟩
          intro p hp
          rcases hPlace p hp with ⟨t, hType, hResult⟩
          exact ⟨f, rest, r, t, rfl, hRoutine, hType, hResult⟩

/- A transition keeps the stack typed. -/
theorem StackTyped.of_transition
    {frames : List Frame}
    {memory' : Array Value}
    (hExe : exe.WellTyped)
    (hRoutine : exe.routines[f.routine]? = some r)
    (hStrict : strict = true → ¬ f.PassesIntForFloat exe r memory)
    (hTyped : StackTyped strict exe memory memory.size (f :: rest))
    (h : Transition exe cfg r f rest memory frames memory') :
    StackTyped strict exe memory' memory'.size frames := by
  cases h with
  | moved _ _ => exact hTyped.move _
  | wrote _ hTarget => exact hTyped.write hRoutine hTarget
  | ended hBelow =>
      subst hBelow
      trivial
  | returned hBelow =>
      subst hBelow
      exact hTyped.shrink.move _
  | delivered _ _ hBelow hCaller _ hTarget =>
      subst hBelow
      exact hTyped.shrink.write hCaller
        (Context.locates_of_target hTarget)
  | called hStep hArguments hCallee _ _ =>
      exact hTyped.call hExe hRoutine hStrict hStep hArguments
        hCallee _

namespace Machine

variable {ω : Type}
variable {m m' : Machine ω}

/- The frames are typed, in the whole of the memory. -/
def Typed (strict : Bool) (exe : Executable) (m : Machine ω) : Prop :=
  StackTyped strict exe m.memory m.memory.size m.frames

/-
  The next step calls a routine with an integer for a
  parameter that is declared a `float`.
-/
def PassesIntForFloat (exe : Executable) (m : Machine ω) : Prop :=
  ∃ f rest r,
    m.frames = f :: rest ∧
      exe.routines[f.routine]? = some r ∧
      f.PassesIntForFloat exe r m.memory

/- The running frame of a typed machine is typed. -/
theorem Typed.exists_context
    (hTyped : m.Typed strict exe)
    (hFrames : m.frames = f :: rest) :
    ∃ r,
      exe.routines[f.routine]? = some r ∧
        Context.Typed strict ⟨r, f, m.memory⟩ ∧
        f.ReturnsTo exe r rest := by
  unfold Typed at hTyped
  rw [hFrames] at hTyped
  rcases hTyped with ⟨⟨r, hRoutine, hFrame, hReturns⟩, _, _⟩
  exact ⟨r, hRoutine, hFrame, hReturns⟩

/- The machine with the first frame is typed. -/
theorem Typed.of_enter
    {input : Input}
    {output : ω}
    (hExe : exe.WellTyped)
    (h : (Machine.initial input output).enter exe cfg none
      exe.entry [] none = .running m) :
    m.Typed strict exe := by
  unfold enter at h
  split at h
  · cases h
  · next q hAdmission =>
      cases h
      rcases admission_eq_ok hAdmission with ⟨hEntry, _, _⟩
      rcases hExe.entry with ⟨q', hEntry', hShapes⟩
      rw [hEntry] at hEntry'
      cases hEntry'
      have hParams : q.slots.toList.filter Slot.param = [] :=
        List.map_eq_nil_iff.mp hShapes
      have hArgs :
          List.Forall₂
            (fun c s =>
              Cell.Fits strict (#[] : Array Value) 0 s c)
            [] (q.slots.toList.filter Slot.param) := by
        rw [hParams]
        exact .nil
      exact ⟨⟨q, hEntry, Frame.typed_ofCall _ none 0 hArgs, nofun⟩,
        Nat.zero_le _, trivial⟩

variable [Sink ω]

/- A step keeps a machine typed. -/
theorem Typed.of_step
    (hExe : exe.WellTyped)
    (hTyped : m.Typed strict exe)
    (hStrict : strict = true → ¬ m.PassesIntForFloat exe)
    (h : m.step exe cfg = .running m') :
    m'.Typed strict exe := by
  rcases exists_frame_of_step h with ⟨f, rest, hFrames⟩
  rcases hTyped.exists_context hFrames with ⟨r, hRoutine, _, _⟩
  have hTransition := transition_of_step hFrames hRoutine h
  unfold Typed at hTyped
  rw [hFrames] at hTyped
  refine hTyped.of_transition hExe hRoutine ?_ hTransition
  intro hs hPasses
  exact hStrict hs ⟨f, rest, r, hFrames, hRoutine, hPasses⟩

/- Every machine of a run is typed, integers for floats apart. -/
theorem Typed.of_reachable
    {input : Input}
    {output : ω}
    (hExe : exe.WellTyped)
    (h : Reachable exe cfg input output m) :
    m.Typed false exe := by
  apply h.invariant
  · intro m hEnter
    exact Typed.of_enter hExe hEnter
  · intro m m' _ hTyped hStep
    exact hTyped.of_step hExe nofun hStep

end Machine

end ThreeAddress
