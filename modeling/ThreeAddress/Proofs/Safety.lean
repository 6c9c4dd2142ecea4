import ThreeAddress.Proofs.Preservation

/-
  This file shows that verified programs do not go wrong. In
  a typed machine a step of a well-typed executable refers to
  nothing that is missing, so that it fails only for what the
  verifier cannot know: the values, the input and output, and
  the limits of the run.

  Key definitions include:
    * `Action.slots`, `Action.callee?`
    * `Executable.InRange`, `Machine.InRange`
    * `PositionsInside`

  Main statements:
    * `Machine.isExpected_of_step`
    * `PositionsInside.of_reachable`
    * `run_of_verify_never_goes_wrong`
-/

namespace ThreeAddress

variable {strict : Bool} {exe : Executable} {cfg : Config}
variable {r : Routine} {f : Frame} {rest : List Frame}

------------------------------------------------------------
-- Results of Operations
------------------------------------------------------------

/- An operation on narrower types has a narrower result. -/
theorem Scalar.accepts_widen
    {t u v a b : Scalar}
    (h : t.accepts (u.widen v) = true)
    (ha : u.accepts a = true)
    (hb : v.accepts b = true) :
    t.accepts (a.widen b) = true := by
  cases t <;> cases u <;> cases v <;> cases a <;> cases b <;>
    simp_all [Scalar.accepts, Scalar.widen]

theorem arithInt_gives
    (op : ArithOp)
    (a b : Int32) :
    Gives (fun _ => True) (arithInt op a b) := by
  cases op with
  | add => trivial
  | sub => trivial
  | mult => trivial
  | div =>
      simp only [arithInt]
      split
      · exact rfl
      · trivial

theorem arithSingle_gives
    (op : ArithOp)
    (a b : Single) :
    Gives (fun _ => True) (arithSingle op a b) := by
  cases op with
  | add => trivial
  | sub => trivial
  | mult => trivial
  | div =>
      simp only [arithSingle]
      split
      · exact rfl
      · trivial

/- Arithmetic has the wider type of its operands. -/
theorem arith_gives
    (op : ArithOp)
    (a b : Value) :
    Gives (fun c => c.scalar = a.scalar.widen b.scalar)
      (arith op a b) := by
  have hSingle :
      Gives (fun c => c.scalar = .float)
        ((arithSingle op a.toSingle b.toSingle).map Value.float) :=
    (arithSingle_gives op _ _).map fun _ _ => rfl
  cases a with
  | float x => cases b <;> exact hSingle
  | int m =>
      cases b with
      | float x => exact hSingle
      | int n => exact (arithInt_gives op m n).map fun _ _ => rfl

/- Bitwise operations on integers go through. -/
theorem bitwise_gives
    (op : BitOp)
    {a b : Value}
    (ha : a.Fits strict .int)
    (hb : b.Fits strict .int) :
    Gives (fun c => c.scalar = .int) (bitwise op a b) := by
  rcases ha.exists_int with ⟨m, rfl⟩
  rcases hb.exists_int with ⟨n, rfl⟩
  exact rfl

namespace Context

variable {x : Context}

theorem copied_gives
    {dest : Place}
    {src : Source}
    {t u : Scalar}
    (hTyped : x.Typed strict)
    (hPlace : dest.HasType x.routine.slots t)
    (hSource : src.HasType x.routine.slots u)
    (hAccepts : t.accepts u = true) :
    Gives (fun _ => True) (x.copied dest src) := by
  apply (read_gives hTyped hSource).bind
  intro v hFits
  exact target_gives hTyped hPlace
    (Scalar.accepts_trans hAccepts hFits.accepts)

theorem computed_gives
    {op : Value → Value → Except FaultCause Value}
    {dest : Place}
    {lhs rhs : Source}
    {t u v : Scalar}
    (hTyped : x.Typed strict)
    (hPlace : dest.HasType x.routine.slots t)
    (hLeft : lhs.HasType x.routine.slots u)
    (hRight : rhs.HasType x.routine.slots v)
    (hResult : ∀ a b, a.Fits strict u → b.Fits strict v →
      Gives (fun c => t.accepts c.scalar = true) (op a b)) :
    Gives (fun _ => True) (x.computed op dest lhs rhs) := by
  apply (read_gives hTyped hLeft).bind
  intro a ha
  apply (read_gives hTyped hRight).bind
  intro b hb
  apply (hResult a b ha hb).bind
  intro c hAccepts
  exact target_gives hTyped hPlace hAccepts

theorem loaded_gives
    {dest : Place}
    {array n : Nat}
    {index : Source}
    {s : Slot}
    {t u : Scalar}
    (hTyped : x.Typed strict)
    (hPlace : dest.HasType x.routine.slots t)
    (hSlot : x.routine.slots[array]? = some s)
    (hShape : s.shape = .array u n)
    (hIndex : index.HasType x.routine.slots .int)
    (hAccepts : t.accepts u = true) :
    Gives (fun _ => True) (x.loaded dest array index) := by
  apply (read_gives hTyped hIndex).bind
  intro i hi
  apply (address_gives hTyped hSlot hShape hi).bind
  intro address hAddress
  apply (fetch_gives hAddress).bind
  intro v hType
  apply target_gives hTyped hPlace
  rw [hType]
  exact hAccepts

theorem stored_gives
    {value : Source}
    {array n : Nat}
    {index : Source}
    {s : Slot}
    {t u : Scalar}
    (hTyped : x.Typed strict)
    (hSource : value.HasType x.routine.slots u)
    (hSlot : x.routine.slots[array]? = some s)
    (hShape : s.shape = .array t n)
    (hIndex : index.HasType x.routine.slots .int)
    (hAccepts : t.accepts u = true) :
    Gives (fun _ => True) (x.stored value array index) := by
  apply (read_gives hTyped hSource).bind
  intro v hFits
  apply (read_gives hTyped hIndex).bind
  intro i hi
  apply (address_gives hTyped hSlot hShape hi).bind
  intro address hAddress
  exact storeTarget_gives hSlot hShape hAddress
    (Scalar.accepts_trans hAccepts hFits.accepts)

theorem condition_gives
    {lhs rhs : Source}
    {u v : Scalar}
    (cond : Cond)
    (hTyped : x.Typed strict)
    (hLeft : lhs.HasType x.routine.slots u)
    (hRight : rhs.HasType x.routine.slots v) :
    Gives (fun _ => True) (x.condition cond lhs rhs) := by
  apply (read_gives hTyped hLeft).bind
  intro a _
  apply (read_gives hTyped hRight).bind
  intro b _
  trivial

end Context

------------------------------------------------------------
-- Results of Intrinsic Functions
------------------------------------------------------------

/- The parameters of an intrinsic function, as slots. -/
def Intrinsic.slots (i : Intrinsic) : List Slot :=
  i.params.map fun t =>
    { name := i.name, shape := .scalar t, param := true }

/- The only argument of a function fits its parameter. -/
theorem exists_firstValue
    {memory : Array Value}
    {limit : Nat}
    {cells : List Cell}
    {s : Slot}
    {t : Scalar}
    (hShape : s.shape = .scalar t)
    (hCells :
      List.Forall₂ (fun c s => Cell.Fits false memory limit s c)
        cells [s]) :
    ∃ v,
      Machine.firstValue cells = some v ∧ v.Fits false t := by
  cases hCells with
  | cons hHead _ =>
      cases hHead with
      | scalar hShape' hType =>
          rw [hShape] at hShape'
          cases hShape'
          exact ⟨_, rfl, Value.Fits.accepts hType⟩
      | array hShape' _ _ =>
          rw [hShape] at hShape'
          cases hShape'

namespace Machine

variable {ω : Type}
variable {m m' : Machine ω} {e : Fault}

theorem readInput_gives
    {α : Type}
    {t : Scalar}
    {value : α → Value}
    (m : Machine ω)
    (read : Input → Except ConsoleError α × Input)
    (hType : ∀ a, (value a).scalar = t) :
    Gives (fun found => ∀ v, found = some v → v.scalar = t)
      (m.readInput read value).1 := by
  unfold readInput
  dsimp only
  split
  · exact rfl
  · intro v hFound
    cases hFound
    exact hType _

variable [Sink ω]

theorem writeOutput_gives
    (m : Machine ω)
    (chunk : ByteArray) :
    Gives (fun found => found = none) (m.writeOutput chunk).1 := by
  unfold writeOutput
  dsimp only
  split
  · exact rfl
  · exact rfl

/-
  With arguments that fit, an intrinsic function fails only
  for its input and output or a code of no character, and
  what it hands back has the type that it declares.
-/
theorem intrinsic_gives
    {memory : Array Value}
    {limit : Nat}
    {cells : List Cell}
    (m : Machine ω)
    (i : Intrinsic)
    (hCells :
      List.Forall₂ (fun c s => Cell.Fits false memory limit s c)
        cells i.slots) :
    Gives
      (fun found => ∀ v, found = some v →
        i.returns = .value v.scalar)
      (m.intrinsic i (firstValue cells)).1 := by
  have hNothing : ∀ chunk,
      Gives
        (fun found => ∀ v, found = some v →
          i.returns = .value v.scalar)
        (m.writeOutput chunk).1 := by
    intro chunk
    refine (m.writeOutput_gives chunk).imp ?_
    intro found hNone v hSome
    rw [hNone] at hSome
    cases hSome
  have hRead : ∀ {α : Type} (t : Scalar) (value : α → Value)
      (read : Input → Except ConsoleError α × Input),
      i.returns = .value t → (∀ a, (value a).scalar = t) →
        Gives
          (fun found => ∀ v, found = some v →
            i.returns = .value v.scalar)
          (m.readInput read value).1 := by
    intro α t value read hReturns hType
    refine (m.readInput_gives read hType).imp ?_
    intro found hFound v hSome
    rw [hFound v hSome]
    exact hReturns
  cases i with
  | geti => exact hRead .int _ _ rfl fun _ => rfl
  | getf => exact hRead .float _ _ rfl fun _ => rfl
  | getc => exact hRead .int _ _ rfl fun _ => rfl
  | puti =>
      rcases exists_firstValue rfl hCells with ⟨v, hFirst, hFits⟩
      rcases hFits.exists_int with ⟨n, rfl⟩
      rw [hFirst]
      exact hNothing _
  | putf =>
      rcases exists_firstValue rfl hCells with ⟨v, hFirst, _⟩
      rw [hFirst]
      exact hNothing _
  | putc =>
      rcases exists_firstValue rfl hCells with ⟨v, hFirst, hFits⟩
      rcases hFits.exists_int with ⟨code, rfl⟩
      rw [hFirst]
      unfold intrinsic
      dsimp only
      split
      · exact hNothing _
      · exact rfl

end Machine

------------------------------------------------------------
-- Faults of Steps
------------------------------------------------------------

namespace Machine

variable {ω : Type}
variable {m m' : Machine ω} {e : Fault}

theorem isExpected_of_assign
    {P : Target × Value → Prop}
    {site : Site}
    {result : Except FaultCause (Target × Value)}
    (hResult : Gives P result)
    (h : m.assign site result = .failed m' e) :
    e.cause.isExpected = true := by
  unfold assign at h
  split at h
  · cases h
    exact hResult
  · cases h

/- The value that a frame ends with can be taken. -/
theorem isExpected_of_pop_some
    {v : Value}
    {t : Scalar}
    (hTyped : m.Typed strict exe)
    (hFrames : m.frames = f :: rest)
    (hRoutine : exe.routines[f.routine]? = some r)
    (hReturns : r.returns = .value t)
    (hAccepts : t.accepts v.scalar = true)
    (h : m.pop exe (some v) = .failed m' e) :
    e.cause.isExpected = true := by
  rcases m with ⟨frames, memory, input, output, steps⟩
  cases hFrames
  have hBelow : StackTyped strict exe (memory.shrink f.mark)
      (memory.shrink f.mark).size rest := hTyped.shrink
  rcases hTyped with ⟨⟨r', hRoutine', _, hReturnsTo⟩, _, _⟩
  rw [hRoutine] at hRoutine'
  cases hRoutine'
  cases rest with
  | nil => cases h
  | cons g gs =>
      cases hDest : f.returnTo with
      | none => simp [pop, hDest] at h
      | some dest =>
          rcases hReturnsTo dest hDest with
            ⟨g', gs', q, t', hRest, hCaller, hPlace, hReturns'⟩
          cases hRest
          rw [hReturns] at hReturns'
          cases hReturns'
          rcases hBelow with ⟨⟨q', hCaller', hFrame, _⟩, _, _⟩
          rw [hCaller] at hCaller'
          cases hCaller'
          simp only [pop, hDest, hCaller] at h
          have hContext :
              Context.Typed strict ⟨q, g, memory.shrink f.mark⟩ :=
            hFrame
          exact isExpected_of_assign
            (Context.target_gives hContext hPlace hAccepts) h

/- A call of a routine that exists fails only at the limits. -/
theorem isExpected_of_enter
    {caller : Option Site}
    {index : Nat}
    {cells : List Cell}
    {dest : Option Place}
    (hCallee : exe.routines[index]? = some r)
    (h : m.enter exe cfg caller index cells dest = .failed m' e) :
    e.cause.isExpected = true := by
  unfold enter at h
  split at h
  · next hAdmission =>
      cases h
      simp only [admission, hCallee] at hAdmission
      split at hAdmission
      · cases hAdmission
        exact rfl
      · split at hAdmission
        · cases hAdmission
          exact rfl
        · cases hAdmission
  · cases h

variable [Sink ω]

theorem isExpected_of_callIntrinsic
    {site : Site}
    {dest : Option Place}
    {i : Intrinsic}
    {cells : List Cell}
    (hTyped : Context.Typed strict ⟨r, f, m.memory⟩)
    (hCells :
      List.Forall₂
        (fun c s => Cell.Fits false m.memory m.memory.size s c)
        cells i.slots)
    (hPlace : ∀ p, dest = some p →
      ∃ t, p.HasType r.slots t ∧ i.returns = .value t)
    (h : m.callIntrinsic r f site dest i cells = .failed m' e) :
    e.cause.isExpected = true := by
  have hGives := m.intrinsic_gives i hCells
  have hKept := frames_intrinsic m i (firstValue cells)
  unfold callIntrinsic at h
  split at h
  · next hIntrinsic =>
      cases h
      rw [hIntrinsic] at hGives
      exact hGives
  · next value m₁ hIntrinsic =>
      rw [hIntrinsic] at hGives hKept
      split at h
      · next p v =>
          rcases hPlace p rfl with ⟨t, hType, hReturns⟩
          have hValue := hGives v rfl
          rw [hReturns] at hValue
          cases hValue
          rw [hKept.2] at h
          refine isExpected_of_assign
            (Context.target_gives hTyped hType ?_) h
          cases v.scalar <;> exact rfl
      · cases h

/- A well-typed action fails only as can be expected. -/
theorem isExpected_of_perform
    {site : Site}
    {action : Action}
    (hTyped : m.Typed strict exe)
    (hFrames : m.frames = f :: rest)
    (hRoutine : exe.routines[f.routine]? = some r)
    (hAction : action.WellTyped exe r.slots r.returns)
    (h : m.perform exe cfg r f site action = .failed m' e) :
    e.cause.isExpected = true := by
  rcases hTyped.exists_context hFrames with
    ⟨r', hRoutine', hContext, _⟩
  rw [hRoutine] at hRoutine'
  cases hRoutine'
  cases hAction with
  | assign hPlace hSource hAccepts =>
      exact isExpected_of_assign
        (Context.copied_gives hContext hPlace hSource hAccepts) h
  | @arith op _ _ _ t u v hPlace hLeft hRight hAccepts =>
      have hResult : ∀ a b, a.Fits strict u → b.Fits strict v →
          Gives (fun c => t.accepts c.scalar = true)
            (arith op a b) := by
        intro a b ha hb
        refine (arith_gives op a b).imp ?_
        intro c hType
        rw [hType]
        exact Scalar.accepts_widen hAccepts ha.accepts hb.accepts
      exact isExpected_of_assign
        (Context.computed_gives hContext hPlace hLeft hRight
          hResult) h
  | @bit op _ _ _ t hPlace hLeft hRight =>
      have hResult : ∀ a b, a.Fits strict .int → b.Fits strict .int →
          Gives (fun c => t.accepts c.scalar = true)
            (bitwise op a b) := by
        intro a b ha hb
        refine (bitwise_gives op ha hb).imp ?_
        intro c hType
        rw [hType]
        cases t <;> exact rfl
      exact isExpected_of_assign
        (Context.computed_gives hContext hPlace hLeft hRight
          hResult) h
  | goto target => cases h
  | @branch cond _ _ _ _ _ hLeft hRight =>
      have hCondition :=
        Context.condition_gives cond hContext hLeft hRight
      simp only [perform] at h
      split at h
      · next hCause =>
          cases h
          exact hCondition.isExpected hCause
      · cases h
      · cases h
  | retVoid => exact absurd h pop_none_ne_failed
  | retValue hReturns hSource hAccepts =>
      have hRead := Context.read_gives hContext hSource
      simp only [perform] at h
      split at h
      · next hCause =>
          cases h
          exact hRead.isExpected hCause
      · next v hValue =>
          have hFits := hRead.of_ok hValue
          exact isExpected_of_pop_some hTyped hFrames hRoutine
            hReturns (Scalar.accepts_trans hAccepts hFits.accepts) h
  | call hSignature hPasses hPlace =>
      simp only [perform] at h
      cases hSignature with
      | @routine index q hCallee =>
          have hArguments :=
            Context.arguments_gives hContext
              (fun s hs => (List.mem_filter.mp hs).2) hPasses
          split at h
          · next hCause =>
              cases h
              exact hArguments.isExpected hCause
          · exact isExpected_of_enter hCallee h
      | intrinsic i =>
          have hParams : ∀ s ∈ i.slots, s.param = true := by
            intro s hs
            rcases List.mem_map.mp hs with ⟨t, _, rfl⟩
            rfl
          have hShapes : i.slots.map Slot.shape =
              i.params.map .scalar := by
            simp [Intrinsic.slots]
          rw [← hShapes] at hPasses
          have hArguments :=
            Context.arguments_gives hContext hParams hPasses
          split at h
          · next hCause =>
              cases h
              exact hArguments.isExpected hCause
          · next cells hCells =>
              exact isExpected_of_callIntrinsic hContext
                (hArguments.of_ok hCells) hPlace h
  | load hPlace hSlot hShape hIndex hAccepts =>
      exact isExpected_of_assign
        (Context.loaded_gives hContext hPlace hSlot hShape hIndex
          hAccepts) h
  | store hSource hSlot hShape hIndex hAccepts =>
      exact isExpected_of_assign
        (Context.stored_gives hContext hSource hSlot hShape hIndex
          hAccepts) h

/- A step of a typed machine fails only as can be expected. -/
theorem isExpected_of_step
    (hExe : exe.WellTyped)
    (hTyped : m.Typed strict exe)
    (h : m.step exe cfg = .failed m' e) :
    e.cause.isExpected = true := by
  unfold step at h
  split at h
  · cases h
  · next f rest hFrames =>
      rcases hTyped.exists_context hFrames with
        ⟨r, hRoutine, _, _⟩
      rw [hRoutine] at h
      dsimp only at h
      split at h
      · exact absurd h pop_none_ne_failed
      · next st hStep =>
          split at h
          · cases h
            exact rfl
          · have hTick : m.tick.Typed strict exe := hTyped
            exact isExpected_of_perform hTick hFrames hRoutine
              (hExe.action f.routine r f.pc st hRoutine hStep) h

end Machine

------------------------------------------------------------
-- References in Range
------------------------------------------------------------

/- The slots that a position in an array refers to. -/
def Index.slots : Index Nat → List Nat
| .const _ => []
| .var id => [id]

/- The slots that a place refers to. -/
def Place.slots : Place → List Nat
| .slot id => [id]
| .element id i => id :: i.slots

/- The slots that an operand refers to. -/
def Source.slots : Source → List Nat
| .place p => p.slots
| .int _ => []
| .float _ => []

/- The slots that an argument refers to. -/
def Argument.slots : Argument → List Nat
| .value src => src.slots
| .array id => [id]

/- The slots that an action refers to. -/
def Action.slots : Action → List Nat
| .assign dest src => dest.slots ++ src.slots
| .arith _ dest lhs rhs => dest.slots ++ lhs.slots ++ rhs.slots
| .bit _ dest lhs rhs => dest.slots ++ lhs.slots ++ rhs.slots
| .goto _ => []
| .branch _ _ lhs rhs => lhs.slots ++ rhs.slots
| .ret value => value.toList.flatMap Source.slots
| .call dest _ args =>
    dest.toList.flatMap Place.slots ++ args.flatMap Argument.slots
| .load dest array index => dest.slots ++ array :: index.slots
| .store value array index => value.slots ++ array :: index.slots

/- The routine that an action calls, if it does. -/
def Action.callee? : Action → Option Nat
| .call _ (.routine index) _ => some index
| _ => none

/- Every slot and every routine that is referred to exists. -/
structure Executable.InRange (exe : Executable) : Prop where
  entry : exe.entry < exe.routines.size
  slots :
    ∀ (index : Nat) (r : Routine) (pc : Nat) (st : Step),
      exe.routines[index]? = some r →
      r.code[pc]? = some st →
        ∀ id ∈ st.action.slots, id < r.slots.size
  callee :
    ∀ (index : Nat) (r : Routine) (pc : Nat) (st : Step),
      exe.routines[index]? = some r →
      r.code[pc]? = some st →
        ∀ callee, st.action.callee? = some callee →
          callee < exe.routines.size

/-
  Every frame is one of a routine, with a cell for each slot,
  and the arrays that the cells refer to lie in the memory.
-/
def Machine.InRange
    {ω : Type}
    (exe : Executable)
    (m : Machine ω) : Prop :=
  ∀ f ∈ m.frames,
    ∃ r,
      exe.routines[f.routine]? = some r ∧
        f.cells.size = r.slots.size ∧
        ∀ (id base length : Nat),
          f.cells[id]? = some (.array base length) →
            base + length ≤ m.memory.size

theorem lt_size_of_getElem?
    {α : Type}
    {xs : Array α}
    {i : Nat}
    {a : α}
    (h : xs[i]? = some a) :
    i < xs.size :=
  (Array.getElem?_eq_some_iff.mp h).1

theorem Index.IsInt.lt_size
    {slots : Array Slot}
    {i : Index Nat}
    (h : i.IsInt slots) :
    ∀ id ∈ i.slots, id < slots.size := by
  cases h with
  | const n => nofun
  | var hSlot hShape =>
      intro id hId
      cases List.mem_singleton.mp hId
      exact lt_size_of_getElem? hSlot

theorem Place.HasType.lt_size
    {slots : Array Slot}
    {p : Place}
    {t : Scalar}
    (h : p.HasType slots t) :
    ∀ id ∈ p.slots, id < slots.size := by
  intro id hId
  cases h with
  | slot hSlot hShape =>
      cases List.mem_singleton.mp hId
      exact lt_size_of_getElem? hSlot
  | element hSlot hShape hIndex =>
      rcases List.mem_cons.mp hId with rfl | hId
      · exact lt_size_of_getElem? hSlot
      · exact hIndex.lt_size id hId

theorem Source.HasType.lt_size
    {slots : Array Slot}
    {src : Source}
    {t : Scalar}
    (h : src.HasType slots t) :
    ∀ id ∈ src.slots, id < slots.size := by
  cases h with
  | int n => nofun
  | float x => nofun
  | place hPlace => exact hPlace.lt_size

theorem Argument.Passes.lt_size
    {slots : Array Slot}
    {arg : Argument}
    {shape : Shape}
    (h : arg.Passes slots shape) :
    ∀ id ∈ arg.slots, id < slots.size := by
  cases h with
  | value hSource hAccepts => exact hSource.lt_size
  | array hSlot hShape =>
      intro id hId
      cases List.mem_singleton.mp hId
      exact lt_size_of_getElem? hSlot

/- A well-typed action refers to slots that exist. -/
theorem Action.WellTyped.lt_size
    {slots : Array Slot}
    {returns : ReturnType}
    {action : Action}
    (h : action.WellTyped exe slots returns) :
    ∀ id ∈ action.slots, id < slots.size := by
  intro id hId
  cases h with
  | assign hPlace hSource _ =>
      rcases List.mem_append.mp hId with hId | hId
      · exact hPlace.lt_size id hId
      · exact hSource.lt_size id hId
  | arith hPlace hLeft hRight _ =>
      simp only [Action.slots, List.mem_append] at hId
      rcases hId with (hId | hId) | hId
      · exact hPlace.lt_size id hId
      · exact hLeft.lt_size id hId
      · exact hRight.lt_size id hId
  | bit hPlace hLeft hRight =>
      simp only [Action.slots, List.mem_append] at hId
      rcases hId with (hId | hId) | hId
      · exact hPlace.lt_size id hId
      · exact hLeft.lt_size id hId
      · exact hRight.lt_size id hId
  | goto target => cases hId
  | branch hLeft hRight =>
      rcases List.mem_append.mp hId with hId | hId
      · exact hLeft.lt_size id hId
      · exact hRight.lt_size id hId
  | retVoid => cases hId
  | retValue _ hSource _ =>
      refine hSource.lt_size id ?_
      simpa [Action.slots] using hId
  | @call dest _ _ _ _ _ hPasses hPlace =>
      rcases List.mem_append.mp hId with hId | hId
      · rcases List.mem_flatMap.mp hId with ⟨p, hp, hId⟩
        rcases hPlace p (Option.mem_toList.mp hp) with ⟨t, hType, _⟩
        exact hType.lt_size id hId
      · rcases List.mem_flatMap.mp hId with ⟨arg, hArg, hId⟩
        rcases List.getElem?_of_mem hArg with ⟨k, hGet⟩
        rcases Outcome.exists_right hPasses hGet with
          ⟨shape, _, hPass⟩
        exact hPass.lt_size id hId
  | load hPlace hSlot _ hIndex _ =>
      simp only [Action.slots, List.mem_append, List.mem_cons] at hId
      rcases hId with hId | rfl | hId
      · exact hPlace.lt_size id hId
      · exact lt_size_of_getElem? hSlot
      · exact hIndex.lt_size id hId
  | store hSource hSlot _ hIndex _ =>
      simp only [Action.slots, List.mem_append, List.mem_cons] at hId
      rcases hId with hId | rfl | hId
      · exact hSource.lt_size id hId
      · exact lt_size_of_getElem? hSlot
      · exact hIndex.lt_size id hId

/- A well-typed executable refers to what exists. -/
theorem Executable.WellTyped.inRange
    (hExe : exe.WellTyped) :
    exe.InRange := by
  constructor
  · rcases hExe.entry with ⟨r, hEntry, _⟩
    exact lt_size_of_getElem? hEntry
  · intro index r pc st hRoutine hStep
    exact (hExe.action index r pc st hRoutine hStep).lt_size
  · intro index r pc st hRoutine hStep callee hCallee
    have hAction := hExe.action index r pc st hRoutine hStep
    rcases st with ⟨action, line⟩
    cases hAction with
    | call hSignature _ _ =>
        cases hSignature with
        | routine hFound =>
            cases hCallee
            exact lt_size_of_getElem? hFound
        | intrinsic i => cases hCallee
    | _ => cases hCallee

/- The cells of typed frames refer to what exists. -/
theorem Machine.Typed.inRange
    {ω : Type}
    {m : Machine ω}
    (hTyped : m.Typed strict exe) :
    m.InRange exe := by
  intro f hf
  rcases StackTyped.exists_typed hTyped f hf with
    ⟨r, hRoutine, hFrame⟩
  refine ⟨r, hRoutine, hFrame.size, ?_⟩
  intro id base length hCell
  have hBound : id < r.slots.size := by
    rw [← hFrame.size]
    exact lt_size_of_getElem? hCell
  rcases hFrame.cell id r.slots[id]
    (Array.getElem?_eq_getElem hBound) with ⟨c, hCell', hFits⟩
  rw [hCell] at hCell'
  cases hCell'
  cases hFits with
  | array _ hInside _ => exact hInside

------------------------------------------------------------
-- Positions in the Code
------------------------------------------------------------

/- Every jump goes to a step of the routine, or to its end. -/
def Executable.JumpsInside (exe : Executable) : Prop :=
  ∀ (index : Nat) (r : Routine) (pc : Nat) (st : Step),
    exe.routines[index]? = some r →
    r.code[pc]? = some st →
      ∀ target, st.action.target? = some target →
        target ≤ r.code.size

/-
  The running frame stands at a step or at the end of its
  routine, and every other frame stands at its call.
-/
def PositionsInside (exe : Executable) : List Frame → Prop
| [] => True
| f :: rest =>
    (∃ r, exe.routines[f.routine]? = some r ∧ f.pc ≤ r.code.size) ∧
    ∀ g ∈ rest,
      ∃ r, exe.routines[g.routine]? = some r ∧ g.pc < r.code.size

/- A frame that goes on behind a step stays in its routine. -/
theorem PositionsInside.next
    {w : Value}
    (t : Target)
    (hRoutine : exe.routines[f.routine]? = some r)
    (hPosition : f.pc < r.code.size)
    (hRest : ∀ g ∈ rest,
      ∃ r, exe.routines[g.routine]? = some r ∧
        g.pc < r.code.size) :
    PositionsInside exe ((t.frame w f).next :: rest) := by
  refine ⟨⟨r, ?_, ?_⟩, hRest⟩
  · cases t <;> exact hRoutine
  · cases t <;> exact hPosition

theorem PositionsInside.of_transition
    {memory memory' : Array Value}
    {frames : List Frame}
    (hJumps : exe.JumpsInside)
    (hRoutine : exe.routines[f.routine]? = some r)
    (hInside : PositionsInside exe (f :: rest))
    (h : Transition exe cfg r f rest memory frames memory') :
    PositionsInside exe frames := by
  rcases hInside with ⟨_, hRest⟩
  cases h with
  | moved hStep hPosition =>
      refine ⟨⟨r, hRoutine, ?_⟩, hRest⟩
      rcases hPosition with rfl | hTarget
      · exact lt_size_of_getElem? hStep
      · exact hJumps f.routine r f.pc _ hRoutine hStep _ hTarget
  | @wrote _ _ _ t hStep _ =>
      exact .next t hRoutine (lt_size_of_getElem? hStep) hRest
  | ended _ => trivial
  | returned hBelow =>
      subst hBelow
      rw [List.forall_mem_cons] at hRest
      rcases hRest with ⟨⟨q, hCaller, hPosition⟩, hRest⟩
      exact ⟨⟨q, hCaller, hPosition⟩, hRest⟩
  | @delivered _ _ _ _ _ _ _ _ t _ _ hBelow _ _ _ =>
      subst hBelow
      rw [List.forall_mem_cons] at hRest
      rcases hRest with ⟨⟨q, hCaller, hPosition⟩, hRest⟩
      exact .next t hCaller hPosition hRest
  | called hStep _ hCallee _ _ =>
      refine ⟨⟨_, hCallee, Nat.zero_le _⟩, ?_⟩
      rw [List.forall_mem_cons]
      exact ⟨⟨r, hRoutine, lt_size_of_getElem? hStep⟩, hRest⟩

/- Every frame of a run stands inside its routine. -/
theorem PositionsInside.of_reachable
    {ω : Type}
    [Sink ω]
    {input : Input}
    {output : ω}
    {m : Machine ω}
    (hExe : exe.WellTyped)
    (hJumps : exe.JumpsInside)
    (h : Machine.Reachable exe cfg input output m) :
    PositionsInside exe m.frames := by
  apply h.invariant
  · intro m hEnter
    unfold Machine.enter at hEnter
    split at hEnter
    · cases hEnter
    · next q hAdmission =>
        cases hEnter
        rcases admission_eq_ok hAdmission with ⟨hEntry, _, _⟩
        exact ⟨⟨q, hEntry, Nat.zero_le _⟩, nofun⟩
  · intro m m' hReachable hInside hStep
    rcases Machine.exists_frame_of_step hStep with
      ⟨f, rest, hFrames⟩
    have hTyped := Machine.Typed.of_reachable hExe hReachable
    rcases hTyped.exists_context hFrames with ⟨r, hRoutine, _, _⟩
    rw [hFrames] at hInside
    exact hInside.of_transition hJumps hRoutine
      (Machine.transition_of_step hFrames hRoutine hStep)

/- Jumps go to labels, so they stay inside when labels do. -/
theorem Executable.jumpsInside_of_verify
    {p : Program}
    (hVerify : verify p = .ok exe)
    (hLabels : ∀ f ∈ p.functions, ∀ l ∈ f.labels,
      l.position ≤ f.code.length) :
    exe.JumpsInside := by
  intro index r pc st hGet hStep target hTarget
  rcases exists_function_of_routine hVerify hGet with
    ⟨f, hFunction, hRoutine⟩
  rcases exists_instruction_of_step hRoutine hStep with
    ⟨i, _, hLowers, _⟩
  rcases Program.routine_eq_ok_iff.mp hRoutine with
    ⟨_, _, code, hCode, rfl⟩
  have hLength : f.code.length = code.length :=
    (Scope.steps_eq_ok_iff.mp hCode).length_eq
  have hInside : ∀ (name : String) (position : Nat),
      f.labelTable.lookup name = some position →
        position ≤ (f.withSteps code).code.size := by
    intro name position hLookup
    rcases List.lookup_eq_some_iff.mp hLookup with
      ⟨before, after, hTable, _⟩
    have hMem : (name, position) ∈ f.labelTable := by
      rw [hTable]
      simp
    rcases List.mem_map.mp hMem with ⟨l, hl, hEntry⟩
    cases hEntry
    have hPosition :=
      hLabels f (List.mem_of_getElem? hFunction) l hl
    simpa [Function.withSteps, ← hLength] using hPosition
  rcases st with ⟨action, line⟩
  rcases i with ⟨op, xs, _⟩
  cases hLowers with
  | goto hFound =>
      cases hTarget
      exact hInside _ _ hFound
  | branch hFound _ _ =>
      cases hTarget
      exact hInside _ _ hFound
  | _ => cases hTarget

------------------------------------------------------------
-- Verified Programs Do Not Go Wrong
------------------------------------------------------------

/- A run ends well, or with a fault that can be expected. -/
theorem isExpected_of_start
    {ω : Type}
    [Sink ω]
    {input : Input}
    {output : ω}
    {rounds : Nat}
    {result : Except RunError Unit}
    {run : Run ω}
    (hExe : exe.WellTyped)
    (h : (Run.initial input output).start exe cfg rounds =
      some (result, run)) :
    result = .ok () ∨
      ∃ e, result = .error (.fault e) ∧
        e.cause.isExpected = true := by
  rcases hExe.entry with ⟨q, hEntry, _⟩
  have hMachine : ∀ {outcome : Except Fault Unit} {m : Machine ω},
      Machine.runEntry exe cfg rounds
          (Machine.initial input output) = some (outcome, m) →
        outcome = .ok () ∨
          ∃ e, outcome = .error e ∧ e.cause.isExpected = true := by
    intro outcome m hRun
    unfold Machine.runEntry at hRun
    split at hRun
    · next first hEnter =>
        have hStart : Machine.Reachable exe cfg input output first :=
          .start hEnter
        rcases hStart.exists_last hRun with ⟨last, hLast, hEnd⟩
        have hTyped := Machine.Typed.of_reachable hExe hLast
        rcases hEnd with ⟨hOk, _⟩ | ⟨e, hError, hStep⟩
        · exact .inl hOk
        · exact .inr ⟨e, hError,
            Machine.isExpected_of_step hExe hTyped hStep⟩
    · cases hRun
      exact .inl rfl
    · next e hEnter =>
        cases hRun
        exact .inr ⟨e, rfl,
          Machine.isExpected_of_enter hEntry hEnter⟩
  simp only [Run.start, Run.initial] at h
  split at h
  · cases h
  · next outcome m hRun =>
      cases h
      rcases hMachine hRun with rfl | ⟨e, rfl, hExpected⟩
      · -- Only the flush of the output can still fail.
        simp only [Machine.flush, hEntry]
        cases (Sink.flush m.output).2 with
        | none => exact .inl rfl
        | some reason => exact .inr ⟨_, rfl, rfl⟩
      · exact .inr ⟨e, rfl, hExpected⟩

/-
  A verified program never goes wrong. All that its steps
  refer to exists, in the executable and in every machine of
  every run, and a run fails only by a division by zero, an
  index out of bounds, the limits on calls, memory and steps,
  a code of no character, or its input and output.
-/
theorem run_of_verify_never_goes_wrong
    {p : Program}
    {exe : Executable}
    (hVerify : verify p = .ok exe)
    {ω : Type}
    [Sink ω]
    (cfg : Config)
    (input : Input)
    (output : ω) :
    exe.InRange ∧
      (∀ m : Machine ω, Machine.Reachable exe cfg input output m →
        m.InRange exe ∧
          ((∀ f ∈ p.functions, ∀ l ∈ f.labels,
              l.position ≤ f.code.length) →
            PositionsInside exe m.frames) ∧
          ∀ m' e, m.step exe cfg = .failed m' e →
            e.cause.isExpected = true) ∧
      ∀ rounds result run,
        (Run.initial input output).start exe cfg rounds =
            some (result, run) →
          result = .ok () ∨
            ∃ e, result = .error (.fault e) ∧
              e.cause.isExpected = true := by
  have hExe := Executable.wellTyped_of_verify hVerify
  refine ⟨hExe.inRange, ?_, ?_⟩
  · intro m hReachable
    have hTyped := Machine.Typed.of_reachable hExe hReachable
    refine ⟨hTyped.inRange, ?_, ?_⟩
    · intro hLabels
      exact PositionsInside.of_reachable hExe
        (Executable.jumpsInside_of_verify hVerify hLabels) hReachable
    · intro m' e hFailed
      exact Machine.isExpected_of_step hExe hTyped hFailed
  · intro rounds result run hRun
    exact isExpected_of_start hExe hRun

/- A program that fills an array with the halves of a number. -/
def halvings : Program :=
  { functions :=
      [{ name := "half"
         returns := .value .int
         params := [⟨"n", .scalar .int⟩]
         ints := []
         floats := []
         code :=
           [⟨.div, [.var "n", .var "n", .int 2], 2⟩,
            ⟨.ret, [.var "n"], 3⟩]
         labels := []
         line := 1 },
       { name := "main"
         returns := .void
         params := []
         ints :=
           [⟨"a", .int, some 8, 6⟩, ⟨"i", .int, none, 6⟩,
            ⟨"n", .int, none, 6⟩]
         floats := []
         code :=
           [⟨.callr, [.var "n", .function "geti"], 7⟩,
            ⟨.breq, [.label "done", .var "n", .int 0], 9⟩,
            ⟨.callr, [.var "n", .function "half", .var "n"], 10⟩,
            ⟨.store, [.var "n", .var "a", .var "i"], 11⟩,
            ⟨.add, [.var "i", .var "i", .int 1], 12⟩,
            ⟨.goto, [.label "next"], 13⟩]
         labels := [⟨"next", 1, 8⟩, ⟨"done", 6, 14⟩]
         line := 5 }] }

theorem halvings_never_go_wrong :
    ∃ exe,
      verify halvings = .ok exe ∧
        exe.InRange ∧
        (∀ m, Machine.Reachable exe {} (Input.ofString "300")
            Buffer.empty m →
          m.InRange exe ∧
            PositionsInside exe m.frames ∧
            ∀ m' e, m.step exe {} = .failed m' e →
              e.cause.isExpected = true) ∧
        ∀ rounds result run,
          (Run.initial (Input.ofString "300") Buffer.empty).start
              exe {} rounds = some (result, run) →
            result = .ok () ∨
              ∃ e, result = .error (.fault e) ∧
                e.cause.isExpected = true := by
  have hOk : (verify halvings).isOk = true := by decide
  have hLabels : ∀ f ∈ halvings.functions, ∀ l ∈ f.labels,
      l.position ≤ f.code.length := by decide
  cases hVerify : verify halvings with
  | error r =>
      rw [hVerify] at hOk
      cases hOk
  | ok exe =>
      rcases run_of_verify_never_goes_wrong hVerify {}
        (Input.ofString "300") Buffer.empty with
        ⟨hRange, hMachine, hResult⟩
      refine ⟨exe, rfl, hRange, ?_, hResult⟩
      intro m hReachable
      rcases hMachine m hReachable with ⟨hm, hPositions, hStep⟩
      exact ⟨hm, hPositions hLabels, hStep⟩

end ThreeAddress
