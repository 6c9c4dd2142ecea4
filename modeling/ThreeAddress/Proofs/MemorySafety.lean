import ThreeAddress.Proofs.ArrayLayout
import ThreeAddress.Proofs.FailedSteps
import ThreeAddress.Proofs.Safety

/-
  This file shows that the machine is safe without the
  verifier. Of an executable it takes only that the steps of
  each routine refer to slots of that routine. Types, jumps,
  callees and arguments may be anything: the marks of the
  frames alone keep every array that a cell refers to in the
  memory for as long as the cell is there, and a step finds
  whatever it refers to.

  Key definitions include:
    * `Executable.SlotsInRange`
    * `Frame.CalledFrom`, `StackInRange`
    * `Context.InRange`, `Context.Reaches`
    * `Machine.StepInRange`

  Main statements:
    * `StackInRange.of_transition`, `StackInRange.of_reachable`
    * `StackInRange.exists_breakdown`
    * `Machine.Stops.ne_dangling`
    * `unverified_run_stays_in_range`
-/

namespace ThreeAddress

------------------------------------------------------------
-- Executables
------------------------------------------------------------

/-
  There is a routine to start with, and every routine refers
  to its own slots only.
-/
structure Executable.SlotsInRange (exe : Executable) : Prop where
  entry : exe.entry < exe.routines.size
  slots :
    ∀ r ∈ exe.routines, ∀ st ∈ r.code,
      ∀ id ∈ st.action.slots, id < r.slots.size

instance (exe : Executable) : Decidable exe.SlotsInRange :=
  decidable_of_iff
    (exe.entry < exe.routines.size ∧
      ∀ r ∈ exe.routines, ∀ st ∈ r.code,
        ∀ id ∈ st.action.slots, id < r.slots.size)
    ⟨fun h => ⟨h.1, h.2⟩, fun h => ⟨h.entry, h.slots⟩⟩

------------------------------------------------------------
-- Stacks
------------------------------------------------------------

/- The cell is a value, or an array that ends by a limit. -/
def Cell.EndsBy (limit : Nat) : Cell → Prop
| .scalar _ => True
| .array base length => base + length ≤ limit

/-
  The frame below stands at the call of the frame, which
  hands its result where the call wants it.
-/
def Frame.CalledFrom
    (exe : Executable)
    (f : Frame) : List Frame → Prop
| [] => f.returnTo = none
| g :: _ =>
    ∃ q args line,
      exe.routines[g.routine]? = some q ∧
        q.code[g.pc]? =
          some ⟨.call f.returnTo (.routine f.routine) args, line⟩

/-
  The frames of a stack in range. Each is one of a routine,
  with a cell for each slot. Its own arrays lie between its
  mark and the limit, which is the mark of the frame above it
  or the size of the memory, and no array that its cells
  refer to ends behind the limit.
-/
def StackInRange (exe : Executable) : Nat → List Frame → Prop
| limit, [] => limit = 0
| limit, f :: below =>
    (∃ r,
      exe.routines[f.routine]? = some r ∧
        f.cells.size = r.slots.size ∧
        f.mark + r.ownedCells = limit) ∧
    (∀ c ∈ f.cells, c.EndsBy limit) ∧
    f.CalledFrom exe below ∧
    StackInRange exe f.mark below

namespace Cell.EndsBy

theorem mono
    {limit limit' : Nat}
    {c : Cell}
    (h : c.EndsBy limit)
    (hLimit : limit ≤ limit') :
    c.EndsBy limit' := by
  cases c with
  | scalar v => trivial
  | array base length => exact Nat.le_trans h hLimit

end Cell.EndsBy

namespace StackInRange

variable {exe : Executable} {cfg : Config}
variable {r : Routine} {f g : Frame} {rest : List Frame}
variable {limit : Nat} {memory : Array Value}

/- Every frame is one of a routine. -/
theorem exists_routine
    {frames : List Frame}
    (h : StackInRange exe limit frames) :
    ∀ g ∈ frames, ∃ q, exe.routines[g.routine]? = some q := by
  induction frames generalizing limit with
  | nil => nofun
  | cons f below ih =>
      rcases h with ⟨⟨r, hRoutine, _, _⟩, _, _, hBelow⟩
      rw [List.forall_mem_cons]
      exact ⟨⟨r, hRoutine⟩, ih hBelow⟩

/- A stack stays in range while its first frame is in its call. -/
theorem sameCall
    (h : StackInRange exe limit (f :: rest))
    (hSame : f.SameCall g)
    (hReturn : g.returnTo = f.returnTo) :
    StackInRange exe limit (g :: rest) := by
  rcases h with ⟨⟨r, hRoutine, hSize, hMark⟩, hCells, hCalled, hBelow⟩
  refine ⟨⟨r, ?_, ?_, ?_⟩, ?_, ?_, ?_⟩
  · rw [hSame.routine, hRoutine]
  · have hSpans := congrArg Array.size hSame.spans
    rw [Array.size_map, Array.size_map] at hSpans
    rw [hSpans, hSize]
  · rw [hSame.mark, hMark]
  · intro c hc
    cases c with
    | scalar v => trivial
    | array base length =>
        rcases Array.getElem?_of_mem hc with ⟨id, hCell⟩
        exact hCells _
          (Array.mem_of_getElem? (hSame.getElem?_array_iff.mp hCell))
  · cases rest with
    | nil => exact hReturn.trans hCalled
    | cons k ks =>
        rw [Frame.CalledFrom, hReturn, hSame.routine]
        exact hCalled
  · rw [hSame.mark]
    exact hBelow

theorem size_shrink
    (h : StackInRange exe memory.size (f :: rest)) :
    (memory.shrink f.mark).size = f.mark := by
  rcases h with ⟨⟨r, _, _, hMark⟩, _⟩
  rw [Array.size_shrink]
  omega

/- The frames below a frame that ends stay in range. -/
theorem shrink
    (h : StackInRange exe memory.size (f :: rest)) :
    StackInRange exe (memory.shrink f.mark).size rest := by
  rw [h.size_shrink]
  exact h.2.2.2

/- A frame with arguments in range goes on top of a stack. -/
theorem push
    {index below : Nat}
    {cells : List Cell}
    {dest : Option Place}
    (h : StackInRange exe memory.size rest)
    (hRoutine : exe.routines[index]? = some r)
    (hCells : ∀ c ∈ cells, c.EndsBy memory.size)
    (hCalled :
      (Frame.ofCall index r cells dest memory.size below).CalledFrom
        exe rest) :
    StackInRange exe (allocate memory r.slots).size
      (Frame.ofCall index r cells dest memory.size below :: rest) := by
  rw [size_allocate]
  refine ⟨⟨r, hRoutine, ?_, rfl⟩, ?_, hCalled, h⟩
  · simp [Frame.ofCall, length_bindCells]
  · have hBound :
        ∀ c ∈ bindCells r.slots.toList cells memory.size,
          c.EndsBy (memory.size + r.ownedCells) := by
      apply forall_mem_bindCells
      · intro v
        trivial
      · intro c hc
        exact (hCells c hc).mono (Nat.le_add_right _ _)
      · intro start n _ hStop
        rw [Routine.ownedCells_eq]
        exact hStop
    intro c hc
    exact hBound c (by simpa [Frame.ofCall] using hc)

/- A transition keeps the stack in range. -/
theorem of_transition
    {frames : List Frame}
    {memory' : Array Value}
    (hRoutine : exe.routines[f.routine]? = some r)
    (hStack : StackInRange exe memory.size (f :: rest))
    (h : Transition exe cfg r f rest memory frames memory') :
    StackInRange exe memory'.size frames := by
  have hWrite : ∀ (t : Target) (w : Value) (k : Frame),
      (t.frame w k).next.returnTo = k.returnTo := by
    intro t w k
    cases t <;> rfl
  cases h with
  | moved _ _ => exact hStack.sameCall (.move f _) rfl
  | wrote _ hTarget =>
      rw [Target.size_store]
      exact hStack.sameCall (.write hTarget) (hWrite _ _ _)
  | ended hBelow =>
      subst hBelow
      exact hStack.shrink
  | @returned g _ hBelow =>
      subst hBelow
      exact hStack.shrink.sameCall (.move g _) rfl
  | delivered _ _ hBelow _ _ hTarget =>
      subst hBelow
      rw [Target.size_store]
      exact hStack.shrink.sameCall
        (.write (Context.locates_of_target hTarget)) (hWrite _ _ _)
  | @called line _ _ args _ _ hStep hArguments hCallee _ _ =>
      apply hStack.push hCallee
      · -- An array that is passed on ends where it did.
        refine Context.forall_mem_arguments ?_ hStack.2.1 hArguments
        intro v
        trivial
      · exact ⟨r, args, line, hRoutine, hStep⟩

/- The stack of every machine of a run is in range. -/
theorem of_reachable
    {ω : Type}
    [Sink ω]
    {input : Input}
    {output : ω}
    {m : Machine ω}
    (h : Machine.Reachable exe cfg input output m) :
    StackInRange exe m.memory.size m.frames := by
  apply h.invariant
  · intro m hEnter
    unfold Machine.enter at hEnter
    split at hEnter
    · cases hEnter
    · next q hAdmission =>
        cases hEnter
        have hEmpty : StackInRange exe (#[] : Array Value).size [] :=
          rfl
        exact hEmpty.push (admission_eq_ok hAdmission).1 nofun rfl
  · intro m m' _ hStack hStep
    rcases Machine.exists_transition_of_step hStep with
      ⟨f, rest, r, hFrames, hRoutine, hTransition⟩
    rw [hFrames] at hStack
    exact hStack.of_transition hRoutine hTransition

/- A breakdown keeps the stack in range. -/
theorem of_breakdown
    {ω : Type}
    [Sink ω]
    {m : Machine ω}
    {frames : List Frame}
    {memory : Array Value}
    {e : Fault}
    (hStack : StackInRange exe m.memory.size (f :: rest))
    (h : m.Breakdown exe cfg r f rest frames memory e) :
    StackInRange exe memory.size frames := by
  cases h with
  | stopped _ _ => exact hStack
  | refused _ _ _ hBelow _ _ _ =>
      subst hBelow
      exact hStack.shrink

/- A step over a stack in range fails by a breakdown. -/
theorem exists_breakdown
    {ω : Type}
    [Sink ω]
    {m m' : Machine ω}
    {e : Fault}
    (hStack : StackInRange exe m.memory.size m.frames)
    (h : m.step exe cfg = .failed m' e) :
    ∃ f rest r,
      m.frames = f :: rest ∧
        exe.routines[f.routine]? = some r ∧
        m.Breakdown exe cfg r f rest m'.frames m'.memory e := by
  have hRoutines := hStack.exists_routine
  rcases Machine.exists_frame_of_failed_step h with
    ⟨f, rest, hFrames⟩
  rw [hFrames, List.forall_mem_cons] at hRoutines
  rcases hRoutines with ⟨⟨r, hRoutine⟩, hCallers⟩
  exact ⟨f, rest, r, hFrames, hRoutine,
    Machine.breakdown_of_step hFrames hRoutine hCallers h⟩

end StackInRange

------------------------------------------------------------
-- Steps Find What They Refer To
------------------------------------------------------------

namespace Context

/- There is a cell for each slot, and the arrays lie in the memory. -/
structure InRange (x : Context) : Prop where
  size : x.frame.cells.size = x.routine.slots.size
  arrays : ∀ c ∈ x.frame.cells, c.EndsBy x.memory.size

/-
  The slots are there, with their cells, and every element
  whose address is found lies in the memory.
-/
structure Reaches (x : Context) (ids : List Nat) : Prop where
  slot : ∀ id ∈ ids, id < x.routine.slots.size
  cell : ∀ id ∈ ids, id < x.frame.cells.size
  element :
    ∀ id i address, x.address id i = .ok address →
      address < x.memory.size

variable {x : Context}

theorem InRange.address_lt
    {id address : Nat}
    {i : Value}
    (hx : x.InRange)
    (h : x.address id i = .ok address) :
    address < x.memory.size := by
  rcases exists_offset_of_address h with
    ⟨base, length, k, hCell, hWithin, rfl⟩
  have hEnd : base + length ≤ x.memory.size :=
    hx.arrays _ (Array.mem_of_getElem? hCell)
  omega

theorem InRange.reaches
    {ids : List Nat}
    (hx : x.InRange)
    (hSlots : ∀ id ∈ ids, id < x.routine.slots.size) :
    x.Reaches ids := by
  refine ⟨hSlots, ?_, ?_⟩
  · intro id hId
    rw [hx.size]
    exact hSlots id hId
  · intro id i address hAddress
    exact hx.address_lt hAddress

theorem slotValue_ne_dangling
    (x : Context)
    (id : Nat) :
    x.slotValue id ≠ .error .dangling := by
  unfold slotValue
  split <;> nofun

theorem slotArray_ne_dangling
    (x : Context)
    (id : Nat) :
    x.slotArray id ≠ .error .dangling := by
  unfold slotArray
  split <;> nofun

/- A slot that is there can be named. -/
theorem blame_ne_dangling
    {id : Nat}
    {cause : Slot → FaultCause}
    (hId : id < x.routine.slots.size)
    (hCause : ∀ s, cause s ≠ .dangling) :
    x.blame id cause ≠ .dangling := by
  unfold blame
  rw [Array.getElem?_eq_getElem hId]
  exact hCause _

theorem address_ne_dangling
    {id : Nat}
    (hId : id < x.routine.slots.size)
    (i : Value) :
    x.address id i ≠ .error .dangling := by
  intro h
  unfold address at h
  split at h
  · rw [Except.error.injEq] at h
    refine blame_ne_dangling hId ?_ h
    intro s
    nofun
  · split at h
    · next hArray =>
        rw [Except.error.injEq] at h
        subst h
        exact slotArray_ne_dangling x id hArray
    · split at h
      · cases h
      · rw [Except.error.injEq] at h
        refine blame_ne_dangling hId ?_ h
        intro s
        nofun

theorem fetch_ne_dangling
    {address : Nat}
    (h : address < x.memory.size) :
    x.fetch address ≠ .error .dangling := by
  unfold fetch
  rw [Array.getElem?_eq_getElem h]
  nofun

theorem indexValue_ne_dangling
    (x : Context)
    (i : Index Nat) :
    x.indexValue i ≠ .error .dangling := by
  cases i with
  | const n => nofun
  | var id => exact slotValue_ne_dangling x id

theorem elementAddress_ne_dangling
    {id : Nat}
    (hId : id < x.routine.slots.size)
    (i : Index Nat) :
    x.elementAddress id i ≠ .error .dangling := by
  intro h
  unfold elementAddress at h
  split at h
  · next hIndex =>
      rw [Except.error.injEq] at h
      subst h
      exact indexValue_ne_dangling x i hIndex
  · exact address_ne_dangling hId _ h

theorem InRange.elementAddress_lt
    {id address : Nat}
    {i : Index Nat}
    (hx : x.InRange)
    (h : x.elementAddress id i = .ok address) :
    address < x.memory.size := by
  unfold elementAddress at h
  split at h
  · cases h
  · exact hx.address_lt h

theorem InRange.readPlace_ne_dangling
    {p : Place}
    (hx : x.InRange)
    (hSlots : ∀ id ∈ p.slots, id < x.routine.slots.size) :
    x.readPlace p ≠ .error .dangling := by
  cases p with
  | slot id => exact slotValue_ne_dangling x id
  | element id i =>
      have hId := hSlots id List.mem_cons_self
      intro h
      simp only [readPlace] at h
      split at h
      · next hElement =>
          rw [Except.error.injEq] at h
          subst h
          exact elementAddress_ne_dangling hId i hElement
      · next hElement =>
          exact fetch_ne_dangling (hx.elementAddress_lt hElement) h

theorem InRange.read_ne_dangling
    {src : Source}
    (hx : x.InRange)
    (hSlots : ∀ id ∈ src.slots, id < x.routine.slots.size) :
    x.read src ≠ .error .dangling := by
  cases src with
  | int n => nofun
  | float r => nofun
  | place p => exact hx.readPlace_ne_dangling hSlots

theorem InRange.argument_ne_dangling
    {arg : Argument}
    (hx : x.InRange)
    (hSlots : ∀ id ∈ arg.slots, id < x.routine.slots.size) :
    x.argument arg ≠ .error .dangling := by
  intro h
  cases arg with
  | value src =>
      exact hx.read_ne_dangling hSlots (Outcome.map_eq_error.mp h)
  | array id =>
      exact slotArray_ne_dangling x id (Outcome.map_eq_error.mp h)

theorem InRange.arguments_ne_dangling
    {args : List Argument}
    (hx : x.InRange)
    (hSlots : ∀ id ∈ args.flatMap Argument.slots,
      id < x.routine.slots.size) :
    x.arguments args ≠ .error .dangling := by
  apply Outcome.mapM_ne_error
  intro arg hArg
  apply hx.argument_ne_dangling
  intro id hId
  exact hSlots id (List.mem_flatMap.mpr ⟨arg, hArg, hId⟩)

theorem coerce_ne_dangling
    {id : Nat}
    (hId : id < x.routine.slots.size)
    (v : Value) :
    x.coerce id v ≠ .error .dangling := by
  unfold coerce
  rw [Array.getElem?_eq_getElem hId]
  dsimp only
  split <;> nofun

theorem storeTarget_ne_dangling
    {id address : Nat}
    (hId : id < x.routine.slots.size)
    (hAddress : address < x.memory.size)
    (v : Value) :
    x.storeTarget id address v ≠ .error .dangling := by
  intro h
  unfold storeTarget at h
  split at h
  · next hCoerce =>
      rw [Except.error.injEq] at h
      subst h
      exact coerce_ne_dangling hId v hCoerce
  · rw [if_pos hAddress] at h
    cases h

theorem InRange.target_ne_dangling
    {p : Place}
    (hx : x.InRange)
    (hSlots : ∀ id ∈ p.slots, id < x.routine.slots.size)
    (v : Value) :
    x.target p v ≠ .error .dangling := by
  intro h
  cases p with
  | slot id =>
      have hId := hSlots id List.mem_cons_self
      simp only [target] at h
      split at h
      · next hCoerce =>
          rw [Except.error.injEq] at h
          subst h
          exact coerce_ne_dangling hId v hCoerce
      · split at h <;> cases h
  | element id i =>
      have hId := hSlots id List.mem_cons_self
      simp only [target] at h
      split at h
      · next hElement =>
          rw [Except.error.injEq] at h
          subst h
          exact elementAddress_ne_dangling hId i hElement
      · next hElement =>
          exact storeTarget_ne_dangling hId
            (hx.elementAddress_lt hElement) v h

theorem InRange.copied_ne_dangling
    {dest : Place}
    {src : Source}
    (hx : x.InRange)
    (hSlots : ∀ id ∈ dest.slots ++ src.slots,
      id < x.routine.slots.size) :
    x.copied dest src ≠ .error .dangling := by
  rw [List.forall_mem_append] at hSlots
  apply Outcome.bind_ne_error (hx.read_ne_dangling hSlots.2)
  intro v _
  exact hx.target_ne_dangling hSlots.1 v

theorem InRange.computed_ne_dangling
    {op : Value → Value → Except FaultCause Value}
    {dest : Place}
    {lhs rhs : Source}
    (hx : x.InRange)
    (hOp : ∀ a b, op a b ≠ .error .dangling)
    (hSlots : ∀ id ∈ dest.slots ++ lhs.slots ++ rhs.slots,
      id < x.routine.slots.size) :
    x.computed op dest lhs rhs ≠ .error .dangling := by
  rw [List.forall_mem_append, List.forall_mem_append] at hSlots
  rcases hSlots with ⟨⟨hDest, hLeft⟩, hRight⟩
  apply Outcome.bind_ne_error (hx.read_ne_dangling hLeft)
  intro a _
  apply Outcome.bind_ne_error (hx.read_ne_dangling hRight)
  intro b _
  apply Outcome.bind_ne_error (hOp a b)
  intro v _
  exact hx.target_ne_dangling hDest v

theorem InRange.loaded_ne_dangling
    {dest : Place}
    {array : Nat}
    {index : Source}
    (hx : x.InRange)
    (hSlots : ∀ id ∈ dest.slots ++ array :: index.slots,
      id < x.routine.slots.size) :
    x.loaded dest array index ≠ .error .dangling := by
  rw [List.forall_mem_append, List.forall_mem_cons] at hSlots
  rcases hSlots with ⟨hDest, hArray, hIndex⟩
  apply Outcome.bind_ne_error (hx.read_ne_dangling hIndex)
  intro i _
  apply Outcome.bind_ne_error (address_ne_dangling hArray i)
  intro address hAddress
  apply Outcome.bind_ne_error
    (fetch_ne_dangling (hx.address_lt hAddress))
  intro v _
  exact hx.target_ne_dangling hDest v

theorem InRange.stored_ne_dangling
    {value : Source}
    {array : Nat}
    {index : Source}
    (hx : x.InRange)
    (hSlots : ∀ id ∈ value.slots ++ array :: index.slots,
      id < x.routine.slots.size) :
    x.stored value array index ≠ .error .dangling := by
  rw [List.forall_mem_append, List.forall_mem_cons] at hSlots
  rcases hSlots with ⟨hValue, hArray, hIndex⟩
  apply Outcome.bind_ne_error (hx.read_ne_dangling hValue)
  intro v _
  apply Outcome.bind_ne_error (hx.read_ne_dangling hIndex)
  intro i _
  apply Outcome.bind_ne_error (address_ne_dangling hArray i)
  intro address hAddress
  exact storeTarget_ne_dangling hArray (hx.address_lt hAddress) v

theorem InRange.condition_ne_dangling
    {lhs rhs : Source}
    (hx : x.InRange)
    (cond : Cond)
    (hSlots : ∀ id ∈ lhs.slots ++ rhs.slots,
      id < x.routine.slots.size) :
    x.condition cond lhs rhs ≠ .error .dangling := by
  rw [List.forall_mem_append] at hSlots
  apply Outcome.bind_ne_error (hx.read_ne_dangling hSlots.1)
  intro a _
  apply Outcome.bind_ne_error (hx.read_ne_dangling hSlots.2)
  intro b _
  nofun

end Context

theorem arith_ne_dangling
    (op : ArithOp)
    (a b : Value) :
    arith op a b ≠ .error .dangling := by
  intro h
  have hExpected := (arith_gives op a b).isExpected h
  cases hExpected

theorem bitwise_ne_dangling
    (op : BitOp)
    (a b : Value) :
    bitwise op a b ≠ .error .dangling := by
  cases a <;> cases b <;> nofun

theorem admission_ne_dangling
    {exe : Executable}
    {cfg : Config}
    {depth used index : Nat}
    {caller : Option Site}
    {e : Fault}
    (h : admission exe cfg depth used caller index = .error e) :
    e.cause ≠ .dangling := by
  unfold admission at h
  dsimp only at h
  split at h
  · cases h
    nofun
  · split at h
    · cases h
      nofun
    · split at h
      · cases h
        nofun
      · cases h

namespace Machine

variable {ω : Type}
variable {exe : Executable} {cfg : Config}
variable {r : Routine} {f : Frame} {rest : List Frame}
variable {m m' : Machine ω} {e : Fault}

theorem readInput_ne_dangling
    {α : Type}
    (m : Machine ω)
    (read : Input → Except ConsoleError α × Input)
    (value : α → Value) :
    (m.readInput read value).1 ≠ .error .dangling := by
  unfold readInput
  dsimp only
  split <;> nofun

variable [Sink ω]

theorem writeOutput_ne_dangling
    (m : Machine ω)
    (chunk : ByteArray) :
    (m.writeOutput chunk).1 ≠ .error .dangling := by
  unfold writeOutput
  dsimp only
  split <;> nofun

/- An intrinsic function takes any argument, or none. -/
theorem intrinsic_ne_dangling
    (m : Machine ω)
    (i : Intrinsic)
    (arg : Option Value) :
    (m.intrinsic i arg).1 ≠ .error .dangling := by
  unfold intrinsic
  split
  · exact readInput_ne_dangling m _ _
  · exact readInput_ne_dangling m _ _
  · exact readInput_ne_dangling m _ _
  · exact writeOutput_ne_dangling m _
  · exact writeOutput_ne_dangling m _
  · split
    · exact writeOutput_ne_dangling m _
    · nofun
  · nofun

/- Nothing that an action refers to is missing. -/
theorem Stops.ne_dangling
    {action : Action}
    {cause : FaultCause}
    (hContext : Context.InRange ⟨r, f, m.memory⟩)
    (hSlots : ∀ id ∈ action.slots, id < r.slots.size)
    (h : m.Stops exe cfg r f action cause) :
    cause ≠ .dangling := by
  rintro rfl
  cases h with
  | assign hResult => exact hContext.copied_ne_dangling hSlots hResult
  | @arith op _ _ _ _ hResult =>
      exact hContext.computed_ne_dangling (arith_ne_dangling op)
        hSlots hResult
  | @bit op _ _ _ _ hResult =>
      exact hContext.computed_ne_dangling (bitwise_ne_dangling op)
        hSlots hResult
  | load hResult => exact hContext.loaded_ne_dangling hSlots hResult
  | store hResult => exact hContext.stored_ne_dangling hSlots hResult
  | @branch cond _ _ _ _ hResult =>
      exact hContext.condition_ne_dangling cond hSlots hResult
  | ret hResult =>
      refine hContext.read_ne_dangling ?_ hResult
      simpa [Action.slots] using hSlots
  | arguments hResult =>
      rw [Action.slots, List.forall_mem_append] at hSlots
      exact hContext.arguments_ne_dangling hSlots.2 hResult
  | admission _ hResult => exact admission_ne_dangling hResult rfl
  | intrinsic _ hResult =>
      exact intrinsic_ne_dangling m.tick _ _ hResult
  | delivery _ _ hTarget =>
      rw [Action.slots, List.forall_mem_append] at hSlots
      refine hContext.target_ne_dangling ?_ _ hTarget
      simpa using hSlots.1

/-
  All that the next step refers to exists: the routine of the
  running frame, what its action refers to, and what the call
  that it returns to refers to.
-/
def StepInRange (exe : Executable) (m : Machine ω) : Prop :=
  ∀ f rest, m.frames = f :: rest →
    ∃ r,
      exe.routines[f.routine]? = some r ∧
        (∀ st, r.code[f.pc]? = some st →
          Context.Reaches ⟨r, f, m.memory⟩ st.action.slots) ∧
        ∀ g gs p, rest = g :: gs → f.returnTo = some p →
          ∃ q,
            exe.routines[g.routine]? = some q ∧
              Context.Reaches ⟨q, g, m.memory.shrink f.mark⟩ p.slots

end Machine

------------------------------------------------------------
-- Runs Stay in Range
------------------------------------------------------------

section Runs

variable {exe : Executable} {cfg : Config}
variable {r : Routine} {f g : Frame} {rest gs : List Frame}

theorem Executable.SlotsInRange.lt_size
    {index pc : Nat}
    {st : Step}
    (hExe : exe.SlotsInRange)
    (hRoutine : exe.routines[index]? = some r)
    (hStep : r.code[pc]? = some st) :
    ∀ id ∈ st.action.slots, id < r.slots.size :=
  hExe.slots r (Array.mem_of_getElem? hRoutine) st
    (Array.mem_of_getElem? hStep)

/- A frame returns to slots of its caller. -/
theorem Executable.SlotsInRange.lt_size_of_returnTo
    {q : Routine}
    {p : Place}
    (hExe : exe.SlotsInRange)
    (hCalled : f.CalledFrom exe (g :: gs))
    (hCaller : exe.routines[g.routine]? = some q)
    (hReturn : f.returnTo = some p) :
    ∀ id ∈ p.slots, id < q.slots.size := by
  rcases hCalled with ⟨q', args, line, hCaller', hCall⟩
  rw [hCaller] at hCaller'
  cases hCaller'
  have hSlots := hExe.lt_size hCaller hCall
  rw [hReturn, Action.slots, List.forall_mem_append] at hSlots
  simpa using hSlots.1

/- The first frame of a stack sees a context in range. -/
theorem StackInRange.context
    {memory : Array Value}
    (h : StackInRange exe memory.size (f :: rest))
    (hRoutine : exe.routines[f.routine]? = some r) :
    Context.InRange ⟨r, f, memory⟩ := by
  rcases h with ⟨⟨r', hRoutine', hSize, _⟩, hCells, _, _⟩
  rw [hRoutine] at hRoutine'
  cases hRoutine'
  exact ⟨hSize, hCells⟩

variable {ω : Type}
variable {m m' : Machine ω} {e : Fault}

/- A step over a stack in range finds what it refers to. -/
theorem StackInRange.stepInRange
    (hExe : exe.SlotsInRange)
    (h : StackInRange exe m.memory.size m.frames) :
    m.StepInRange exe := by
  intro f rest hFrames
  rw [hFrames] at h
  rcases h.exists_routine f List.mem_cons_self with ⟨r, hRoutine⟩
  refine ⟨r, hRoutine, ?_, ?_⟩
  · intro st hStep
    exact (h.context hRoutine).reaches (hExe.lt_size hRoutine hStep)
  · intro g gs p hBelow hReturn
    subst hBelow
    rcases h.shrink.exists_routine g List.mem_cons_self with
      ⟨q, hCaller⟩
    have hSlots := hExe.lt_size_of_returnTo h.2.2.1 hCaller hReturn
    exact ⟨q, hCaller, (h.shrink.context hCaller).reaches hSlots⟩

variable [Sink ω]

/- A step over a stack in range fails only for another cause. -/
theorem StackInRange.ne_dangling_of_breakdown
    {frames : List Frame}
    {memory : Array Value}
    (hExe : exe.SlotsInRange)
    (hStack : StackInRange exe m.memory.size (f :: rest))
    (hRoutine : exe.routines[f.routine]? = some r)
    (h : m.Breakdown exe cfg r f rest frames memory e) :
    e.cause ≠ .dangling := by
  cases h with
  | stopped hStep hStops =>
      exact hStops.ne_dangling (hStack.context hRoutine)
        (hExe.lt_size hRoutine hStep)
  | refused _ _ _ hBelow hCaller hReturn hTarget =>
      subst hBelow
      have hSlots :=
        hExe.lt_size_of_returnTo hStack.2.2.1 hCaller hReturn
      rintro rfl
      exact (hStack.shrink.context hCaller).target_ne_dangling
        hSlots _ hTarget

theorem StackInRange.ne_dangling_of_step
    (hExe : exe.SlotsInRange)
    (hStack : StackInRange exe m.memory.size m.frames)
    (h : m.step exe cfg = .failed m' e) :
    e.cause ≠ .dangling ∧
      StackInRange exe m'.memory.size m'.frames := by
  rcases hStack.exists_breakdown h with
    ⟨f, rest, r, hFrames, hRoutine, hBreakdown⟩
  rw [hFrames] at hStack
  exact ⟨hStack.ne_dangling_of_breakdown hExe hRoutine hBreakdown,
    hStack.of_breakdown hBreakdown⟩

theorem Run.Failure.ne_dangling
    {input : Input}
    {output : ω}
    {rounds : Nat}
    (hExe : exe.SlotsInRange)
    (h : Run.Failure exe cfg input output rounds e m) :
    e.cause ≠ .dangling := by
  cases h with
  | entry hEnter =>
      unfold Machine.enter at hEnter
      split at hEnter
      · next hAdmission =>
          cases hEnter
          exact admission_ne_dangling hAdmission
      · cases hEnter
  | step hBefore hStep =>
      have hStack := StackInRange.of_reachable hBefore
      exact (hStack.ne_dangling_of_step hExe hStep).1
  | flush _ _ _ _ => nofun

end Runs

/-
  A run stays in range, whatever it runs, as long as it has
  a routine to start with and each routine refers to its own
  slots. In every machine of the run each frame has a cell
  for each slot, and its arrays end by the mark of the frame
  above it, or in the memory. The next step finds every
  routine, slot, cell and element that it refers to, so that
  no step, and no run, fails for one that is missing.
-/
theorem unverified_run_stays_in_range
    {exe : Executable}
    (hExe : exe.SlotsInRange)
    {ω : Type}
    [Sink ω]
    (cfg : Config)
    (input : Input)
    (output : ω) :
    (∃ r, exe.routines[exe.entry]? = some r) ∧
      (∀ m : Machine ω, Machine.Reachable exe cfg input output m →
        StackInRange exe m.memory.size m.frames ∧
          m.StepInRange exe ∧
          ∀ m' e, m.step exe cfg = .failed m' e →
            e.cause ≠ .dangling ∧
              StackInRange exe m'.memory.size m'.frames) ∧
      ∀ rounds result run,
        (Run.initial input output).start exe cfg rounds =
            some (result, run) →
          ∀ e, result = .error (.fault e) →
            e.cause ≠ .dangling := by
  refine ⟨⟨_, Array.getElem?_eq_getElem hExe.entry⟩, ?_, ?_⟩
  · intro m hReachable
    have hStack := StackInRange.of_reachable hReachable
    refine ⟨hStack, hStack.stepInRange hExe, ?_⟩
    intro m' e hStep
    exact hStack.ne_dangling_of_step hExe hStep
  · intro rounds result run hRun e hResult
    subst hResult
    rcases Run.exists_failure_of_start hRun with
      ⟨e', _, hSame, _, hFailure⟩
    cases hSame
    exact hFailure.ne_dangling hExe

/-
  An executable that no verifier would let pass: its routines
  take an array for a number, a number for an array and one
  argument too many, jump out of their code, and call what
  does not exist.
-/
def careless : Executable :=
  { routines :=
      #[{ name := "main"
          returns := .void
          params := []
          slots :=
            #[⟨"a", .array .int 2, false⟩, ⟨"n", .scalar .int, false⟩]
          code :=
            #[⟨.call (some (.element 0 (.var 1))) (.routine 1)
                [.array 0, .value (.int 5), .array 0], 2⟩,
              ⟨.goto 99, 3⟩]
          labels := [] },
        { name := "twist"
          returns := .void
          params := []
          slots :=
            #[⟨"x", .scalar .float, true⟩,
              ⟨"y", .array .int 3, true⟩,
              ⟨"own", .array .float 2, false⟩]
          code :=
            #[⟨.store (.int 7) 0 (.int 1), 6⟩,
              ⟨.assign (.slot 1) (.int 3), 7⟩,
              ⟨.call none (.routine 9) [.array 0], 8⟩]
          labels := [] }]
    entry := 0 }

/- The number stands for an array in the caller's memory. -/
theorem careless_stays_in_range :
    careless.SlotsInRange ∧
      ∃ m m' e,
        Machine.Reachable careless {} (Input.ofString "")
            Buffer.empty m ∧
          m.frames.map (fun f => f.cells[0]?) =
            [some (.array 0 2), some (.array 0 2)] ∧
          m.memory.size = 4 ∧
          StackInRange careless m.memory.size m.frames ∧
          m.StepInRange careless ∧
          m.step careless {} = .failed m' e ∧
          e = ⟨⟨"twist", 8⟩, .unknownRoutine 9⟩ ∧
          e.cause ≠ .dangling := by
  have hExe : careless.SlotsInRange := by decide
  refine ⟨hExe, ?_⟩
  rcases unverified_run_stays_in_range hExe {} (Input.ofString "")
    Buffer.empty with ⟨_, hMachines, _⟩
  have hStart : Machine.Reachable careless {}
      (Input.ofString "") Buffer.empty _ := .start rfl
  have hReady := ((hStart.step rfl).step rfl).step rfl
  rcases hMachines _ hReady with ⟨hStack, hStep, hFailed⟩
  exact ⟨_, _, _, hReady, rfl, rfl, hStack, hStep, rfl, rfl,
    (hFailed _ _ rfl).1⟩

end ThreeAddress
