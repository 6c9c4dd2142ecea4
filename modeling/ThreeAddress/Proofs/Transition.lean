import ThreeAddress.Machine.Run
import ThreeAddress.Proofs.Outcome

/-
  This file says once what a step can do to the frames and
  the memory of a machine, so that whatever steps preserve is
  shown case by case without looking into the step again, and
  it defines the machines that a run goes through.

  Key definitions include:
    * `Context.Locates`
    * `Transition`
    * `Machine.Reachable`

  Main statements:
    * `Context.locates_of_target`
    * `Machine.transition_of_step`, `Machine.exists_transition_of_step`
    * `Machine.exists_entered_of_call`
    * `Machine.eq_of_step_finished`
    * `Machine.Reachable.invariant`
    * `Machine.Reachable.exists_last`
    * `Machine.exists_last_of_runEntry`
-/

namespace ThreeAddress

------------------------------------------------------------
-- Targets of Writes
------------------------------------------------------------

namespace Target

/- The frame after a write of a value to a target. -/
def frame (t : Target) (w : Value) (f : Frame) : Frame :=
  match t with
  | .cell id =>
      { f with cells := f.cells.setIfInBounds id (.scalar w) }
  | .memory _ => f

/- The memory after a write of a value to a target. -/
def store (t : Target) (w : Value) (memory : Array Value) : Array Value :=
  match t with
  | .cell _ => memory
  | .memory address => memory.setIfInBounds address w

end Target

namespace Context

/-
  A write of a value goes to a target, where it is stored as
  another one: a cell that holds a value, or an element of an
  array that lies in the memory. What is stored there is the
  value converted to the type of the slot.
-/
inductive Locates (x : Context) (v : Value) : Target → Value → Prop where
| cell
    {id : Nat}
    {s : Slot}
    {old w : Value}
    (slot : x.routine.slots[id]? = some s)
    (cell : x.frame.cells[id]? = some (.scalar old))
    (value : v.coerce? s.shape.element = some w) :
    Locates x v (.cell id) w
| memory
    {id base length k : Nat}
    {s : Slot}
    {w : Value}
    (slot : x.routine.slots[id]? = some s)
    (cell : x.frame.cells[id]? = some (.array base length))
    (within : k < length)
    (inside : base + k < x.memory.size)
    (value : v.coerce? s.shape.element = some w) :
    Locates x v (.memory (base + k)) w

/- A converted value has the type of its slot. -/
theorem exists_slot_of_coerce
    {x : Context}
    {id : Nat}
    {v w : Value}
    (h : x.coerce id v = .ok w) :
    ∃ s,
      x.routine.slots[id]? = some s ∧
        v.coerce? s.shape.element = some w := by
  unfold coerce at h
  split at h
  · cases h
  · next s hSlot =>
      split at h
      · next w' hValue =>
          cases h
          exact ⟨s, hSlot, hValue⟩
      · cases h

theorem slotArray_eq_ok_iff
    {x : Context}
    {id base length : Nat} :
    x.slotArray id = .ok (base, length) ↔
      x.frame.cells[id]? = some (.array base length) := by
  unfold slotArray
  split
  · next b n hCell => simp [hCell]
  · next hCell =>
      constructor
      · intro h
        cases h
      · intro h
        exact absurd h (hCell base length)

theorem slotValue_eq_ok_iff
    {x : Context}
    {id : Nat}
    {v : Value} :
    x.slotValue id = .ok v ↔
      x.frame.cells[id]? = some (.scalar v) := by
  unfold slotValue
  split
  · next w hCell => simp [hCell]
  · next hCell =>
      constructor
      · intro h
        cases h
      · intro h
        exact absurd h (hCell v)

/- An address lies inside the array that it is found in. -/
theorem exists_offset_of_address
    {x : Context}
    {id address : Nat}
    {i : Value}
    (h : x.address id i = .ok address) :
    ∃ base length k,
      x.frame.cells[id]? = some (.array base length) ∧
        k < length ∧
        address = base + k := by
  unfold Context.address at h
  split at h
  · cases h
  · next n =>
      split at h
      · cases h
      · next base length hArray =>
          split at h
          · next hBounds =>
              cases h
              refine ⟨base, length, n.toInt.toNat,
                slotArray_eq_ok_iff.mp hArray, ?_, rfl⟩
              omega
          · cases h

theorem locates_of_storeTarget
    {x : Context}
    {id address : Nat}
    {i v w : Value}
    {t : Target}
    (hAddress : x.address id i = .ok address)
    (h : x.storeTarget id address v = .ok (t, w)) :
    x.Locates v t w := by
  rcases exists_offset_of_address hAddress with
    ⟨base, length, k, hCell, hWithin, rfl⟩
  unfold storeTarget at h
  split at h
  · cases h
  · next value hCoerce =>
      rcases exists_slot_of_coerce hCoerce with ⟨s, hSlot, hValue⟩
      split at h
      · next hInside =>
          cases h
          exact .memory hSlot hCell hWithin hInside hValue
      · cases h

/- What is found as a target is one. -/
theorem locates_of_target
    {x : Context}
    {p : Place}
    {v w : Value}
    {t : Target}
    (h : x.target p v = .ok (t, w)) :
    x.Locates v t w := by
  cases p with
  | slot id =>
      simp only [target] at h
      split at h
      · cases h
      · next value hCoerce =>
          rcases exists_slot_of_coerce hCoerce with
            ⟨s, hSlot, hValue⟩
          split at h
          · next old hCell =>
              cases h
              exact .cell hSlot hCell hValue
          · cases h
  | element id i =>
      simp only [target, elementAddress] at h
      split at h
      · cases h
      · next address hElement =>
          split at hElement
          · cases hElement
          · next index hIndex =>
              exact locates_of_storeTarget hElement h

end Context

------------------------------------------------------------
-- Transitions
------------------------------------------------------------

/- The frame of a new call. -/
def Frame.ofCall
    (index : Nat)
    (r : Routine)
    (args : List Cell)
    (returnTo : Option Place)
    (mark below : Nat) : Frame :=
  { routine := index
    pc := 0
    cells := (bindCells r.slots.toList args mark).toArray
    returnTo
    mark
    below }

/- The frame at the next position. -/
def Frame.next (f : Frame) : Frame :=
  { f with pc := f.pc + 1 }

/- Where an action jumps to, if it does. -/
def Action.target? : Action → Option Nat
| .goto target => some target
| .branch _ target _ _ => some target
| _ => none

/-
  What a step can do to the running frame `f` of a routine,
  the frames below it, and the memory.
-/
inductive Transition
    (exe : Executable)
    (cfg : Config)
    (r : Routine)
    (f : Frame)
    (rest : List Frame)
    (memory : Array Value) :
    List Frame → Array Value → Prop where
/- The frame goes on, at the next position or after a jump. -/
| moved
    {st : Step}
    {pc : Nat}
    (step : r.code[f.pc]? = some st)
    (position : pc = f.pc + 1 ∨ st.action.target? = some pc) :
    Transition exe cfg r f rest memory
      ({ f with pc } :: rest) memory
/- The frame writes a value. -/
| wrote
    {st : Step}
    {v w : Value}
    {t : Target}
    (step : r.code[f.pc]? = some st)
    (target : Context.Locates ⟨r, f, memory⟩ v t w) :
    Transition exe cfg r f rest memory
      ((t.frame w f).next :: rest) (t.store w memory)
/- The first frame ends. -/
| ended (below : rest = []) :
    Transition exe cfg r f rest memory [] (memory.shrink f.mark)
/- The frame ends, and hands nothing over. -/
| returned
    {g : Frame}
    {gs : List Frame}
    (below : rest = g :: gs) :
    Transition exe cfg r f rest memory
      (g.next :: gs) (memory.shrink f.mark)
/- The frame ends, and its caller takes a value. -/
| delivered
    {line : Nat}
    {src : Source}
    {g : Frame}
    {gs : List Frame}
    {q : Routine}
    {dest : Place}
    {v w : Value}
    {t : Target}
    (step : r.code[f.pc]? = some ⟨.ret (some src), line⟩)
    (value : Context.read ⟨r, f, memory⟩ src = .ok v)
    (below : rest = g :: gs)
    (caller : exe.routines[g.routine]? = some q)
    (returnTo : f.returnTo = some dest)
    (target : Context.target ⟨q, g, memory.shrink f.mark⟩ dest v =
      .ok (t, w)) :
    Transition exe cfg r f rest memory
      ((t.frame w g).next :: gs) (t.store w (memory.shrink f.mark))
/- The frame calls a routine. -/
| called
    {line index : Nat}
    {dest : Option Place}
    {args : List Argument}
    {cells : List Cell}
    {q : Routine}
    (step : r.code[f.pc]? =
      some ⟨.call dest (.routine index) args, line⟩)
    (arguments : Context.arguments ⟨r, f, memory⟩ args = .ok cells)
    (callee : exe.routines[index]? = some q)
    (depth : f.below + 1 < cfg.maxDepth)
    (room : memory.size + q.ownedCells ≤ cfg.maxMemory) :
    Transition exe cfg r f rest memory
      (Frame.ofCall index q cells dest memory.size (f.below + 1) ::
        f :: rest)
      (allocate memory q.slots)

------------------------------------------------------------
-- Steps Are Transitions
------------------------------------------------------------

/- A routine that is admitted exists, and has room. -/
theorem admission_eq_ok
    {exe : Executable}
    {cfg : Config}
    {depth used index : Nat}
    {caller : Option Site}
    {r : Routine}
    (h : admission exe cfg depth used caller index = .ok r) :
    exe.routines[index]? = some r ∧
      depth < cfg.maxDepth ∧
      used + r.ownedCells ≤ cfg.maxMemory := by
  unfold admission at h
  split at h
  · cases h
  · next q hRoutine =>
      split at h
      · cases h
      · next hDepth =>
          split at h
          · cases h
          · next hRoom =>
              cases h
              exact ⟨hRoutine, by omega, by omega⟩

namespace Machine

variable {ω : Type}
variable {exe : Executable} {cfg : Config}
variable {r : Routine} {f : Frame} {rest : List Frame}
variable {m m' : Machine ω}

/- A store that goes through writes to the target found. -/
theorem exists_target_of_assign
    {site : Site}
    {result : Except FaultCause (Target × Value)}
    (hFrames : m.frames = f :: rest)
    (h : m.assign site result = .running m') :
    ∃ t w,
      result = .ok (t, w) ∧
        m'.frames = (t.frame w f).next :: rest ∧
        m'.memory = t.store w m.memory := by
  unfold assign at h
  split at h
  · cases h
  · next t w =>
      cases h
      rcases m with ⟨frames, memory, input, output, steps⟩
      cases hFrames
      cases t with
      | cell id => exact ⟨.cell id, w, rfl, rfl, rfl⟩
      | memory address => exact ⟨.memory address, w, rfl, rfl, rfl⟩

theorem frames_advance
    (hFrames : m.frames = f :: rest) :
    m.advance.frames = f.next :: rest := by
  rcases m with ⟨frames, memory, input, output, steps⟩
  cases hFrames
  rfl

theorem frames_jump
    (hFrames : m.frames = f :: rest)
    (pc : Nat) :
    (m.jump pc).frames = { f with pc } :: rest := by
  rcases m with ⟨frames, memory, input, output, steps⟩
  cases hFrames
  rfl

@[simp]
theorem memory_advance
    (m : Machine ω) :
    m.advance.memory = m.memory := by
  rcases m with ⟨_ | _, memory, input, output, steps⟩ <;> rfl

@[simp]
theorem memory_jump
    (m : Machine ω)
    (pc : Nat) :
    (m.jump pc).memory = m.memory := by
  rcases m with ⟨_ | _, memory, input, output, steps⟩ <;> rfl

/- A frame that ends without a value. -/
theorem transition_of_pop_none
    (hFrames : m.frames = f :: rest)
    (h : m.pop exe none = .running m') :
    Transition exe cfg r f rest m.memory m'.frames m'.memory := by
  rcases m with ⟨frames, memory, input, output, steps⟩
  cases hFrames
  cases rest with
  | nil =>
      cases h
      exact .ended rfl
  | cons g gs =>
      have hValue : pop
          ⟨f :: g :: gs, memory, input, output, steps⟩ exe none =
          .running (advance
            ⟨g :: gs, memory.shrink f.mark, input, output, steps⟩) := by
        cases hDest : f.returnTo <;> simp [pop, hDest]
      rw [hValue] at h
      cases h
      exact .returned rfl

/- A frame that ends with a value. -/
theorem transition_of_pop_some
    {line : Nat}
    {src : Source}
    {v : Value}
    (hFrames : m.frames = f :: rest)
    (hStep : r.code[f.pc]? = some ⟨.ret (some src), line⟩)
    (hRead : Context.read ⟨r, f, m.memory⟩ src = .ok v)
    (h : m.pop exe (some v) = .running m') :
    Transition exe cfg r f rest m.memory m'.frames m'.memory := by
  rcases m with ⟨frames, memory, input, output, steps⟩
  cases hFrames
  cases rest with
  | nil =>
      cases h
      exact .ended rfl
  | cons g gs =>
      simp only [pop] at h
      split at h
      · next dest value hDest hSome =>
          cases hSome
          split at h
          · cases h
          · next q hCaller =>
              rcases exists_target_of_assign rfl h with
                ⟨t, w, hTarget, hFrames', hMemory'⟩
              rw [hFrames', hMemory']
              exact .delivered hStep hRead rfl hCaller hDest hTarget
      · cases h
        exact .returned rfl

/- A routine that is entered by a call. -/
theorem transition_of_enter
    {line index : Nat}
    {site : Site}
    {dest : Option Place}
    {args : List Argument}
    {cells : List Cell}
    (hFrames : m.frames = f :: rest)
    (hStep : r.code[f.pc]? =
      some ⟨.call dest (.routine index) args, line⟩)
    (hArguments : Context.arguments ⟨r, f, m.memory⟩ args = .ok cells)
    (h : m.enter exe cfg (some site) index cells dest =
      .running m') :
    Transition exe cfg r f rest m.memory m'.frames m'.memory := by
  unfold enter at h
  split at h
  · cases h
  · next q hAdmission =>
      cases h
      rcases admission_eq_ok hAdmission with
        ⟨hCallee, hDepth, hRoom⟩
      rcases m with ⟨frames, memory, input, output, steps⟩
      cases hFrames
      exact .called hStep hArguments hCallee hDepth hRoom

theorem frames_readInput
    {α : Type}
    (m : Machine ω)
    (read : Input → Except ConsoleError α × Input)
    (value : α → Value) :
    (m.readInput read value).2.frames = m.frames ∧
      (m.readInput read value).2.memory = m.memory := by
  unfold readInput
  dsimp only
  split <;> exact ⟨rfl, rfl⟩

variable [Sink ω]

theorem frames_writeOutput
    (m : Machine ω)
    (chunk : ByteArray) :
    (m.writeOutput chunk).2.frames = m.frames ∧
      (m.writeOutput chunk).2.memory = m.memory := by
  unfold writeOutput
  dsimp only
  split <;> exact ⟨rfl, rfl⟩

/- An intrinsic function changes no frame and no memory. -/
theorem frames_intrinsic
    (m : Machine ω)
    (i : Intrinsic)
    (arg : Option Value) :
    (m.intrinsic i arg).2.frames = m.frames ∧
      (m.intrinsic i arg).2.memory = m.memory := by
  unfold intrinsic
  split
  · exact frames_readInput m _ _
  · exact frames_readInput m _ _
  · exact frames_readInput m _ _
  · exact frames_writeOutput m _
  · exact frames_writeOutput m _
  · split
    · exact frames_writeOutput m _
    · exact ⟨rfl, rfl⟩
  · exact ⟨rfl, rfl⟩

theorem transition_of_callIntrinsic
    {site : Site}
    {dest : Option Place}
    {i : Intrinsic}
    {cells : List Cell}
    {st : Step}
    (hFrames : m.frames = f :: rest)
    (hStep : r.code[f.pc]? = some st)
    (h : m.callIntrinsic r f site dest i cells = .running m') :
    Transition exe cfg r f rest m.memory m'.frames m'.memory := by
  have hKept := frames_intrinsic m i (firstValue cells)
  unfold callIntrinsic at h
  split at h
  · cases h
  · next value m₁ hIntrinsic =>
      rw [hIntrinsic] at hKept
      rcases hKept with ⟨hFrames₁, hMemory₁⟩
      dsimp only at hFrames₁ hMemory₁
      rw [hFrames] at hFrames₁
      split at h
      · next p v =>
          rcases exists_target_of_assign hFrames₁ h with
            ⟨t, w, hTarget, hFrames', hMemory'⟩
          rw [hFrames', hMemory', hMemory₁]
          rw [hMemory₁] at hTarget
          exact .wrote hStep (Context.locates_of_target hTarget)
      · cases h
        rw [frames_advance hFrames₁, memory_advance, hMemory₁]
        exact .moved hStep (.inl rfl)

/- An action that goes through is a transition. -/
theorem transition_of_perform
    {site : Site}
    {st : Step}
    (hFrames : m.frames = f :: rest)
    (hStep : r.code[f.pc]? = some st)
    (h : m.perform exe cfg r f site st.action = .running m') :
    Transition exe cfg r f rest m.memory m'.frames m'.memory := by
  rcases st with ⟨action, line⟩
  cases action with
  | assign dest src =>
      rcases exists_target_of_assign hFrames h with
        ⟨t, w, hResult, hFrames', hMemory'⟩
      rcases Outcome.bind_eq_ok.mp hResult with ⟨v, _, hTarget⟩
      rw [hFrames', hMemory']
      exact .wrote hStep (Context.locates_of_target hTarget)
  | arith op dest lhs rhs =>
      rcases exists_target_of_assign hFrames h with
        ⟨t, w, hResult, hFrames', hMemory'⟩
      simp only [Context.computed, Outcome.bind_eq_ok] at hResult
      rcases hResult with ⟨a, _, b, _, v, _, hTarget⟩
      rw [hFrames', hMemory']
      exact .wrote hStep (Context.locates_of_target hTarget)
  | bit op dest lhs rhs =>
      rcases exists_target_of_assign hFrames h with
        ⟨t, w, hResult, hFrames', hMemory'⟩
      simp only [Context.computed, Outcome.bind_eq_ok] at hResult
      rcases hResult with ⟨a, _, b, _, v, _, hTarget⟩
      rw [hFrames', hMemory']
      exact .wrote hStep (Context.locates_of_target hTarget)
  | goto target =>
      cases h
      rw [frames_jump hFrames, memory_jump]
      exact .moved hStep (.inr rfl)
  | branch cond target lhs rhs =>
      simp only [perform] at h
      split at h
      · cases h
      · cases h
        rw [frames_jump hFrames, memory_jump]
        exact .moved hStep (.inr rfl)
      · cases h
        rw [frames_advance hFrames, memory_advance]
        exact .moved hStep (.inl rfl)
  | ret value =>
      cases value with
      | none => exact transition_of_pop_none hFrames h
      | some src =>
          simp only [perform] at h
          split at h
          · cases h
          · next v hRead =>
              exact transition_of_pop_some hFrames hStep hRead h
  | call dest callee args =>
      simp only [perform] at h
      split at h
      · cases h
      · next cells hArguments =>
          cases callee with
          | routine index =>
              exact transition_of_enter hFrames hStep hArguments h
          | intrinsic i =>
              exact transition_of_callIntrinsic hFrames hStep h
  | load dest array index =>
      rcases exists_target_of_assign hFrames h with
        ⟨t, w, hResult, hFrames', hMemory'⟩
      simp only [Context.loaded, Outcome.bind_eq_ok] at hResult
      rcases hResult with ⟨i, _, address, _, v, _, hTarget⟩
      rw [hFrames', hMemory']
      exact .wrote hStep (Context.locates_of_target hTarget)
  | store value array index =>
      rcases exists_target_of_assign hFrames h with
        ⟨t, w, hResult, hFrames', hMemory'⟩
      simp only [Context.stored, Outcome.bind_eq_ok] at hResult
      rcases hResult with ⟨v, _, i, _, address, hAddress, hTarget⟩
      rw [hFrames', hMemory']
      exact .wrote hStep (Context.locates_of_storeTarget hAddress hTarget)

/- A step that goes through is a transition. -/
theorem transition_of_step
    (hFrames : m.frames = f :: rest)
    (hRoutine : exe.routines[f.routine]? = some r)
    (h : m.step exe cfg = .running m') :
    Transition exe cfg r f rest m.memory m'.frames m'.memory := by
  unfold step at h
  rw [hFrames] at h
  dsimp only at h
  rw [hRoutine] at h
  dsimp only at h
  split at h
  · exact transition_of_pop_none hFrames h
  · next st hStep =>
      split at h
      · cases h
      · -- Counting the step changes no frame and no memory.
        have hTick : m.tick.frames = f :: rest := hFrames
        have hMemory : m.tick.memory = m.memory := rfl
        rw [← hMemory]
        exact transition_of_perform hTick hStep h

/- A machine that steps on has a frame. -/
theorem exists_frame_of_step
    (h : m.step exe cfg = .running m') :
    ∃ f rest, m.frames = f :: rest := by
  cases hFrames : m.frames with
  | nil =>
      unfold step at h
      rw [hFrames] at h
      cases h
  | cons f rest => exact ⟨f, rest, rfl⟩

/- A machine that steps on makes a transition. -/
theorem exists_transition_of_step
    (h : m.step exe cfg = .running m') :
    ∃ f rest r,
      m.frames = f :: rest ∧
        exe.routines[f.routine]? = some r ∧
        Transition exe cfg r f rest m.memory m'.frames m'.memory := by
  rcases exists_frame_of_step h with ⟨f, rest, hFrames⟩
  cases hRoutine : exe.routines[f.routine]? with
  | none =>
      unfold step at h
      simp only [hFrames, hRoutine] at h
      cases h
  | some r =>
      exact ⟨f, rest, r, hFrames, hRoutine,
        transition_of_step hFrames hRoutine h⟩

/-
  The call that the running frame is about to make pushes the
  frame of its callee, with the arguments.
-/
theorem exists_entered_of_call
    {dest : Option Place}
    {index line : Nat}
    {args : List Argument}
    (hFrames : m.frames = f :: rest)
    (hRoutine : exe.routines[f.routine]? = some r)
    (hCode : r.code[f.pc]? =
      some ⟨.call dest (.routine index) args, line⟩)
    (h : m.step exe cfg = .running m') :
    ∃ cells q,
      Context.arguments ⟨r, f, m.memory⟩ args = .ok cells ∧
        exe.routines[index]? = some q ∧
        m' =
          { frames :=
              Frame.ofCall index q cells dest m.memory.size
                (f.below + 1) :: f :: rest
            memory := allocate m.memory q.slots
            input := m.input
            output := m.output
            steps := m.steps + 1 } := by
  unfold step at h
  simp only [hFrames, hRoutine, hCode] at h
  split at h
  · cases h
  · simp only [perform] at h
    split at h
    · cases h
    · next cells hArguments =>
        simp only [enter] at h
        split at h
        · cases h
        · next q hAdmission =>
            cases h
            rcases admission_eq_ok hAdmission with ⟨hCallee, _, _⟩
            rcases m with ⟨frames, memory, input, output, steps⟩
            cases hFrames
            exact ⟨cells, q, hArguments, hCallee, rfl⟩

------------------------------------------------------------
-- Steps That Fail or Finish
------------------------------------------------------------

/- A frame that ends without a value does not fail. -/
omit [Sink ω] in
theorem pop_none_ne_failed
    {e : Fault} :
    m.pop exe none ≠ .failed m' e := by
  intro h
  unfold pop at h
  split at h
  · next f frames memory input output steps =>
      cases frames with
      | nil => cases h
      | cons g gs => cases hDest : f.returnTo <;> simp [hDest] at h
  · cases h

omit [Sink ω] in
theorem failure_of_enter
    {caller : Option Site}
    {index : Nat}
    {args : List Cell}
    {dest : Option Place}
    {e : Fault}
    (h : m.enter exe cfg caller index args dest = .failed m' e) :
    m' = m := by
  unfold enter at h
  split at h
  · cases h
    rfl
  · cases h

omit [Sink ω] in
theorem assign_ne_finished
    {site : Site}
    {result : Except FaultCause (Target × Value)} :
    m.assign site result ≠ .finished m' := by
  cases result with
  | error cause => nofun
  | ok found => nofun

omit [Sink ω] in
theorem pop_ne_finished
    {value : Option Value}
    (hFrames : m.frames = f :: rest) :
    m.pop exe value ≠ .finished m' := by
  rcases m with ⟨frames, memory, input, output, steps⟩
  cases hFrames
  intro h
  cases rest with
  | nil => cases h
  | cons g gs =>
      simp only [pop] at h
      split at h
      · split at h
        · cases h
        · exact assign_ne_finished h
      · cases h

theorem perform_ne_finished
    {site : Site}
    {action : Action}
    (hFrames : m.frames = f :: rest) :
    m.perform exe cfg r f site action ≠ .finished m' := by
  intro h
  cases action with
  | assign | arith | bit | load | store => exact assign_ne_finished h
  | goto target => cases h
  | branch cond target lhs rhs =>
      simp only [perform] at h
      split at h <;> cases h
  | ret value =>
      cases value with
      | none => exact pop_ne_finished hFrames h
      | some src =>
          simp only [perform] at h
          split at h
          · cases h
          · exact pop_ne_finished hFrames h
  | call dest callee args =>
      simp only [perform] at h
      split at h
      · cases h
      · cases callee with
        | routine index =>
            simp only [enter] at h
            split at h <;> cases h
        | intrinsic i =>
            simp only [callIntrinsic] at h
            split at h
            · cases h
            · split at h
              · exact assign_ne_finished h
              · cases h

/- Only a machine without frames finishes, and stays as it is. -/
theorem eq_of_step_finished
    (h : m.step exe cfg = .finished m') :
    m' = m ∧ m.frames = [] := by
  unfold step at h
  split at h
  · next hFrames =>
      cases h
      exact ⟨rfl, hFrames⟩
  · next f rest hFrames =>
      exfalso
      split at h
      · cases h
      · split at h
        · exact pop_ne_finished hFrames h
        · split at h
          · cases h
          · -- Counting the step changes no frame.
            have hTick : m.tick.frames = f :: rest := hFrames
            exact perform_ne_finished hTick h

------------------------------------------------------------
-- Runs
------------------------------------------------------------

/-
  The machines that a run goes through: the one with the
  first frame, and every one that a step leads to.
-/
inductive Reachable
    (exe : Executable)
    (cfg : Config)
    (input : Input)
    (output : ω) : Machine ω → Prop where
| start
    {m : Machine ω}
    (enter : (Machine.initial input output).enter exe cfg none
      exe.entry [] none = .running m) :
    Reachable exe cfg input output m
| step
    {m m' : Machine ω}
    (before : Reachable exe cfg input output m)
    (step : m.step exe cfg = .running m') :
    Reachable exe cfg input output m'

/-
  A property of the first machine that steps preserve holds
  throughout the run.
-/
theorem Reachable.invariant
    {input : Input}
    {output : ω}
    {P : Machine ω → Prop}
    (hStart : ∀ m : Machine ω,
      (Machine.initial input output).enter exe cfg none
        exe.entry [] none = .running m → P m)
    (hStep : ∀ m m' : Machine ω,
      Reachable exe cfg input output m → P m →
        m.step exe cfg = .running m' → P m')
    (h : Reachable exe cfg input output m) :
    P m := by
  induction h with
  | start hEnter => exact hStart _ hEnter
  | step hBefore hNext ih => exact hStep _ _ hBefore ih hNext

/- A run that ends does so by a step of a machine on its way. -/
theorem Reachable.exists_last
    {input : Input}
    {output : ω}
    {rounds : Nat}
    {result : Except Fault Unit}
    (h : Reachable exe cfg input output m)
    (hDrive : drive exe cfg rounds m = some (result, m')) :
    ∃ last,
      Reachable exe cfg input output last ∧
        ((result = .ok () ∧ last.step exe cfg = .finished m') ∨
          ∃ e, result = .error e ∧
            last.step exe cfg = .failed m' e) := by
  induction rounds generalizing m with
  | zero => cases hDrive
  | succ rounds ih =>
      unfold drive at hDrive
      split at hDrive
      · next m₁ hNext => exact ih (.step h hNext) hDrive
      · next m₁ hNext =>
          cases hDrive
          exact ⟨m, h, .inl ⟨rfl, hNext⟩⟩
      · next m₁ e hNext =>
          cases hDrive
          exact ⟨m, h, .inr ⟨e, rfl, hNext⟩⟩

/-
  A run ends because its first call is refused, or by a step
  of a machine on its way.
-/
theorem exists_last_of_runEntry
    {input : Input}
    {output : ω}
    {rounds : Nat}
    {result : Except Fault Unit}
    (h : runEntry exe cfg rounds (Machine.initial input output) =
      some (result, m)) :
    (∃ e,
      result = .error e ∧
        (Machine.initial input output).enter exe cfg none
          exe.entry [] none = .failed m e) ∨
      ∃ last,
        Reachable exe cfg input output last ∧
          ((result = .ok () ∧ last.step exe cfg = .finished m) ∨
            ∃ e, result = .error e ∧
              last.step exe cfg = .failed m e) := by
  unfold runEntry at h
  split at h
  · next first hEnter =>
      have hStart : Reachable exe cfg input output first :=
        .start hEnter
      exact .inr (hStart.exists_last h)
  · next hEnter =>
      simp only [enter] at hEnter
      split at hEnter <;> cases hEnter
  · next m₁ e hEnter =>
      cases h
      exact .inl ⟨e, rfl, hEnter⟩

/- The flush of the output changes no frame and no memory. -/
theorem machine_flush
    (exe : Executable)
    (result : Except Fault Unit)
    (m : Machine ω) :
    (flush exe result m).2 =
        { m with output := (Sink.flush m.output).1 } ∧
      ((flush exe result m).1 = .ok () → result = .ok ()) := by
  unfold flush
  dsimp only
  split
  · exact ⟨rfl, nofun⟩
  · exact ⟨rfl, id⟩

end Machine

end ThreeAddress
