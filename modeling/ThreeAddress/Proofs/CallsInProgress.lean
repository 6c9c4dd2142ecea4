import ThreeAddress.Proofs.ArrayLayout

/-
  This file follows a call from the step that pushes the
  frame of the callee to the one that pops it. The frames
  below stay as they are, and of the memory that was there
  when the call started only what is lent to the callee may
  change: the arrays of all other frames of the call lie
  behind it.

  Key definitions include:
    * `Machine.ending?`
    * `Machine.StaysAbove`, `Machine.CallReturns`
    * `Lends`
    * `CallStack`, `InCall`

  Main statements:
    * `Machine.exists_pop_of_ending`
    * `Machine.length_le_of_step`
    * `InCall.of_transition`
    * `InCall.of_staysAbove`
-/

namespace ThreeAddress

------------------------------------------------------------
-- The End of a Frame
------------------------------------------------------------

namespace Machine

variable {ω : Type}

/-
  What the running frame hands over, if its next step ends
  it. A frame ends by a return, or behind its last step.
-/
def ending? (exe : Executable) (m : Machine ω) : Option (Option Value) :=
  match m.frames with
  | [] => none
  | f :: _ =>
      match exe.routines[f.routine]? with
      | none => none
      | some r =>
          match r.code[f.pc]? with
          | none => some none
          | some ⟨.ret none, _⟩ => some none
          | some ⟨.ret (some src), _⟩ =>
              (Context.read ⟨r, f, m.memory⟩ src).toOption.map some
          | some _ => none

variable {exe : Executable} {cfg : Config}
variable {r : Routine} {f : Frame} {rest : List Frame}
variable {m m' : Machine ω}

/- A store keeps the frames in number. -/
theorem length_of_assign
    {site : Site}
    {result : Except FaultCause (Target × Value)}
    (hFrames : m.frames = f :: rest)
    (h : m.assign site result = .running m') :
    m'.frames.length = m.frames.length := by
  rcases exists_target_of_assign hFrames h with ⟨t, w, _, hAfter, _⟩
  rw [hAfter, hFrames]
  rfl

theorem length_advance
    (hFrames : m.frames = f :: rest) :
    m.advance.frames.length = m.frames.length := by
  rw [frames_advance hFrames, hFrames]
  rfl

theorem length_jump
    (hFrames : m.frames = f :: rest)
    (pc : Nat) :
    (m.jump pc).frames.length = m.frames.length := by
  rw [frames_jump hFrames, hFrames]
  rfl

variable [Sink ω]

/- A step that ends the frame pops it with what it hands over. -/
theorem exists_pop_of_ending
    {value : Option Value}
    (hEnding : m.ending? exe = some value)
    (h : m.step exe cfg = .running m') :
    ∃ steps, pop { m with steps } exe value = .running m' := by
  unfold ending? at hEnding
  unfold step at h
  split at hEnding
  · cases hEnding
  · next f rest hFrames =>
      simp only [hFrames] at h
      split at hEnding
      · cases hEnding
      · next r hRoutine =>
          simp only [hRoutine] at h
          split at hEnding
          · next hCode =>
              cases hEnding
              simp only [hCode] at h
              exact ⟨m.steps, h⟩
          · next hCode =>
              cases hEnding
              simp only [hCode] at h
              split at h
              · cases h
              · exact ⟨m.steps + 1, h⟩
          · next src _ hCode =>
              simp only [hCode] at h
              have hTick : m.tick.memory = m.memory := rfl
              cases hRead : Context.read ⟨r, f, m.memory⟩ src with
              | error cause =>
                  rw [hRead] at hEnding
                  cases hEnding
              | ok v =>
                  rw [hRead] at hEnding
                  cases hEnding
                  split at h
                  · cases h
                  · simp only [perform, hTick, hRead] at h
                    exact ⟨m.steps + 1, h⟩
          · cases hEnding

/- A step that does not end the frame pops none. -/
theorem length_le_of_perform
    {site : Site}
    {action : Action}
    (hFrames : m.frames = f :: rest)
    (hAction : ∀ value, action ≠ .ret value)
    (h : m.perform exe cfg r f site action = .running m') :
    m.frames.length ≤ m'.frames.length := by
  cases action with
  | assign | arith | bit | load | store =>
      exact Nat.le_of_eq (length_of_assign hFrames h).symm
  | goto target =>
      cases h
      exact Nat.le_of_eq (length_jump hFrames target).symm
  | branch cond target lhs rhs =>
      simp only [perform] at h
      split at h
      · cases h
      · cases h
        exact Nat.le_of_eq (length_jump hFrames target).symm
      · cases h
        exact Nat.le_of_eq (length_advance hFrames).symm
  | ret value => exact absurd rfl (hAction value)
  | call dest callee args =>
      simp only [perform] at h
      split at h
      · cases h
      · next cells _ =>
          cases callee with
          | routine index =>
              simp only [enter] at h
              split at h
              · cases h
              · cases h
                exact Nat.le_succ _
          | intrinsic i =>
              have hKept := (frames_intrinsic m i (firstValue cells)).1
              simp only [callIntrinsic] at h
              split at h
              · cases h
              · next m₁ hIntrinsic =>
                  rw [hIntrinsic] at hKept
                  have hFrames₁ := hKept.trans hFrames
                  rw [← hKept]
                  split at h
                  · exact Nat.le_of_eq
                      (length_of_assign hFrames₁ h).symm
                  · cases h
                    exact Nat.le_of_eq (length_advance hFrames₁).symm

theorem length_le_of_step
    (hEnding : m.ending? exe = none)
    (h : m.step exe cfg = .running m') :
    m.frames.length ≤ m'.frames.length := by
  unfold ending? at hEnding
  unfold step at h
  split at h
  · cases h
  · next f rest hFrames =>
      simp only [hFrames] at hEnding
      split at h
      · cases h
      · next r hRoutine =>
          simp only [hRoutine] at hEnding
          split at h
          · next hCode =>
              simp only [hCode] at hEnding
              cases hEnding
          · next st hCode =>
              split at h
              · cases h
              · -- Counting the step changes no frame and no memory.
                have hTick : m.tick.frames = f :: rest := hFrames
                have hMemory : m.tick.memory = m.memory := rfl
                have hLength :
                    m.frames.length = m.tick.frames.length := rfl
                rw [hLength]
                refine length_le_of_perform hTick ?_ h
                intro value hRet
                rcases st with ⟨action, line⟩
                dsimp only at h hRet
                subst hRet
                simp only [hCode] at hEnding
                cases value with
                | none => cases hEnding
                | some src =>
                    simp only [perform, hMemory] at h
                    split at h
                    · cases h
                    · next v hRead =>
                        simp only [hRead] at hEnding
                        cases hEnding

------------------------------------------------------------
-- Calls in Progress
------------------------------------------------------------

/-
  The machines that steps lead to from a machine, as long as
  there are more than a number of frames.
-/
inductive StaysAbove
    (exe : Executable)
    (cfg : Config)
    (height : Nat)
    (m : Machine ω) : Machine ω → Prop where
| here (above : height < m.frames.length) :
    StaysAbove exe cfg height m m
| step
    {last next : Machine ω}
    (before : StaysAbove exe cfg height m last)
    (step : last.step exe cfg = .running next)
    (above : height < next.frames.length) :
    StaysAbove exe cfg height m next

/-
  The call that a machine is about to make goes on until a
  step from the last machine of the callee pops its frame.
-/
structure CallReturns
    (exe : Executable)
    (cfg : Config)
    (m last after : Machine ω) : Prop where
  inside :
    ∃ entered,
      m.step exe cfg = .running entered ∧
        StaysAbove exe cfg m.frames.length entered last
  step : last.step exe cfg = .running after
  popped : after.frames.length = m.frames.length

end Machine

/- An array among the cells holds the address. -/
def Lends (cells : List Cell) (address : Nat) : Prop :=
  ∃ c ∈ cells, ∃ span, c.span? = some span ∧ span.Contains address

/- An array lies behind a limit, what is lent apart. -/
def Cell.Confined (limit : Nat) (lent : List Cell) (c : Cell) : Prop :=
  ∀ span address, c.span? = some span → span.Contains address →
    limit ≤ address ∨ Lends lent address

def Frame.Confined
    (limit : Nat)
    (lent : List Cell)
    (f : Frame) : Prop :=
  ∀ c ∈ f.cells, c.Confined limit lent

/-
  The frames of a call in progress, over those below it: the
  frame of the callee, whose own arrays start at the limit,
  and the frames of the calls that it makes.
-/
inductive CallStack
    (limit : Nat)
    (lent : List Cell)
    (dest : Option Place)
    (below : List Frame) : List Frame → Prop where
| callee
    {f : Frame}
    (mark : f.mark = limit)
    (returnTo : f.returnTo = dest)
    (confined : f.Confined limit lent) :
    CallStack limit lent dest below (f :: below)
| nested
    {f : Frame}
    {frames : List Frame}
    (mark : limit ≤ f.mark)
    (confined : f.Confined limit lent)
    (rest : CallStack limit lent dest below frames) :
    CallStack limit lent dest below (f :: frames)

/-
  A call is in progress: the frames below it are as they were
  when it started, and so is the memory that was there then,
  what is lent apart.
-/
structure InCall
    (before : Array Value)
    (lent : List Cell)
    (dest : Option Place)
    (below frames : List Frame)
    (memory : Array Value) : Prop where
  stack : CallStack before.size lent dest below frames
  size : before.size ≤ memory.size
  kept :
    ∀ address, address < before.size → ¬ Lends lent address →
      memory[address]? = before[address]?

theorem Cell.confined_scalar
    (limit : Nat)
    (lent : List Cell)
    (v : Value) :
    (Cell.scalar v).Confined limit lent :=
  nofun

/- A write leaves a frame confined. -/
theorem Frame.Confined.write
    {limit : Nat}
    {lent : List Cell}
    {f : Frame}
    (h : f.Confined limit lent)
    (t : Target)
    (w : Value) :
    (t.frame w f).next.Confined limit lent := by
  intro c hc
  cases t with
  | memory address => exact h c hc
  | cell id =>
      rcases Array.mem_or_eq_of_mem_setIfInBounds hc with hOld | rfl
      · exact h c hOld
      · exact Cell.confined_scalar limit lent w

/- The cells of a new frame are its arguments, or lie behind. -/
theorem Cell.confined_bindCells
    {limit : Nat}
    {lent : List Cell}
    {slots : List Slot}
    {args : List Cell}
    {base : Nat}
    (hArgs : ∀ c ∈ args, c.Confined limit lent)
    (hBase : limit ≤ base) :
    ∀ c ∈ bindCells slots args base, c.Confined limit lent := by
  apply forall_mem_bindCells (Cell.confined_scalar limit lent) hArgs
  intro start n hStart _ span address hSpan hContains
  cases hSpan
  have hBehind : start ≤ address := hContains.1
  exact .inl (by omega)

section Effects

variable {before : Array Value} {lent : List Cell}
variable {dest : Option Place} {below : List Frame}
variable {exe : Executable} {cfg : Config}
variable {r : Routine} {f : Frame} {rest : List Frame}
variable {memory : Array Value}

/- The first frame may change in all but its mark and its end. -/
theorem CallStack.replace
    {limit : Nat}
    {g : Frame}
    (h : CallStack limit lent dest below (f :: rest))
    (hMark : g.mark = f.mark)
    (hReturn : g.returnTo = f.returnTo)
    (hConfined : f.Confined limit lent → g.Confined limit lent) :
    CallStack limit lent dest below (g :: rest) := by
  cases h with
  | callee hLimit hDest hOld =>
      exact .callee (hMark.trans hLimit) (hReturn.trans hDest)
        (hConfined hOld)
  | nested hLimit hOld hRest =>
      exact .nested (by omega) (hConfined hOld) hRest

theorem CallStack.confined
    {limit : Nat}
    (h : CallStack limit lent dest below (f :: rest)) :
    f.Confined limit lent := by
  cases h with
  | callee _ _ hConfined => exact hConfined
  | nested _ hConfined _ => exact hConfined

/- Jumps stay within the call. -/
theorem InCall.move
    (h : InCall before lent dest below (f :: rest) memory)
    (pc : Nat) :
    InCall before lent dest below ({ f with pc } :: rest) memory :=
  ⟨h.stack.replace rfl rfl id, h.size, h.kept⟩

/- Writes change only what is lent, or lies behind. -/
theorem InCall.write
    {v w : Value}
    {t : Target}
    (h : InCall before lent dest below (f :: rest) memory)
    (hTarget : Context.Locates ⟨r, f, memory⟩ v t w) :
    InCall before lent dest below ((t.frame w f).next :: rest)
      (t.store w memory) := by
  constructor
  · apply h.stack.replace
    · cases t <;> rfl
    · cases t <;> rfl
    · intro hConfined
      exact hConfined.write t w
  · rw [Target.size_store]
    exact h.size
  · intro address hAddress hNotLent
    rw [← h.kept address hAddress hNotLent]
    cases hTarget with
    | cell _ _ _ => rfl
    | @memory id base length k _ _ _ hCell hWithin _ _ =>
        have hSpan : Span.Contains ⟨base, length⟩ (base + k) :=
          ⟨Nat.le_add_right _ _, Nat.add_lt_add_left hWithin _⟩
        -- What the frame can reach is lent, or lies behind.
        have hOther : base + k ≠ address := by
          rintro rfl
          rcases h.stack.confined _ (Array.mem_of_getElem? hCell)
            _ _ rfl hSpan with hBehind | hLent
          · omega
          · exact hNotLent hLent
        exact Array.getElem?_setIfInBounds_ne hOther

/- A frame of the call that ends takes only its arrays with it. -/
theorem InCall.pop
    (h : InCall before lent dest below (f :: rest) memory)
    (hDeeper : below.length < rest.length) :
    InCall before lent dest below rest (memory.shrink f.mark) := by
  have hSize := h.size
  cases h.stack with
  | callee _ _ _ => omega
  | nested hMark _ hRest =>
      -- The cut is made behind the memory that was there before.
      refine ⟨hRest, ?_, ?_⟩
      · rw [Array.size_shrink]
        omega
      · intro address hAddress hNotLent
        rw [getElem?_shrink memory (by omega)]
        exact h.kept address hAddress hNotLent

/- A call puts arrays behind the memory, whatever it holds. -/
theorem allocate_eq_append
    (memory : Array Value)
    (slots : Array Slot) :
    allocate memory slots = memory ++ allocate #[] slots := by
  have hFold : ∀ (slots : List Slot) (front memory : Array Value),
      slots.foldl allocateSlot (front ++ memory) =
        front ++ slots.foldl allocateSlot memory := by
    intro slots
    induction slots with
    | nil =>
        intro front memory
        rfl
    | cons s slots ih =>
        intro front memory
        rw [List.foldl_cons, List.foldl_cons, ← ih]
        simp only [allocateSlot, Array.append_assoc]
  rw [allocate_eq_foldl, allocate_eq_foldl, ← hFold,
    Array.append_empty]

/- A call leaves the memory in front of its arrays as it is. -/
theorem getElem?_allocate
    {address : Nat}
    (memory : Array Value)
    (slots : Array Slot)
    (h : address < memory.size) :
    (allocate memory slots)[address]? = memory[address]? := by
  rw [allocate_eq_append, Array.getElem?_append_left h]

/- A step that does not end the call stays within it. -/
theorem InCall.of_transition
    {frames : List Frame}
    {memory' : Array Value}
    (h : InCall before lent dest below (f :: rest) memory)
    (hNext : Transition exe cfg r f rest memory frames memory')
    (hDeeper : below.length < frames.length) :
    InCall before lent dest below frames memory' := by
  cases hNext with
  | moved _ _ => exact h.move _
  | wrote _ hTarget => exact h.write hTarget
  | ended _ => cases hDeeper
  | returned hBelow =>
      subst hBelow
      exact (h.pop hDeeper).move _
  | delivered _ _ hBelow _ _ hTarget =>
      subst hBelow
      exact (h.pop hDeeper).write (Context.locates_of_target hTarget)
  | @called _ _ _ _ cells q _ hArguments _ _ _ =>
      have hSize := h.size
      refine ⟨.nested hSize ?_ h.stack, ?_, ?_⟩
      · intro c hc
        have hCells : ∀ c ∈ cells, c.Confined before.size lent := by
          refine Context.forall_mem_arguments
            (Cell.confined_scalar _ _) ?_ hArguments
          exact h.stack.confined
        exact Cell.confined_bindCells hCells hSize c
          (by simpa [Frame.ofCall] using hc)
      · rw [size_allocate]
        omega
      · intro address hAddress hNotLent
        rw [getElem?_allocate memory q.slots (by omega)]
        exact h.kept address hAddress hNotLent

/- More frames are in progress than below the call. -/
theorem CallStack.length_lt
    {limit : Nat}
    {frames : List Frame}
    (h : CallStack limit lent dest below frames) :
    below.length < frames.length := by
  induction h with
  | callee _ _ _ => exact Nat.lt_succ_self _
  | nested _ _ _ ih => exact Nat.lt_succ_of_lt ih

/- The frame right above those below the call is the callee. -/
theorem CallStack.eq_callee
    {limit : Nat}
    (h : CallStack limit lent dest below (f :: rest))
    (hLength : rest.length ≤ below.length) :
    rest = below ∧ f.mark = limit ∧ f.returnTo = dest := by
  cases h with
  | callee hMark hReturn _ => exact ⟨rfl, hMark, hReturn⟩
  | nested _ _ hRest =>
      have hDeeper := hRest.length_lt
      omega

/- The call starts with what it is given. -/
theorem InCall.of_call
    (before : Array Value)
    (index : Nat)
    (q : Routine)
    (cells : List Cell)
    (dest : Option Place)
    (count : Nat)
    (below : List Frame) :
    InCall before cells dest below
      (Frame.ofCall index q cells dest before.size count :: below)
      (allocate before q.slots) := by
  have hCells : ∀ c ∈ cells, c.Confined before.size cells := by
    intro c hc span address hSpan hContains
    exact .inr ⟨c, hc, span, hSpan, hContains⟩
  refine ⟨.callee rfl rfl ?_, ?_, ?_⟩
  · intro c hc
    exact Cell.confined_bindCells hCells (Nat.le_refl _) c
      (by simpa [Frame.ofCall] using hc)
  · rw [size_allocate]
    exact Nat.le_add_right _ _
  · intro address hAddress _
    exact getElem?_allocate before q.slots hAddress

/- The call goes on while its frames are in progress. -/
theorem InCall.of_staysAbove
    {ω : Type}
    [Sink ω]
    {entered last : Machine ω}
    (h : InCall before lent dest below entered.frames entered.memory)
    (hStays :
      Machine.StaysAbove exe cfg below.length entered last) :
    InCall before lent dest below last.frames last.memory := by
  induction hStays with
  | here _ => exact h
  | step _ hStep hAbove ih =>
      rcases Machine.exists_transition_of_step hStep with
        ⟨f, rest, r, hFrames, _, hNext⟩
      rw [hFrames] at ih
      exact ih.of_transition hNext hAbove

/- What is left of the memory is as before, what is lent apart. -/
theorem InCall.getElem?_shrink
    {frames : List Frame}
    {address : Nat}
    (h : InCall before lent dest below frames memory)
    (hNotLent : ¬ Lends lent address) :
    (memory.shrink before.size)[address]? = before[address]? := by
  by_cases hAddress : address < before.size
  · rw [ThreeAddress.getElem?_shrink memory hAddress]
    exact h.kept address hAddress hNotLent
  · have hSize : (memory.shrink before.size).size ≤ address := by
      rw [Array.size_shrink]
      omega
    rw [Array.getElem?_eq_none hSize,
      Array.getElem?_eq_none (Nat.le_of_not_lt hAddress)]

end Effects

end ThreeAddress
