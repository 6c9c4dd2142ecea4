import ThreeAddress.Proofs.CallsInProgress

/-
  This file shows what a call that returns has touched: the
  arrays that it was passed, and the place that takes what it
  hands over, as that place was when the call started.

  Key definitions include:
    * `Context.PlaceLent`

  Main statements:
    * `Context.readPlace_of_target`
    * `Machine.CallReturns.exists_return`
    * `call_touches_only_what_it_was_given`
-/

namespace ThreeAddress

------------------------------------------------------------
-- Destinations
------------------------------------------------------------

namespace Context

variable {r : Routine} {f : Frame} {memory : Array Value}
variable {p : Place} {v w : Value} {t : Target}

/- Where a write goes does not depend on what the memory holds. -/
theorem target_congr
    {a b : Array Value}
    (h : a.size = b.size)
    (p : Place)
    (v : Value) :
    target ⟨r, f, a⟩ p v = target ⟨r, f, b⟩ p v := by
  cases p with
  | slot id => rfl
  | element id i =>
      have hElement :
          elementAddress ⟨r, f, a⟩ id i =
            elementAddress ⟨r, f, b⟩ id i := rfl
      have hStore : ∀ address,
          storeTarget ⟨r, f, a⟩ id address v =
            storeTarget ⟨r, f, b⟩ id address v := by
        intro address
        simp only [storeTarget, h]
        rfl
      simp only [target, hElement, hStore]

/- What a write stores has the type of its place. -/
theorem coerce?_of_target
    {type : Scalar}
    (hType : p.HasType r.slots type)
    (h : target ⟨r, f, memory⟩ p v = .ok (t, w)) :
    v.coerce? type = some w := by
  have hCoerce : ∀ {id : Nat} {s : Slot},
      r.slots[id]? = some s → s.shape.element = type →
        coerce ⟨r, f, memory⟩ id v = .ok w →
          v.coerce? type = some w := by
    intro id s hSlot hElement hCoerce
    rcases exists_slot_of_coerce hCoerce with ⟨s', hSlot', hValue⟩
    have hSame : r.slots[id]? = some s' := hSlot'
    rw [hSlot] at hSame
    cases hSame
    rw [← hElement]
    exact hValue
  cases hType with
  | slot hSlot hShape =>
      simp only [target] at h
      split at h
      · cases h
      · next value hFound =>
          split at h
          · cases h
            exact hCoerce hSlot (by rw [hShape]; rfl) hFound
          · cases h
  | element hSlot hShape _ =>
      simp only [target] at h
      split at h
      · cases h
      · simp only [storeTarget] at h
        split at h
        · cases h
        · next value hFound =>
            split at h
            · cases h
              exact hCoerce hSlot (by rw [hShape]; rfl) hFound
            · cases h

/- A place that was written to holds what was stored. -/
theorem readPlace_of_target
    (h : target ⟨r, f, memory⟩ p v = .ok (t, w)) :
    readPlace ⟨r, (t.frame w f).next, t.store w memory⟩ p =
      .ok w := by
  cases p with
  | slot id =>
      simp only [target] at h
      split at h
      · cases h
      · split at h
        · next old hCell =>
            cases h
            have hBound : id < f.cells.size :=
              (Array.getElem?_eq_some_iff.mp hCell).1
            apply slotValue_eq_ok_iff.mpr
            simp [Target.frame, Frame.next, hBound]
        · cases h
  | element id i =>
      simp only [target] at h
      split at h
      · cases h
      · next address hAddress =>
          simp only [storeTarget] at h
          split at h
          · cases h
          · split at h
            · next hInside =>
                cases h
                have hSame :
                    elementAddress
                      ⟨r, Frame.next (Target.frame (.memory address) w f),
                        Target.store (.memory address) w memory⟩
                      id i = .ok address := hAddress
                simp only [readPlace]
                rw [hSame]
                simp only [fetch, Target.store]
                rw [Array.getElem?_setIfInBounds_self_of_lt hInside]
            · cases h

/- The place is an element of an array that is lent. -/
def PlaceLent (x : Context) (lent : List Cell) (p : Place) : Prop :=
  ∃ id i address,
    p = .element id i ∧
      x.elementAddress id i = .ok address ∧
      Lends lent address

/- A place that is not lent holds what it held before. -/
theorem readPlace_of_not_placeLent
    {before after : Array Value}
    {lent : List Cell}
    (hNotLent : ¬ PlaceLent ⟨r, f, before⟩ lent p)
    (hKept : ∀ address, ¬ Lends lent address →
      after[address]? = before[address]?) :
    readPlace ⟨r, f.next, after⟩ p = readPlace ⟨r, f, before⟩ p := by
  cases p with
  | slot id => rfl
  | element id i =>
      have hSame :
          elementAddress ⟨r, f.next, after⟩ id i =
            elementAddress ⟨r, f, before⟩ id i := rfl
      simp only [readPlace]
      rw [hSame]
      cases hAddress : elementAddress ⟨r, f, before⟩ id i with
      | error cause => rfl
      | ok address =>
          have hOutside : ¬ Lends lent address :=
            fun hLent => hNotLent ⟨id, i, address, rfl, hAddress, hLent⟩
          simp only [fetch, hKept address hOutside]

end Context

------------------------------------------------------------
-- Returns
------------------------------------------------------------

namespace Machine

variable {ω : Type}
variable {exe : Executable} {cfg : Config}
variable {r : Routine} {f g : Frame} {rest : List Frame}
variable {m m' : Machine ω}

theorem sizes_of_pop
    {value : Option Value}
    (hFrames : m.frames = g :: rest)
    (h : m.pop exe value = .running m') :
    m'.frames.length = rest.length ∧
      m'.memory.size = (m.memory.shrink g.mark).size := by
  rcases m with ⟨frames, memory, input, output, steps⟩
  cases hFrames
  cases rest with
  | nil =>
      cases h
      exact ⟨rfl, rfl⟩
  | cons f rest =>
      simp only [pop] at h
      split at h
      · split at h
        · cases h
        · rcases exists_target_of_assign rfl h with
            ⟨t, w, _, hAfter, hMemory⟩
          rw [hAfter, hMemory, Target.size_store]
          exact ⟨rfl, rfl⟩
      · cases h
        exact ⟨rfl, rfl⟩

/- Nothing is stored when nothing is handed over or asked for. -/
theorem frames_of_pop_none
    {value : Option Value}
    (hFrames : m.frames = g :: f :: rest)
    (hNone : g.returnTo = none ∨ value = none)
    (h : m.pop exe value = .running m') :
    m'.frames = f.next :: rest ∧
      m'.memory = m.memory.shrink g.mark := by
  rcases m with ⟨frames, memory, input, output, steps⟩
  cases hFrames
  simp only [pop] at h
  split at h
  · next p v hReturn =>
      rcases hNone with hNone | hNone
      · rw [hNone] at hReturn
        cases hReturn
      · cases hNone
  · cases h
    exact ⟨rfl, rfl⟩

/- What is handed over is stored where the call asked for it. -/
theorem exists_target_of_pop
    {p : Place}
    {v : Value}
    (hFrames : m.frames = g :: f :: rest)
    (hRoutine : exe.routines[f.routine]? = some r)
    (hReturn : g.returnTo = some p)
    (h : m.pop exe (some v) = .running m') :
    ∃ t w,
      Context.target ⟨r, f, m.memory.shrink g.mark⟩ p v =
          .ok (t, w) ∧
        m'.frames = (t.frame w f).next :: rest ∧
        m'.memory = t.store w (m.memory.shrink g.mark) := by
  rcases m with ⟨frames, memory, input, output, steps⟩
  cases hFrames
  simp only [pop, hReturn, hRoutine] at h
  exact exists_target_of_assign rfl h

variable [Sink ω]

/-
  When a call returns its last step pops the callee, which
  stands right above the frames that were there before.
-/
theorem CallReturns.exists_pop
    {last after : Machine ω}
    {before : Array Value}
    {lent : List Cell}
    {dest : Option Place}
    (h : m.CallReturns exe cfg last after)
    (hCall : InCall before lent dest m.frames last.frames last.memory) :
    ∃ g value steps,
      last.frames = g :: m.frames ∧
        g.mark = before.size ∧
        g.returnTo = dest ∧
        last.ending? exe = some value ∧
        pop { last with steps } exe value = .running after := by
  have hDeeper := hCall.stack.length_lt
  have hPopped := h.popped
  cases hEnding : last.ending? exe with
  | none =>
      have hLength := length_le_of_step hEnding h.step
      omega
  | some value =>
      rcases exists_pop_of_ending hEnding h.step with ⟨steps, hPop⟩
      rcases exists_frame_of_step h.step with ⟨g, rest, hFrames⟩
      have hStack := hCall.stack
      rw [hFrames] at hStack
      have hSteps : ({ last with steps } : Machine ω).frames =
          g :: rest := hFrames
      have hLength := (sizes_of_pop hSteps hPop).1
      rcases hStack.eq_callee (by omega) with ⟨rfl, hMark, hReturn⟩
      exact ⟨g, value, steps, hFrames, hMark, hReturn, rfl, hPop⟩

/-
  What a call that returns leaves of the memory is as long as
  before, and as before in all that is not lent.
-/
theorem CallReturns.exists_return
    {last after : Machine ω}
    {dest : Option Place}
    {index line : Nat}
    {args : List Argument}
    (hFrames : m.frames = f :: rest)
    (hRoutine : exe.routines[f.routine]? = some r)
    (hCode : r.code[f.pc]? =
      some ⟨.call dest (.routine index) args, line⟩)
    (h : m.CallReturns exe cfg last after) :
    ∃ lent value g steps,
      Context.arguments ⟨r, f, m.memory⟩ args = .ok lent ∧
        last.ending? exe = some value ∧
        ({ last with steps } : Machine ω).frames = g :: f :: rest ∧
        g.returnTo = dest ∧
        (last.memory.shrink g.mark).size = m.memory.size ∧
        (∀ address, ¬ Lends lent address →
          (last.memory.shrink g.mark)[address]? =
            m.memory[address]?) ∧
        pop { last with steps } exe value = .running after := by
  rcases h.inside with ⟨entered, hStep, hStays⟩
  rcases exists_entered_of_call hFrames hRoutine hCode hStep with
    ⟨lent, q, hArguments, _, rfl⟩
  have hStart := InCall.of_call m.memory index q lent dest
    (f.below + 1) m.frames
  rw [← hFrames] at hStays
  have hCall := hStart.of_staysAbove hStays
  have hGrown := hCall.size
  rcases h.exists_pop hCall with
    ⟨g, value, steps, hLast, hMark, hReturn, hEnding, hPop⟩
  rw [hFrames] at hLast
  refine ⟨lent, value, g, steps, hArguments, hEnding, hLast, hReturn,
    ?_, ?_, hPop⟩
  · rw [hMark, Array.size_shrink]
    omega
  · intro address hNotLent
    rw [hMark]
    exact hCall.getElem?_shrink hNotLent

end Machine

/-
  A call touches only what it was given. When the frame of a
  routine that a verified program calls has been popped, the
  memory is as long as it was and holds what it held, apart
  from the arrays that were passed and the element that takes
  the result. The frames below are as they were, apart from
  the position of the calling frame, which is the next one,
  and the cell that takes the result. The result is stored
  where the destination was when the call started, converted
  to its type, and is found there afterwards. A return that
  hands nothing over writes nothing, so that the destination
  is as it was unless it belongs to an array that was passed.
-/
theorem call_touches_only_what_it_was_given
    {p : Program}
    {exe : Executable}
    (hVerify : verify p = .ok exe)
    {ω : Type}
    [Sink ω]
    {cfg : Config}
    {m last after : Machine ω}
    {f : Frame}
    {rest : List Frame}
    {r : Routine}
    {dest : Option Place}
    {index line : Nat}
    {args : List Argument}
    (hFrames : m.frames = f :: rest)
    (hRoutine : exe.routines[f.routine]? = some r)
    (hCode : r.code[f.pc]? =
      some ⟨.call dest (.routine index) args, line⟩)
    (hReturns : m.CallReturns exe cfg last after) :
    ∃ lent value,
      Context.arguments ⟨r, f, m.memory⟩ args = .ok lent ∧
        last.ending? exe = some value ∧
        after.memory.size = m.memory.size ∧
        (dest = none ∨ value = none →
          after.frames = f.next :: rest ∧
            (∀ address, address < m.memory.size →
              after.memory[address]? = last.memory[address]?) ∧
            (∀ address, ¬ Lends lent address →
              after.memory[address]? = m.memory[address]?) ∧
            ∀ place, dest = some place →
              ¬ Context.PlaceLent ⟨r, f, m.memory⟩ lent place →
                Context.readPlace ⟨r, f.next, after.memory⟩ place =
                  Context.readPlace ⟨r, f, m.memory⟩ place) ∧
        ∀ place v, dest = some place → value = some v →
          ∃ type t w,
            place.HasType r.slots type ∧
              v.coerce? type = some w ∧
              Context.target ⟨r, f, m.memory⟩ place v = .ok (t, w) ∧
              after.frames = (t.frame w f).next :: rest ∧
              Context.readPlace
                  ⟨r, (t.frame w f).next, after.memory⟩ place =
                .ok w ∧
              ∀ address, ¬ Lends lent address →
                t ≠ .memory address →
                  after.memory[address]? = m.memory[address]? := by
  have hExe := Executable.wellTyped_of_verify hVerify
  rcases hReturns.exists_return hFrames hRoutine hCode with
    ⟨lent, value, g, steps, hArguments, hEnding, hLast, hReturn,
      hSize, hKept, hPop⟩
  refine ⟨lent, value, hArguments, hEnding, ?_, ?_, ?_⟩
  · rw [(Machine.sizes_of_pop hLast hPop).2]
    exact hSize
  · intro hNone
    rw [← hReturn] at hNone
    rcases Machine.frames_of_pop_none hLast hNone hPop with
      ⟨hAfter, hMemory⟩
    rw [hAfter, hMemory]
    refine ⟨rfl, ?_, hKept, ?_⟩
    · intro address hAddress
      have hFront : address < g.mark := by
        rw [Array.size_shrink] at hSize
        omega
      exact getElem?_shrink last.memory hFront
    · intro place _ hNotLent
      exact Context.readPlace_of_not_placeLent hNotLent hKept
  · intro place v hDest hValue
    subst hDest hValue
    rcases Machine.exists_target_of_pop hLast hRoutine hReturn hPop
      with ⟨t, w, hTarget, hAfter, hMemory⟩
    have hRead := Context.readPlace_of_target hTarget
    rw [← hMemory] at hRead
    rw [Context.target_congr hSize] at hTarget
    have hAction := hExe.action f.routine r f.pc _ hRoutine hCode
    cases hAction with
    | call _ _ hPlace =>
        rcases hPlace place rfl with ⟨type, hType, _⟩
        refine ⟨type, t, w, hType,
          Context.coerce?_of_target hType hTarget, hTarget, hAfter,
          hRead, ?_⟩
        intro address hNotLent hOther
        rw [hMemory, ← hKept address hNotLent]
        cases t with
        | cell id => rfl
        | memory other =>
            have hNe : other ≠ address := by
              rintro rfl
              exact hOther rfl
            exact Array.getElem?_setIfInBounds_ne hNe

/-
  A program that calls a routine which writes to the array it
  is passed, and puts the result into an element of another.
-/
def collecting : Program :=
  { functions :=
      [{ name := "note"
         returns := .value .int
         params := [⟨"x", .array .int 2⟩, ⟨"n", .scalar .int⟩]
         ints := [⟨"own", .int, some 3, 3⟩]
         floats := []
         code :=
           [⟨.store, [.var "n", .var "x", .int 0], 4⟩,
            ⟨.ret, [.int 7], 5⟩]
         labels := []
         line := 2 },
       { name := "main"
         returns := .void
         params := []
         ints :=
           [⟨"a", .int, some 2, 9⟩, ⟨"c", .int, some 2, 9⟩,
            ⟨"i", .int, none, 9⟩]
         floats := []
         code :=
           [⟨.assign, [.var "i", .int 1], 10⟩,
            ⟨.callr, [.element "a" (.var "i"), .function "note",
              .var "c", .var "i"], 11⟩]
         labels := []
         line := 8 }] }

/- The executable of the program. -/
def collectingExecutable : Executable :=
  { routines :=
      #[{ name := "note"
          returns := .value .int
          params := [0, 1]
          slots :=
            #[⟨"x", .array .int 2, true⟩,
              ⟨"n", .scalar .int, true⟩,
              ⟨"own", .array .int 3, false⟩]
          code :=
            #[⟨.store (.place (.slot 1)) 0 (.int 0), 4⟩,
              ⟨.ret (some (.int 7)), 5⟩]
          labels := [] },
        { name := "main"
          returns := .void
          params := []
          slots :=
            #[⟨"a", .array .int 2, false⟩,
              ⟨"c", .array .int 2, false⟩,
              ⟨"i", .scalar .int, false⟩]
          code :=
            #[⟨.assign (.slot 2) (.int 1), 10⟩,
              ⟨.call (some (.element 0 (.var 2))) (.routine 0)
                [.array 1, .value (.place (.slot 2))], 11⟩]
          labels := [] }]
    entry := 1 }

/- The frame that calls, when it is about to. -/
def collectingFrame : Frame :=
  { routine := 1
    pc := 1
    cells := #[.array 0 2, .array 2 2, .scalar (.int 1)]
    returnTo := none
    mark := 0
    below := 0 }

/- A machine without input and output. -/
def quietMachine
    (frames : List Frame)
    (memory : List Int32)
    (steps : Nat) : Machine Buffer :=
  { frames
    memory := (memory.map Value.int).toArray
    input := Input.ofString ""
    output := Buffer.empty
    steps }

theorem collecting_reachable :
    Machine.Reachable collectingExecutable {} (Input.ofString "")
      Buffer.empty
      (quietMachine [collectingFrame] [0, 0, 0, 0] 1) :=
  .step (.start rfl) rfl

/- The frame that is called, when it is about to return. -/
def notingFrame : Frame :=
  { routine := 0
    pc := 1
    cells := #[.array 2 2, .scalar (.int 1), .array 4 3]
    returnTo := some (.element 0 (.var 2))
    mark := 4
    below := 1 }

theorem collecting_returns :
    (quietMachine [collectingFrame] [0, 0, 0, 0] 1).CallReturns
      collectingExecutable {}
      (quietMachine [notingFrame, collectingFrame]
        [0, 0, 1, 0, 0, 0, 0] 3)
      (quietMachine [collectingFrame.next] [0, 7, 1, 0] 4) :=
  ⟨⟨_, rfl, .step (.here (Nat.lt_succ_self _)) rfl
      (Nat.lt_succ_self _)⟩, rfl, rfl⟩

/-
  The callee writes to the third cell of the memory, which is
  lent to it, and its result goes to the second.
-/
theorem call_effect_of_collecting :
    verify collecting = .ok collectingExecutable ∧
      ∃ m last after : Machine Buffer,
        Machine.Reachable collectingExecutable {}
            (Input.ofString "") Buffer.empty m ∧
          m.CallReturns collectingExecutable {} last after ∧
          m.frames = [collectingFrame] ∧
          after.frames = [collectingFrame.next] ∧
          last.ending? collectingExecutable = some (some (.int 7)) ∧
          after.memory.size = m.memory.size ∧
          after.memory[2]? ≠ m.memory[2]? ∧
          after.memory[1]? = some (.int 7) ∧
          ∀ address,
            ¬ Lends [.array 2 2, .scalar (.int 1)] address →
            address ≠ 1 →
              after.memory[address]? = m.memory[address]? := by
  have hVerify : verify collecting = .ok collectingExecutable := rfl
  refine ⟨hVerify, _, _, _, collecting_reachable, collecting_returns,
    rfl, rfl, rfl, ?_⟩
  rcases call_touches_only_what_it_was_given hVerify rfl rfl rfl
    collecting_returns with
    ⟨lent, value, hArguments, hEnding, hSize, _, hStored⟩
  cases hArguments
  cases hEnding
  rcases hStored _ _ rfl rfl with
    ⟨type, t, w, _, _, hTarget, _, _, hKept⟩
  cases hTarget
  refine ⟨hSize, by decide, rfl, ?_⟩
  intro address hNotLent hOther
  apply hKept address hNotLent
  intro hSame
  cases hSame
  exact hOther rfl

/-
  A program that puts what a routine hands back into the
  array that it passes; the routine hands nothing back.
-/
def poking : Program :=
  { functions :=
      [{ name := "poke"
         returns := .value .int
         params := [⟨"x", .array .int 2⟩]
         ints := []
         floats := []
         code := [⟨.store, [.int 5, .var "x", .int 0], 3⟩]
         labels := []
         line := 2 },
       { name := "main"
         returns := .void
         params := []
         ints := [⟨"a", .int, some 2, 7⟩]
         floats := []
         code :=
           [⟨.callr, [.element "a" (.const 0), .function "poke",
              .var "a"], 8⟩,
            ⟨.call, [.function "puti", .element "a" (.const 0)], 9⟩]
         labels := []
         line := 6 }] }

/- The executable of the program. -/
def pokingExecutable : Executable :=
  { routines :=
      #[{ name := "poke"
          returns := .value .int
          params := [0]
          slots := #[⟨"x", .array .int 2, true⟩]
          code := #[⟨.store (.int 5) 0 (.int 0), 3⟩]
          labels := [] },
        { name := "main"
          returns := .void
          params := []
          slots := #[⟨"a", .array .int 2, false⟩]
          code :=
            #[⟨.call (some (.element 0 (.const 0))) (.routine 0)
                [.array 0], 8⟩,
              ⟨.call none (.intrinsic .puti)
                [.value (.place (.element 0 (.const 0)))], 9⟩]
          labels := [] }]
    entry := 1 }

/-
  A destination that is lent to the callee may change though
  the callee runs off its end: it holds 0 before the call and
  5 behind it.
-/
theorem lent_destination_changes_without_result :
    verify poking = .ok pokingExecutable ∧
      (∃ (m last after : Machine Buffer) (f : Frame) (r : Routine),
        Machine.Reachable pokingExecutable {} (Input.ofString "")
            Buffer.empty m ∧
          m.frames = [f] ∧
          pokingExecutable.routines[f.routine]? = some r ∧
          r.code[f.pc]? =
            some ⟨.call (some (.element 0 (.const 0))) (.routine 0)
              [.array 0], 8⟩ ∧
          m.CallReturns pokingExecutable {} last after ∧
          last.ending? pokingExecutable = some none ∧
          Context.readPlace ⟨r, f, m.memory⟩
              (.element 0 (.const 0)) = .ok (.int 0) ∧
          Context.readPlace ⟨r, f.next, after.memory⟩
              (.element 0 (.const 0)) = .ok (.int 5)) ∧
      (evaluate pokingExecutable "" {} 8).map Report.output =
        some "5" := by
  refine ⟨rfl, ?_, by decide⟩
  refine ⟨_, _, _, _, _, .start rfl, rfl, rfl, rfl,
    ⟨⟨_, rfl, .step (.here (Nat.lt_succ_self _)) rfl
      (Nat.lt_succ_self _)⟩, rfl, rfl⟩, rfl, rfl, rfl⟩

end ThreeAddress
