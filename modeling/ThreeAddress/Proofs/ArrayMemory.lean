import ThreeAddress.Proofs.ArrayLayout
import ThreeAddress.Proofs.FailedSteps

/-
  This file shows that the array memory of a machine belongs
  to its frames, within the limits of the run: at any time
  the declared arrays of the frames in progress make up the
  memory, each in its place, and a run without fault leaves
  nothing behind.

  Key definitions include:
    * `Machine.LaidOut`
    * `Machine.Disciplined`

  Main statements:
    * `Machine.LaidOut.of_reachable`
    * `Machine.Disciplined.of_failed_step`
    * `array_memory_belongs_to_frames`
-/

namespace ThreeAddress

------------------------------------------------------------
-- Machines
------------------------------------------------------------

namespace Machine

/- The frames are laid out in the memory, within the limits. -/
structure LaidOut
    {ω : Type}
    (exe : Executable)
    (cfg : Config)
    (m : Machine ω) : Prop where
  layout : StackLaidOut exe m.memory.size m.frames
  depth : m.frames.length ≤ cfg.maxDepth
  room : m.memory.size ≤ cfg.maxMemory

/-
  The arrays of the frames make up the memory, each declared
  array in a place of its own, and the array of a parameter
  is a declared array of a frame below.
-/
structure Disciplined
    {ω : Type}
    (exe : Executable)
    (cfg : Config)
    (m : Machine ω) : Prop where
  depth : m.frames.length ≤ cfg.maxDepth
  size : m.memory.size = exe.ownedCells m.frames
  room : m.memory.size ≤ cfg.maxMemory
  marks :
    ∀ f below, f :: below <:+ m.frames →
      f.mark = exe.ownedCells below
  arrays :
    ∀ f ∈ m.frames,
      ∃ r,
        exe.routines[f.routine]? = some r ∧
          ∀ (id : Nat) (s : Slot) (t : Scalar) (n : Nat),
            r.slots[id]? = some s →
            s.param = false →
            s.shape = .array t n →
              ∃ base,
                f.cells[id]? = some (.array base n) ∧
                  ⟨base, n⟩ ∈ exe.ownedSpans m.frames
  disjoint : (exe.ownedSpans m.frames).Pairwise Span.Disjoint
  covered :
    ∀ address,
      address < m.memory.size ↔
        ∃ span ∈ exe.ownedSpans m.frames, span.Contains address
  params :
    ∀ f below r, f :: below <:+ m.frames →
      exe.routines[f.routine]? = some r →
        f.BorrowsFrom exe r below

variable {ω : Type}
variable {exe : Executable} {cfg : Config}
variable {m m' : Machine ω}

theorem LaidOut.disciplined
    (h : m.LaidOut exe cfg)
    (hTyped : m.Typed false exe) :
    m.Disciplined exe cfg := by
  have hTiles := h.layout.tiles
  refine
    { depth := h.depth
      size := h.layout.limit_eq
      room := h.room
      marks := ?_
      arrays := ?_
      disjoint := hTiles.pairwise_disjoint
      covered := ?_
      params := ?_ }
  · intro f below hSuffix
    rcases h.layout.suffix hSuffix with ⟨limit, _, _, hBelow⟩
    exact hBelow.limit_eq
  · intro f hf
    rcases StackTyped.exists_typed hTyped f hf with
      ⟨r, hRoutine, hFrame⟩
    refine ⟨r, hRoutine, ?_⟩
    intro id s t n hSlot hLocal hShape
    rcases hFrame.exists_array hSlot hShape with ⟨base, hCell⟩
    have hDeclares : f.Declares exe t ⟨base, n⟩ :=
      ⟨r, id, s, hRoutine, hSlot, hLocal, hShape, hCell⟩
    exact ⟨base, hCell, hDeclares.mem_ownedSpans hf⟩
  · intro address
    rw [← hTiles.contains_iff address]
    omega
  · intro f below r hSuffix hRoutine
    rcases h.layout.suffix hSuffix with
      ⟨limit, ⟨q, hRoutine', _, _, hBorrows⟩, _, _⟩
    rw [hRoutine] at hRoutine'
    cases hRoutine'
    exact hBorrows

/- Order is a matter of the frames and the memory alone. -/
theorem Disciplined.congr
    (h : m.Disciplined exe cfg)
    (hFrames : m'.frames = m.frames)
    (hMemory : m'.memory = m.memory) :
    m'.Disciplined exe cfg := by
  rcases m with ⟨frames, memory, input, output, steps⟩
  rcases m' with ⟨frames', memory', input', output', steps'⟩
  cases hFrames
  cases hMemory
  exact ⟨h.depth, h.size, h.room, h.marks, h.arrays, h.disjoint,
    h.covered, h.params⟩

/- The first frame is laid out. -/
theorem LaidOut.of_enter
    {input : Input}
    {output : ω}
    (hExe : exe.WellTyped)
    (h : (Machine.initial input output).enter exe cfg none
      exe.entry [] none = .running m) :
    m.LaidOut exe cfg := by
  unfold enter at h
  split at h
  · cases h
  · next q hAdmission =>
      cases h
      rcases admission_eq_ok hAdmission with ⟨hEntry, hDepth, hRoom⟩
      rcases hExe.entry with ⟨q', hEntry', hShapes⟩
      rw [hEntry] at hEntry'
      cases hEntry'
      have hNoParams : q.slots.toList.filter Slot.param = [] :=
        List.map_eq_nil_iff.mp hShapes
      have hTiles := tiles_bindCells q.slots.toList [] 0
      rw [← Routine.ownedCells_eq, Nat.zero_add] at hTiles
      have hSize := size_allocate #[] q
      rw [Array.size_empty, Nat.zero_add] at hSize
      refine ⟨?_, hDepth, ?_⟩
      · show StackLaidOut exe (allocate #[] q.slots).size [_]
        rw [hSize]
        refine ⟨⟨q, hEntry, Nat.zero_add _, hTiles, ?_⟩, rfl, rfl⟩
        intro id s t n hSlot hParam _
        have hMem : s ∈ q.slots.toList.filter Slot.param :=
          List.mem_filter.mpr
            ⟨by simpa using Array.mem_of_getElem? hSlot, hParam⟩
        rw [hNoParams] at hMem
        cases hMem
      · show (allocate #[] q.slots).size ≤ cfg.maxMemory
        rw [hSize]
        simpa [Machine.initial] using hRoom

/- A transition keeps within the limits. -/
theorem LaidOut.of_transition
    {r : Routine}
    {f : Frame}
    {rest : List Frame}
    (hExe : exe.WellTyped)
    (hFrames : m.frames = f :: rest)
    (hRoutine : exe.routines[f.routine]? = some r)
    (hTyped : m.Typed false exe)
    (h : m.LaidOut exe cfg)
    (hNext : Transition exe cfg r f rest m.memory m'.frames m'.memory) :
    m'.LaidOut exe cfg := by
  rcases m' with ⟨frames', memory', input', output', steps'⟩
  dsimp only at hNext
  have hLayout := h.layout
  have hDepth := h.depth
  have hRoom := h.room
  unfold Typed at hTyped
  rw [hFrames] at hLayout hDepth hTyped
  have hAfter := hLayout.of_transition hExe hRoutine hTyped hNext
  have hCount := hLayout.2.1
  have hShrunk :
      (m.memory.shrink f.mark).size ≤ cfg.maxMemory :=
    Nat.le_trans (size_shrink_le m.memory f.mark) hRoom
  refine ⟨hAfter, ?_, ?_⟩
  · clear hAfter
    cases hNext with
    | moved _ _ => exact hDepth
    | wrote _ _ => exact hDepth
    | ended _ => exact Nat.zero_le _
    | returned hBelow | delivered _ _ hBelow _ _ _ =>
        subst hBelow
        exact Nat.le_of_succ_le hDepth
    | called _ _ _ hAllowed _ =>
        -- The limit is checked against the count kept in the frame.
        simp only [List.length_cons]
        omega
  · clear hAfter
    cases hNext with
    | moved _ _ => exact hRoom
    | wrote _ _ =>
        rw [Target.size_store]
        exact hRoom
    | ended _ | returned _ => exact hShrunk
    | delivered _ _ _ _ _ _ =>
        rw [Target.size_store]
        exact hShrunk
    | called _ _ _ _ hAllowed =>
        rw [size_allocate]
        exact hAllowed

variable [Sink ω]

/- A step that fails leaves order behind. -/
theorem Breakdown.disciplined
    {r : Routine}
    {f : Frame}
    {rest : List Frame}
    {e : Fault}
    (h : m.LaidOut exe cfg)
    (hTyped : m.Typed false exe)
    (hFrames : m.frames = f :: rest)
    (hNext : m.Breakdown exe cfg r f rest m'.frames m'.memory e) :
    m'.Disciplined exe cfg := by
  generalize hAfter : m'.frames = frames at hNext
  generalize hMemory : m'.memory = memory at hNext
  cases hNext with
  | stopped _ _ =>
      rw [← hFrames] at hAfter
      exact (h.disciplined hTyped).congr hAfter hMemory
  | refused _ _ _ hBelow _ _ _ =>
      subst hBelow
      rcases h with ⟨hLayout, hDepth, hRoom⟩
      unfold Typed at hTyped
      rw [hFrames] at hLayout hDepth hTyped
      rw [List.length_cons] at hDepth
      have hPopped : m'.LaidOut exe cfg := by
        constructor
        · rw [hAfter, hMemory]
          exact hLayout.shrink
        · rw [hAfter]
          omega
        · rw [hMemory]
          exact Nat.le_trans (size_shrink_le m.memory f.mark) hRoom
      apply hPopped.disciplined
      unfold Typed
      rw [hAfter, hMemory]
      exact hTyped.shrink

/- Every machine of a run is laid out. -/
theorem LaidOut.of_reachable
    {input : Input}
    {output : ω}
    (hExe : exe.WellTyped)
    (h : Reachable exe cfg input output m) :
    m.LaidOut exe cfg := by
  apply h.invariant
  · intro m hEnter
    exact LaidOut.of_enter hExe hEnter
  · intro m m' hBefore hLaidOut hStep
    rcases exists_transition_of_step hStep with
      ⟨f, rest, r, hFrames, hRoutine, hNext⟩
    exact hLaidOut.of_transition hExe hFrames hRoutine
      (Typed.of_reachable hExe hBefore) hNext

theorem Disciplined.of_reachable
    {input : Input}
    {output : ω}
    (hExe : exe.WellTyped)
    (h : Reachable exe cfg input output m) :
    m.Disciplined exe cfg :=
  (LaidOut.of_reachable hExe h).disciplined
    (Typed.of_reachable hExe h)

theorem Disciplined.of_failed_step
    {input : Input}
    {output : ω}
    {e : Fault}
    (hExe : exe.WellTyped)
    (h : Reachable exe cfg input output m)
    (hStep : m.step exe cfg = .failed m' e) :
    m'.Disciplined exe cfg := by
  have hTyped := Typed.of_reachable hExe h
  have hRoutines : ∀ g ∈ m.frames,
      ∃ q, exe.routines[g.routine]? = some q := by
    intro g hg
    rcases StackTyped.exists_typed hTyped g hg with ⟨q, hRoutine, _⟩
    exact ⟨q, hRoutine⟩
  rcases exists_frame_of_failed_step hStep with ⟨f, rest, hFrames⟩
  rw [hFrames, List.forall_mem_cons] at hRoutines
  rcases hRoutines with ⟨⟨r, hRoutine⟩, hCallers⟩
  exact (breakdown_of_step hFrames hRoutine hCallers hStep).disciplined
    (LaidOut.of_reachable hExe h) hTyped hFrames

end Machine

------------------------------------------------------------
-- Verified Programs
------------------------------------------------------------

section Runs

variable {ω : Type} [Sink ω]
variable {exe : Executable} {cfg : Config}
variable {input : Input} {output : ω} {rounds : Nat}

/- The entry routine leaves order behind, or nothing at all. -/
theorem Machine.disciplined_of_runEntry
    {result : Except Fault Unit}
    {m : Machine ω}
    (hExe : exe.WellTyped)
    (h : runEntry exe cfg rounds (initial input output) =
      some (result, m)) :
    m.Disciplined exe cfg ∧
      (result = .ok () → m.frames = [] ∧ m.memory = #[]) := by
  unfold runEntry at h
  split at h
  · next first hEnter =>
      have hStart : Reachable exe cfg input output first :=
        .start hEnter
      rcases hStart.exists_last h with
        ⟨last, hLast, ⟨_, hStep⟩ | ⟨e, hError, hStep⟩⟩
      · rcases eq_of_step_finished hStep with ⟨rfl, hFrames⟩
        have hLayout := (LaidOut.of_reachable hExe hLast).layout
        rw [hFrames] at hLayout
        exact ⟨.of_reachable hExe hLast, fun _ =>
          ⟨hFrames, Array.eq_empty_of_size_eq_zero hLayout⟩⟩
      · refine ⟨.of_failed_step hExe hLast hStep, ?_⟩
        intro hOk
        rw [hError] at hOk
        cases hOk
  · next hEnter =>
      simp only [enter] at hEnter
      split at hEnter <;> cases hEnter
  · next e hEnter =>
      -- A run that is refused leaves the machine without frames.
      cases h
      rw [failure_of_enter hEnter]
      have hLaidOut : (initial input output).LaidOut exe cfg :=
        ⟨rfl, Nat.zero_le _, Nat.zero_le _⟩
      refine ⟨hLaidOut.disciplined trivial, ?_⟩
      intro hOk
      cases hOk

/- A run leaves order behind, or nothing at all. -/
theorem Run.disciplined_of_start
    {result : Except RunError Unit}
    {run : Run ω}
    (hExe : exe.WellTyped)
    (h : (Run.initial input output).start exe cfg rounds =
      some (result, run)) :
    run.machine.Disciplined exe cfg ∧
      (result = .ok () →
        run.machine.frames = [] ∧ run.machine.memory = #[]) := by
  simp only [Run.start, Run.initial] at h
  split at h
  · cases h
  · next outcome m hRun =>
      cases h
      rcases Machine.disciplined_of_runEntry hExe hRun with
        ⟨hDisciplined, hEmpty⟩
      rcases Machine.machine_flush exe outcome m with
        ⟨hMachine, hFlushed⟩
      dsimp only
      rw [hMachine]
      refine ⟨hDisciplined.congr rfl rfl, ?_⟩
      intro hOk
      apply hEmpty
      apply hFlushed
      cases hResult : (Machine.flush exe outcome m).1 with
      | ok _ => rfl
      | error e =>
          rw [hResult] at hOk
          cases hOk

end Runs

/-
  The memory of a verified program belongs to its frames, in
  every machine that a run goes through, behind a step that
  fails, and at the end of the run. The frames and the memory
  keep within the limits. The memory is as long as all the
  declared arrays of the frames together, the mark of each
  frame is what those of the frames below it take up, the
  declared arrays lie apart from each other and fill the
  memory, and each array parameter is bound to a declared
  array of a lower frame of its type and length. A run
  without fault leaves no frame and no memory behind.
-/
theorem array_memory_belongs_to_frames
    {p : Program}
    {exe : Executable}
    (hVerify : verify p = .ok exe)
    {ω : Type}
    [Sink ω]
    (cfg : Config)
    (input : Input)
    (output : ω) :
    (∀ m : Machine ω, Machine.Reachable exe cfg input output m →
      m.Disciplined exe cfg ∧
        ∀ m' e, m.step exe cfg = .failed m' e →
          m'.Disciplined exe cfg) ∧
      ∀ rounds result run,
        (Run.initial input output).start exe cfg rounds =
            some (result, run) →
          run.machine.Disciplined exe cfg ∧
            (result = .ok () →
              run.machine.frames = [] ∧
                run.machine.memory = #[]) := by
  have hExe := Executable.wellTyped_of_verify hVerify
  constructor
  · intro m hReachable
    refine ⟨.of_reachable hExe hReachable, ?_⟩
    intro m' e hStep
    exact .of_failed_step hExe hReachable hStep
  · intro rounds result run hRun
    exact Run.disciplined_of_start hExe hRun

/- A program that passes an array on to a routine with its own. -/
def lending : Program :=
  { functions :=
      [{ name := "fill"
         returns := .void
         params := [⟨"x", .array .int 2⟩]
         ints := [⟨"own", .int, some 3, 3⟩]
         floats := []
         code := [⟨.store, [.int 7, .var "x", .int 1], 4⟩]
         labels := []
         line := 2 },
       { name := "main"
         returns := .void
         params := []
         ints := [⟨"first", .int, some 4, 8⟩, ⟨"a", .int, some 2, 8⟩]
         floats := []
         code := [⟨.call, [.function "fill", .var "a"], 9⟩]
         labels := []
         line := 7 }] }

/- The executable of the program. -/
def lendingExecutable : Executable :=
  { routines :=
      #[{ name := "fill"
          returns := .void
          params := [0]
          slots :=
            #[⟨"x", .array .int 2, true⟩,
              ⟨"own", .array .int 3, false⟩]
          code := #[⟨.store (.int 7) 0 (.int 1), 4⟩]
          labels := [] },
        { name := "main"
          returns := .void
          params := []
          slots :=
            #[⟨"first", .array .int 4, false⟩,
              ⟨"a", .array .int 2, false⟩]
          code := #[⟨.call none (.routine 0) [.array 1], 9⟩]
          labels := [] }]
    entry := 1 }

/- While an array is lent, three arrays fill the memory. -/
theorem array_memory_of_lending :
    verify lending = .ok lendingExecutable ∧
      ∃ m,
        Machine.Reachable lendingExecutable {} (Input.ofString "")
            Buffer.empty m ∧
          m.frames.length = 2 ∧
          m.memory.size = 9 ∧
          lendingExecutable.ownedSpans m.frames =
            [⟨0, 4⟩, ⟨4, 2⟩, ⟨6, 3⟩] ∧
          m.Disciplined lendingExecutable {} := by
  have hVerify : verify lending = .ok lendingExecutable := rfl
  refine ⟨hVerify, ?_⟩
  rcases array_memory_belongs_to_frames hVerify {}
    (Input.ofString "") Buffer.empty with ⟨hMachines, _⟩
  have hStart : Machine.Reachable lendingExecutable {}
      (Input.ofString "") Buffer.empty _ := .start rfl
  have hCalled := hStart.step rfl
  exact ⟨_, hCalled, rfl, rfl, rfl, (hMachines _ hCalled).1⟩

end ThreeAddress
