import ThreeAddress.Proofs.MemorySafety

/-
  This file shows that the failures of a run are precise. The
  fault is at the step where the running frame stands, and
  the frames and the memory are those before the step. Only a
  return whose value cannot be stored has ended its frame: it
  fails at the call that is waiting for the value.

  Key definitions include:
    * `Fault.IsAt`
    * `Machine.ReturnsInVain`, `Machine.LeftBehind`

  Main statements:
    * `StackInRange.isAt_of_breakdown`
    * `StackInRange.leftBehind_of_breakdown`
    * `failed_run_is_precise`
-/

namespace ThreeAddress

------------------------------------------------------------
-- Sites of Faults
------------------------------------------------------------

/-
  The frame stands at a step of its routine, and the fault
  has the name of the routine and the line of the step.
-/
def Fault.IsAt (exe : Executable) (f : Frame) (e : Fault) : Prop :=
  ∃ r st,
    exe.routines[f.routine]? = some r ∧
      r.code[f.pc]? = some st ∧
      e.site = ⟨r.name, st.line⟩

/-
  The step that the running frame `f` of the routine `r` stands
  at is a return, and its value is for a place of the frame `g`
  below it, of the routine `q`. Once `f` and its arrays are
  gone, the value cannot be stored there.
-/
structure Machine.ReturnsInVain
    {ω : Type}
    (exe : Executable)
    (cfg : Config)
    (m : Machine ω)
    (f g : Frame)
    (gs : List Frame)
    (r q : Routine)
    (dest : Place)
    (cause : FaultCause) : Prop where
  frames : m.frames = f :: g :: gs
  budget : m.outOfBudget cfg = none
  routine : exe.routines[f.routine]? = some r
  caller : exe.routines[g.routine]? = some q
  returnTo : f.returnTo = some dest
  value :
    ∃ src line v,
      r.code[f.pc]? = some ⟨.ret (some src), line⟩ ∧
        Context.read ⟨r, f, m.memory⟩ src = .ok v ∧
        Context.target ⟨q, g, m.memory.shrink f.mark⟩ dest v =
          .error cause

/-
  What a step that fails leaves behind of a machine: its
  frames and its memory as they were, unless it is a return
  whose value its caller could not store. Such a step leaves
  all but the frame that ended and the arrays that it owned,
  and its fault is at the call that the caller stands at.
-/
inductive Machine.LeftBehind
    {ω : Type}
    (exe : Executable)
    (cfg : Config)
    (m : Machine ω)
    (e : Fault) : List Frame → Array Value → Prop where
| unchanged
    (taken : ∀ f g gs r q dest cause,
      ¬ m.ReturnsInVain exe cfg f g gs r q dest cause) :
    LeftBehind exe cfg m e m.frames m.memory
| returned
    {f g : Frame}
    {gs : List Frame}
    {r q : Routine}
    {dest : Place}
    {args : List Argument}
    {callLine : Nat}
    (inVain : m.ReturnsInVain exe cfg f g gs r q dest e.cause)
    (call : q.code[g.pc]? =
      some ⟨.call (some dest) (.routine f.routine) args, callLine⟩)
    (site : e.site = ⟨q.name, callLine⟩)
    (reclaimed :
      (m.memory.shrink f.mark).size + r.ownedCells = m.memory.size) :
    LeftBehind exe cfg m e (g :: gs) (m.memory.shrink f.mark)

------------------------------------------------------------
-- Breakdowns Are Precise
------------------------------------------------------------

section Breakdowns

variable {ω : Type} [Sink ω]
variable {exe : Executable} {cfg : Config}
variable {r q : Routine} {f g : Frame} {rest gs : List Frame}
variable {m m' : Machine ω} {e : Fault}
variable {frames : List Frame} {memory : Array Value}

/- The caller of a frame stands at the call that it returns to. -/
theorem Frame.CalledFrom.exists_call
    {dest : Option Place}
    (h : f.CalledFrom exe (g :: gs))
    (hCaller : exe.routines[g.routine]? = some q)
    (hReturn : f.returnTo = dest) :
    ∃ args line,
      q.code[g.pc]? =
          some ⟨.call dest (.routine f.routine) args, line⟩ ∧
        q.lineAt g.pc = line := by
  rcases h with ⟨q', args, line, hCaller', hCall⟩
  rw [hCaller] at hCaller'
  cases hCaller'
  rw [hReturn] at hCall
  refine ⟨args, line, hCall, ?_⟩
  simp only [Routine.lineAt, hCall]

/- A breakdown has a frame on top, and the fault is at its step. -/
theorem StackInRange.isAt_of_breakdown
    (hStack : StackInRange exe m.memory.size (f :: rest))
    (hRoutine : exe.routines[f.routine]? = some r)
    (h : m.Breakdown exe cfg r f rest frames memory e) :
    ∃ top below, frames = top :: below ∧ e.IsAt exe top := by
  cases h with
  | @stopped st _ hStep _ =>
      exact ⟨f, rest, rfl, r, st, hRoutine, hStep, rfl⟩
  | @refused _ _ g gs q dest _ _ _ _ _ hBelow hCaller hReturn _ =>
      subst hBelow
      rcases hStack with ⟨_, _, hCalled, _⟩
      rcases hCalled.exists_call hCaller hReturn with
        ⟨args, line, hCall, hLine⟩
      refine ⟨g, gs, rfl, q, _, hCaller, hCall, ?_⟩
      rw [hLine]

/- A step that is stopped is no return in vain. -/
theorem Machine.Stops.not_returnsInVain
    {st : Step}
    {cause : FaultCause}
    (h : m.Stops exe cfg r f st.action cause)
    (hFrames : m.frames = f :: rest)
    (hRoutine : exe.routines[f.routine]? = some r)
    (hStep : r.code[f.pc]? = some st)
    {f' g' : Frame}
    {gs' : List Frame}
    {r' q' : Routine}
    {dest : Place}
    {cause' : FaultCause} :
    ¬ m.ReturnsInVain exe cfg f' g' gs' r' q' dest cause' := by
  intro hVain
  have hTop := hFrames.symm.trans hVain.frames
  cases hTop
  have hSame := hRoutine.symm.trans hVain.routine
  cases hSame
  rcases hVain.value with ⟨src, line, v, hReturn, hRead, _⟩
  rw [hStep] at hReturn
  cases hReturn
  -- A return is stopped by the budget, or by its value.
  cases h with
  | budget hSpent =>
      rw [hVain.budget] at hSpent
      cases hSpent
  | ret hResult =>
      rw [hRead] at hResult
      cases hResult

/- A breakdown changes nothing, or has ended the frame. -/
theorem StackInRange.leftBehind_of_breakdown
    (hStack : StackInRange exe m.memory.size (f :: rest))
    (hFrames : m.frames = f :: rest)
    (hRoutine : exe.routines[f.routine]? = some r)
    (h : m.Breakdown exe cfg r f rest frames memory e) :
    m.LeftBehind exe cfg e frames memory := by
  cases h with
  | stopped hStep hStops =>
      rw [← hFrames]
      apply Machine.LeftBehind.unchanged
      intro f' g' gs' r' q' dest cause'
      exact hStops.not_returnsInVain hFrames hRoutine hStep
  | @refused _ _ g gs q dest _ _ hBudget hStep hRead hBelow hCaller
      hReturn hTarget =>
      subst hBelow
      have hShrunk := hStack.size_shrink
      rcases hStack with ⟨⟨r', hRoutine', _, hMark⟩, _, hCalled, _⟩
      rw [hRoutine] at hRoutine'
      cases hRoutine'
      rcases hCalled.exists_call hCaller hReturn with
        ⟨args, line, hCall, hLine⟩
      refine .returned ⟨hFrames, hBudget, hRoutine, hCaller, hReturn,
        _, _, _, hStep, hRead, hTarget⟩ hCall ?_ ?_
      · rw [hLine]
      · rw [hShrunk, hMark]

/- A step of a run that fails is precise. -/
theorem Machine.Reachable.precise_of_step
    {input : Input}
    {output : ω}
    (h : Machine.Reachable exe cfg input output m)
    (hStep : m.step exe cfg = .failed m' e) :
    (∃ top below, m'.frames = top :: below ∧ e.IsAt exe top) ∧
      m.LeftBehind exe cfg e m'.frames m'.memory := by
  have hStack := StackInRange.of_reachable h
  rcases hStack.exists_breakdown hStep with
    ⟨f, rest, r, hFrames, hRoutine, hBreakdown⟩
  rw [hFrames] at hStack
  exact ⟨hStack.isAt_of_breakdown hRoutine hBreakdown,
    hStack.leftBehind_of_breakdown hFrames hRoutine hBreakdown⟩

end Breakdowns

------------------------------------------------------------
-- Failed Runs Are Precise
------------------------------------------------------------

/-
  The failures of a run are precise, whatever it runs. If a
  run fails and frames remain, the first of them stands at a
  step of its routine, and the fault has the name of that
  routine and the line of that step. The run has the machine
  that the step left behind, with its output flushed. The
  frames and the memory are those before the step, unless it
  is a return whose value could not be stored, which has ended
  its frame. No frames remain only if the first frame was
  refused, or the run was over and its output could not be
  flushed.
-/
theorem failed_run_is_precise
    {ω : Type}
    [Sink ω]
    {exe : Executable}
    {cfg : Config}
    {input : Input}
    {output : ω}
    {rounds : Nat}
    {error : RunError}
    {run : Run ω}
    (h : (Run.initial input output).start exe cfg rounds =
      some (.error error, run)) :
    ∃ e,
      error = .fault e ∧
        (∀ top below, run.machine.frames = top :: below →
          e.IsAt exe top ∧
            ∃ last m',
              Machine.Reachable exe cfg input output last ∧
                last.step exe cfg = .failed m' e ∧
                run.machine =
                  { m' with output := (Sink.flush m'.output).1 } ∧
                last.LeftBehind exe cfg e run.machine.frames
                  run.machine.memory) ∧
        (run.machine.frames = [] →
          (∃ m,
            (Machine.initial input output).enter exe cfg none
              exe.entry [] none = .failed m e) ∨
            ∃ m r reason,
              Machine.runEntry exe cfg rounds
                  (Machine.initial input output) = some (.ok (), m) ∧
                (Sink.flush m.output).2 = some reason ∧
                exe.routines[exe.entry]? = some r ∧
                e = ⟨⟨r.name, 0⟩, .console (.write reason)⟩) := by
  rcases Run.exists_failure_of_start h with
    ⟨e, m, hError, hMachine, hFailure⟩
  refine ⟨e, hError, ?_⟩
  rw [hMachine]
  cases hFailure with
  | entry hEnter =>
      rw [Machine.failure_of_enter hEnter]
      exact ⟨nofun, fun _ => .inl ⟨_, hEnter⟩⟩
  | flush hEnded hNone hEntry hFlush =>
      dsimp only
      rw [hNone]
      exact ⟨nofun, fun _ =>
        .inr ⟨_, _, _, hEnded, hFlush, hEntry, rfl⟩⟩
  | @step last _ _ hBefore hStep =>
      rcases hBefore.precise_of_step hStep with
        ⟨⟨top, below, hTop, hAt⟩, hLeft⟩
      constructor
      · intro top' below' hSame
        dsimp only at hSame
        rw [hTop] at hSame
        cases hSame
        exact ⟨hAt, last, m, hBefore, hStep, rfl, hLeft⟩
      · intro hNone
        dsimp only at hNone
        rw [hTop] at hNone
        cases hNone

/- A program that wants a result where no element is. -/
def misplacing : Program :=
  { functions :=
      [{ name := "seven"
         returns := .value .int
         params := []
         ints := [⟨"own", .int, some 3, 3⟩]
         floats := []
         code := [⟨.ret, [.int 7], 4⟩]
         labels := []
         line := 2 },
       { name := "main"
         returns := .void
         params := []
         ints := [⟨"a", .int, some 2, 8⟩, ⟨"i", .int, none, 8⟩]
         floats := []
         code :=
           [⟨.assign, [.var "i", .int 5], 9⟩,
            ⟨.callr, [.element "a" (.var "i"), .function "seven"], 10⟩]
         labels := []
         line := 7 }] }

/- The executable of the program. -/
def misplacingExecutable : Executable :=
  { routines :=
      #[{ name := "seven"
          returns := .value .int
          params := []
          slots := #[⟨"own", .array .int 3, false⟩]
          code := #[⟨.ret (some (.int 7)), 4⟩]
          labels := [] },
        { name := "main"
          returns := .void
          params := []
          slots :=
            #[⟨"a", .array .int 2, false⟩, ⟨"i", .scalar .int, false⟩]
          code :=
            #[⟨.assign (.slot 1) (.int 5), 9⟩,
              ⟨.call (some (.element 0 (.var 1))) (.routine 0) [], 10⟩]
          labels := [] }]
    entry := 1 }

/-
  The fault is at the call, where the caller still stands,
  and the arrays of the callee are gone.
-/
theorem misplacing_fails_at_call :
    verify misplacing = .ok misplacingExecutable ∧
      ∃ e run top,
        (Run.initial (Input.ofString "") Buffer.empty).start
            misplacingExecutable {} 4 =
          some (.error (.fault e), run) ∧
          e = ⟨⟨"main", 10⟩, .indexOutOfBounds "a" 5 2⟩ ∧
          run.machine.frames = [top] ∧
          top.pc = 1 ∧
          run.machine.memory.size = 2 ∧
          e.IsAt misplacingExecutable top ∧
          ∃ last m',
            Machine.Reachable misplacingExecutable {}
                (Input.ofString "") Buffer.empty last ∧
              last.step misplacingExecutable {} = .failed m' e ∧
              run.machine =
                { m' with output := (Sink.flush m'.output).1 } ∧
              last.LeftBehind misplacingExecutable {} e
                run.machine.frames run.machine.memory := by
  refine ⟨rfl, ?_⟩
  have hRun :
      (Run.initial (Input.ofString "") Buffer.empty).start
          misplacingExecutable {} 4 =
        some (.error (.fault
          ⟨⟨"main", 10⟩, .indexOutOfBounds "a" 5 2⟩), _) := rfl
  rcases failed_run_is_precise hRun with ⟨e, hError, hTop, _⟩
  cases hError
  rcases hTop _ [] rfl with ⟨hAt, hLast⟩
  exact ⟨_, _, _, hRun, rfl, rfl, rfl, rfl, hAt, hLast⟩

end ThreeAddress
