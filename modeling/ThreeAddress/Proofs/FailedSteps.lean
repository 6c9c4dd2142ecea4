import ThreeAddress.Proofs.Transition

/-
  This file says once what a step that fails can do, as
  `Transition` does for the steps that go through, and how a
  run can fail.

  Key definitions include:
    * `Machine.Stops`
    * `Machine.Breakdown`
    * `Run.Failure`

  Main statements:
    * `Machine.breakdown_of_step`
    * `Run.exists_failure_of_start`
-/

namespace ThreeAddress

namespace Machine

variable {ω : Type}

------------------------------------------------------------
-- Breakdowns
------------------------------------------------------------

section Definitions

variable [Sink ω]

/-
  Why an action of the running frame `f` is stopped before
  any frame or memory changes.
-/
inductive Stops
    (exe : Executable)
    (cfg : Config)
    (r : Routine)
    (f : Frame)
    (m : Machine ω) : Action → FaultCause → Prop where
/- The budget is used up. -/
| budget
    {action : Action}
    {budget : Nat}
    (spent : m.outOfBudget cfg = some budget) :
    Stops exe cfg r f m action (.budgetExhausted budget)
/- What is to be stored cannot be found, or not be stored. -/
| assign
    {dest : Place}
    {src : Source}
    {cause : FaultCause}
    (result : Context.copied ⟨r, f, m.memory⟩ dest src =
      .error cause) :
    Stops exe cfg r f m (.assign dest src) cause
| arith
    {op : ArithOp}
    {dest : Place}
    {lhs rhs : Source}
    {cause : FaultCause}
    (result : Context.computed ⟨r, f, m.memory⟩
      (ThreeAddress.arith op) dest lhs rhs = .error cause) :
    Stops exe cfg r f m (.arith op dest lhs rhs) cause
| bit
    {op : BitOp}
    {dest : Place}
    {lhs rhs : Source}
    {cause : FaultCause}
    (result : Context.computed ⟨r, f, m.memory⟩ (bitwise op)
      dest lhs rhs = .error cause) :
    Stops exe cfg r f m (.bit op dest lhs rhs) cause
| load
    {dest : Place}
    {array : Nat}
    {index : Source}
    {cause : FaultCause}
    (result : Context.loaded ⟨r, f, m.memory⟩ dest array index =
      .error cause) :
    Stops exe cfg r f m (.load dest array index) cause
| store
    {value : Source}
    {array : Nat}
    {index : Source}
    {cause : FaultCause}
    (result : Context.stored ⟨r, f, m.memory⟩ value array index =
      .error cause) :
    Stops exe cfg r f m (.store value array index) cause
/- The condition of a branch, or what is returned, is not found. -/
| branch
    {cond : Cond}
    {target : Nat}
    {lhs rhs : Source}
    {cause : FaultCause}
    (result : Context.condition ⟨r, f, m.memory⟩ cond lhs rhs =
      .error cause) :
    Stops exe cfg r f m (.branch cond target lhs rhs) cause
| ret
    {src : Source}
    {cause : FaultCause}
    (result : Context.read ⟨r, f, m.memory⟩ src = .error cause) :
    Stops exe cfg r f m (.ret (some src)) cause
/- An argument is not found, or the callee not admitted. -/
| arguments
    {dest : Option Place}
    {callee : Callee}
    {args : List Argument}
    {cause : FaultCause}
    (result : Context.arguments ⟨r, f, m.memory⟩ args =
      .error cause) :
    Stops exe cfg r f m (.call dest callee args) cause
| admission
    {dest : Option Place}
    {index : Nat}
    {args : List Argument}
    {cells : List Cell}
    {site : Site}
    {cause : FaultCause}
    (arguments : Context.arguments ⟨r, f, m.memory⟩ args = .ok cells)
    (result : ThreeAddress.admission exe cfg m.depth m.memory.size
      (some site) index = .error ⟨site, cause⟩) :
    Stops exe cfg r f m (.call dest (.routine index) args) cause
/- An intrinsic function fails, or its result is not stored. -/
| intrinsic
    {dest : Option Place}
    {i : Intrinsic}
    {args : List Argument}
    {cells : List Cell}
    {cause : FaultCause}
    (arguments : Context.arguments ⟨r, f, m.memory⟩ args = .ok cells)
    (result : (m.tick.intrinsic i (firstValue cells)).1 =
      .error cause) :
    Stops exe cfg r f m (.call dest (.intrinsic i) args) cause
| delivery
    {dest : Place}
    {i : Intrinsic}
    {args : List Argument}
    {cells : List Cell}
    {v : Value}
    {cause : FaultCause}
    (arguments : Context.arguments ⟨r, f, m.memory⟩ args = .ok cells)
    (value : (m.tick.intrinsic i (firstValue cells)).1 =
      .ok (some v))
    (target : Context.target ⟨r, f, m.memory⟩ dest v =
      .error cause) :
    Stops exe cfg r f m (.call (some dest) (.intrinsic i) args) cause

/-
  What a step that fails can do to the running frame `f`, the
  frames below it and the memory, and the fault that it gives.
-/
inductive Breakdown
    (exe : Executable)
    (cfg : Config)
    (r : Routine)
    (f : Frame)
    (rest : List Frame)
    (m : Machine ω) :
    List Frame → Array Value → Fault → Prop where
/- The step is stopped, and the fault is at the step. -/
| stopped
    {st : Step}
    {cause : FaultCause}
    (step : r.code[f.pc]? = some st)
    (stops : m.Stops exe cfg r f st.action cause) :
    Breakdown exe cfg r f rest m (f :: rest) m.memory
      ⟨⟨r.name, st.line⟩, cause⟩
/-
  The frame has ended, but its caller cannot take the value,
  and the fault is where the caller stands.
-/
| refused
    {line : Nat}
    {src : Source}
    {g : Frame}
    {gs : List Frame}
    {q : Routine}
    {dest : Place}
    {v : Value}
    {cause : FaultCause}
    (budget : m.outOfBudget cfg = none)
    (step : r.code[f.pc]? = some ⟨.ret (some src), line⟩)
    (value : Context.read ⟨r, f, m.memory⟩ src = .ok v)
    (below : rest = g :: gs)
    (caller : exe.routines[g.routine]? = some q)
    (returnTo : f.returnTo = some dest)
    (target : Context.target ⟨q, g, m.memory.shrink f.mark⟩ dest v =
      .error cause) :
    Breakdown exe cfg r f rest m (g :: gs) (m.memory.shrink f.mark)
      ⟨⟨q.name, q.lineAt g.pc⟩, cause⟩

end Definitions

------------------------------------------------------------
-- Steps That Fail Are Breakdowns
------------------------------------------------------------

variable {exe : Executable} {cfg : Config}
variable {r : Routine} {f : Frame} {rest : List Frame}
variable {m m' : Machine ω} {e : Fault}

/- A store that fails has found nothing to store. -/
theorem exists_cause_of_assign
    {site : Site}
    {result : Except FaultCause (Target × Value)}
    (h : m.assign site result = .failed m' e) :
    ∃ cause, result = .error cause ∧ m' = m ∧ e = ⟨site, cause⟩ := by
  cases result with
  | error cause =>
      cases h
      exact ⟨cause, rfl, rfl, rfl⟩
  | ok found => cases h

/- A callee that is not admitted is a fault of the call. -/
theorem exists_cause_of_admission
    {depth used index : Nat}
    {site : Site}
    (h : admission exe cfg depth used (some site) index = .error e) :
    ∃ cause, e = ⟨site, cause⟩ := by
  unfold admission at h
  dsimp only [Option.getD_some] at h
  split at h
  · cases h
    exact ⟨_, rfl⟩
  · split at h
    · cases h
      exact ⟨_, rfl⟩
    · split at h
      · cases h
        exact ⟨_, rfl⟩
      · cases h

variable [Sink ω]

/- A value that is handed over and not taken. -/
theorem breakdown_of_pop_some
    {line steps : Nat}
    {src : Source}
    {v : Value}
    (hFrames : m.frames = f :: rest)
    (hBudget : m.outOfBudget cfg = none)
    (hStep : r.code[f.pc]? = some ⟨.ret (some src), line⟩)
    (hRead : Context.read ⟨r, f, m.memory⟩ src = .ok v)
    (hCaller : ∀ g ∈ rest, ∃ q, exe.routines[g.routine]? = some q)
    (h : pop { m with steps } exe (some v) = .failed m' e) :
    Breakdown exe cfg r f rest m m'.frames m'.memory e := by
  rcases m with ⟨frames, memory, input, output, _⟩
  cases hFrames
  cases rest with
  | nil => cases h
  | cons g gs =>
      rcases hCaller g List.mem_cons_self with ⟨q, hRoutine⟩
      simp only [pop, hRoutine] at h
      split at h
      · next dest value hDest hSome =>
          cases hSome
          rcases exists_cause_of_assign h with
            ⟨cause, hTarget, rfl, rfl⟩
          exact .refused hBudget hStep hRead rfl hRoutine hDest hTarget
      · cases h

/- An intrinsic function that is stopped. -/
theorem stops_of_callIntrinsic
    {site : Site}
    {dest : Option Place}
    {i : Intrinsic}
    {args : List Argument}
    {cells : List Cell}
    (hArguments : Context.arguments ⟨r, f, m.memory⟩ args = .ok cells)
    (h : m.tick.callIntrinsic r f site dest i cells =
      .failed m' e) :
    ∃ cause,
      m.Stops exe cfg r f (.call dest (.intrinsic i) args) cause ∧
        m'.frames = m.frames ∧
        m'.memory = m.memory ∧
        e = ⟨site, cause⟩ := by
  have hKept : _ ∧ _ := frames_intrinsic m.tick i (firstValue cells)
  unfold callIntrinsic at h
  split at h
  · next cause m₁ hIntrinsic =>
      cases h
      rw [hIntrinsic] at hKept
      exact ⟨cause,
        .intrinsic hArguments (congrArg Prod.fst hIntrinsic),
        hKept.1, hKept.2, rfl⟩
  · next value m₁ hIntrinsic =>
      rw [hIntrinsic] at hKept
      dsimp only at hKept
      split at h
      · next p v =>
          rcases exists_cause_of_assign h with
            ⟨cause, hTarget, rfl, rfl⟩
          rw [hKept.2] at hTarget
          exact ⟨cause,
            .delivery hArguments (congrArg Prod.fst hIntrinsic) hTarget,
            hKept.1, hKept.2, rfl⟩
      · cases h

/- An action that fails is a breakdown. -/
theorem breakdown_of_perform
    {st : Step}
    (hFrames : m.frames = f :: rest)
    (hBudget : m.outOfBudget cfg = none)
    (hStep : r.code[f.pc]? = some st)
    (hCaller : ∀ g ∈ rest, ∃ q, exe.routines[g.routine]? = some q)
    (h : m.tick.perform exe cfg r f ⟨r.name, st.line⟩ st.action =
      .failed m' e) :
    Breakdown exe cfg r f rest m m'.frames m'.memory e := by
  have hTick : m.tick.frames = f :: rest := hFrames
  -- Whatever stops the action leaves the frames and the memory.
  have hStopped : ∀ cause,
      m.Stops exe cfg r f st.action cause →
      m'.frames = m.frames → m'.memory = m.memory →
      e = ⟨⟨r.name, st.line⟩, cause⟩ →
        Breakdown exe cfg r f rest m m'.frames m'.memory e := by
    intro cause hStops hKept hMemory hFault
    rw [hKept, hFrames, hMemory, hFault]
    exact .stopped hStep hStops
  rcases st with ⟨action, line⟩
  cases action with
  | assign dest src =>
      rcases exists_cause_of_assign h with ⟨cause, hResult, rfl, rfl⟩
      exact hStopped cause (.assign hResult) rfl rfl rfl
  | arith op dest lhs rhs =>
      rcases exists_cause_of_assign h with ⟨cause, hResult, rfl, rfl⟩
      exact hStopped cause (.arith hResult) rfl rfl rfl
  | bit op dest lhs rhs =>
      rcases exists_cause_of_assign h with ⟨cause, hResult, rfl, rfl⟩
      exact hStopped cause (.bit hResult) rfl rfl rfl
  | load dest array index =>
      rcases exists_cause_of_assign h with ⟨cause, hResult, rfl, rfl⟩
      exact hStopped cause (.load hResult) rfl rfl rfl
  | store value array index =>
      rcases exists_cause_of_assign h with ⟨cause, hResult, rfl, rfl⟩
      exact hStopped cause (.store hResult) rfl rfl rfl
  | goto target => cases h
  | branch cond target lhs rhs =>
      simp only [perform] at h
      split at h
      · next cause hResult =>
          cases h
          exact hStopped cause (.branch hResult) rfl rfl rfl
      · cases h
      · cases h
  | ret value =>
      cases value with
      | none => exact absurd h pop_none_ne_failed
      | some src =>
          simp only [perform] at h
          split at h
          · next cause hResult =>
              cases h
              exact hStopped cause (.ret hResult) rfl rfl rfl
          · next v hRead =>
              exact breakdown_of_pop_some hFrames hBudget hStep hRead
                hCaller h
  | call dest callee args =>
      simp only [perform] at h
      split at h
      · next cause hResult =>
          cases h
          exact hStopped cause (.arguments hResult) rfl rfl rfl
      · next cells hArguments =>
          cases callee with
          | routine index =>
              simp only [enter] at h
              split at h
              · next hAdmission =>
                  cases h
                  rcases exists_cause_of_admission hAdmission with
                    ⟨cause, rfl⟩
                  exact hStopped cause
                    (.admission hArguments hAdmission) rfl rfl rfl
              · cases h
          | intrinsic i =>
              rcases stops_of_callIntrinsic (m := m) hArguments h with
                ⟨cause, hStops, hKept, hMemory, hFault⟩
              exact hStopped cause hStops hKept hMemory hFault

/- A step that fails is a breakdown. -/
theorem breakdown_of_step
    (hFrames : m.frames = f :: rest)
    (hRoutine : exe.routines[f.routine]? = some r)
    (hCaller : ∀ g ∈ rest, ∃ q, exe.routines[g.routine]? = some q)
    (h : m.step exe cfg = .failed m' e) :
    Breakdown exe cfg r f rest m m'.frames m'.memory e := by
  unfold step at h
  simp only [hFrames, hRoutine] at h
  split at h
  · exact absurd h pop_none_ne_failed
  · next st hStep =>
      split at h
      · next budget hSpent =>
          cases h
          rw [hFrames]
          exact .stopped hStep (.budget hSpent)
      · next hBudget =>
          exact breakdown_of_perform hFrames hBudget hStep hCaller h

/- A machine without frames does not fail. -/
theorem exists_frame_of_failed_step
    (h : m.step exe cfg = .failed m' e) :
    ∃ f rest, m.frames = f :: rest := by
  cases hFrames : m.frames with
  | nil =>
      unfold step at h
      rw [hFrames] at h
      cases h
  | cons f rest => exact ⟨f, rest, rfl⟩

/- A run has a first routine. -/
theorem Reachable.exists_entry
    {input : Input}
    {output : ω}
    (h : Reachable exe cfg input output m) :
    ∃ q, exe.routines[exe.entry]? = some q := by
  induction h with
  | start hEnter =>
      unfold enter at hEnter
      split at hEnter
      · cases hEnter
      · next q hAdmission => exact ⟨q, (admission_eq_ok hAdmission).1⟩
  | step _ _ ih => exact ih

/- A run without a fault may still fail to flush its output. -/
theorem flush_ok_cases
    (hEntry : exe.routines[exe.entry]? = some r)
    (m : Machine ω) :
    (flush exe (.ok ()) m).1 = .ok () ∨
      ∃ reason,
        (Sink.flush m.output).2 = some reason ∧
          (flush exe (.ok ()) m).1 =
            .error ⟨⟨r.name, 0⟩, .console (.write reason)⟩ := by
  unfold flush
  dsimp only
  cases (Sink.flush m.output).2 with
  | none => exact .inl rfl
  | some reason =>
      refine .inr ⟨reason, rfl, ?_⟩
      simp only [hEntry]

end Machine

------------------------------------------------------------
-- Runs That Fail
------------------------------------------------------------

namespace Run

variable {ω : Type} [Sink ω]
variable {exe : Executable} {cfg : Config}
variable {input : Input} {output : ω} {rounds : Nat}

/-
  How a run can fail, with the machine that it leaves behind
  before the output is flushed.
-/
inductive Failure
    (exe : Executable)
    (cfg : Config)
    (input : Input)
    (output : ω)
    (rounds : Nat) : Fault → Machine ω → Prop where
/- The first frame is refused. -/
| entry
    {m : Machine ω}
    {e : Fault}
    (enter : (Machine.initial input output).enter exe cfg none
      exe.entry [] none = .failed m e) :
    Failure exe cfg input output rounds e m
/- A step fails. -/
| step
    {last m : Machine ω}
    {e : Fault}
    (before : Machine.Reachable exe cfg input output last)
    (step : last.step exe cfg = .failed m e) :
    Failure exe cfg input output rounds e m
/- The run comes to its end, and the output is not flushed. -/
| flush
    {m : Machine ω}
    {r : Routine}
    {reason : String}
    (ended : Machine.runEntry exe cfg rounds
      (Machine.initial input output) = some (.ok (), m))
    (frames : m.frames = [])
    (entry : exe.routines[exe.entry]? = some r)
    (flush : (Sink.flush m.output).2 = some reason) :
    Failure exe cfg input output rounds
      ⟨⟨r.name, 0⟩, .console (.write reason)⟩ m

/- A run that fails does so in one of these ways. -/
theorem exists_failure_of_start
    {error : RunError}
    {run : Run ω}
    (h : (Run.initial input output).start exe cfg rounds =
      some (.error error, run)) :
    ∃ e m,
      error = .fault e ∧
        run.machine = { m with output := (Sink.flush m.output).1 } ∧
        Failure exe cfg input output rounds e m := by
  simp only [Run.start, Run.initial] at h
  split at h
  · cases h
  · next outcome m hRun =>
      have hMachine := (Machine.machine_flush exe outcome m).1
      rcases Machine.exists_last_of_runEntry hRun with
        ⟨e, rfl, hEnter⟩ | ⟨last, hLast, hEnd⟩
      · cases h
        exact ⟨e, m, rfl, hMachine, .entry hEnter⟩
      · rcases hEnd with ⟨rfl, hFinished⟩ | ⟨e, rfl, hStep⟩
        · rcases Machine.eq_of_step_finished hFinished with
            ⟨rfl, hNone⟩
          rcases hLast.exists_entry with ⟨q, hEntry⟩
          rcases Machine.flush_ok_cases hEntry m with
            hFlushed | ⟨reason, hReason, hFlushed⟩
          · simp [hFlushed, Except.mapError] at h
          · simp only [hFlushed, Except.mapError] at h
            cases h
            exact ⟨_, m, rfl, hMachine,
              .flush hRun hNone hEntry hReason⟩
        · cases h
          exact ⟨e, m, rfl, hMachine, .step hLast hStep⟩

end Run

end ThreeAddress
