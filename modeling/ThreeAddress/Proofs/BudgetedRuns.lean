import ThreeAddress.Proofs.Emission
import ThreeAddress.Proofs.MemorySafety
import ThreeAddress.Proofs.ResourceLimits

/-
  This file shows that every run with a budget ends, of
  whatever executable, and bounds the rounds that it takes.

  Neither the steps that are left nor the frames alone count
  the rounds. A round that executes an instruction uses up a
  step but may push a frame, and a round that runs off the
  end of a routine pops a frame but uses up no step. So each
  step is counted twice: once for its own round, and once for
  the round that pops the frame it may push.

  Key definitions include:
    * `Machine.roundsLeft`

  Main statements:
    * `Machine.roundsLeft_lt_of_step`
    * `Machine.exists_drive_of_roundsLeft_lt`
    * `budgeted_run_ends`
-/

namespace ThreeAddress

------------------------------------------------------------
-- One Round
------------------------------------------------------------

/-
  A bound on the rounds that a machine goes on for within a
  budget.
-/
def Machine.roundsLeft
    {ω : Type}
    (budget : Nat)
    (m : Machine ω) : Nat :=
  2 * (budget - m.steps) + m.frames.length

/- A transition pushes at most one frame. -/
theorem Transition.length_frames_le
    {exe : Executable}
    {cfg : Config}
    {r : Routine}
    {f : Frame}
    {rest frames : List Frame}
    {memory memory' : Array Value}
    (h : Transition exe cfg r f rest memory frames memory') :
    frames.length ≤ (f :: rest).length + 1 := by
  cases h with
  | moved | wrote | ended | called => simp
  | returned hBelow => simp [hBelow]
  | delivered _ _ hBelow => simp [hBelow]

namespace Machine

variable {ω : Type}
variable {exe : Executable} {cfg : Config}
variable {m m' : Machine ω}

/- A frame that ends without a value is popped, uncounted. -/
theorem tally_of_pop_none
    {f : Frame}
    {rest : List Frame}
    (hFrames : m.frames = f :: rest)
    (h : m.pop exe none = .running m') :
    m'.frames.length = rest.length ∧ m'.steps = m.steps := by
  rcases m with ⟨frames, memory, input, output, steps⟩
  cases hFrames
  cases rest with
  | nil =>
      cases h
      exact ⟨rfl, rfl⟩
  | cons g gs =>
      cases hDest : f.returnTo with
      | none | some p =>
          simp only [pop, hDest] at h
          cases h
          exact ⟨rfl, rfl⟩

variable [Sink ω]

/-
  A round runs off the end of a routine, and pops its frame,
  or it is within the budget, is counted, and pushes at most
  one frame.
-/
theorem tally_of_step
    (h : m.step exe cfg = .running m') :
    (m'.frames.length + 1 = m.frames.length ∧ m'.steps = m.steps) ∨
      (m.outOfBudget cfg = none ∧
        m'.frames.length ≤ m.frames.length + 1 ∧
        m'.steps = m.steps + 1) := by
  rcases exists_transition_of_step h with
    ⟨f, rest, r, hFrames, hRoutine, hTransition⟩
  have hLength := hTransition.length_frames_le
  rw [← hFrames] at hLength
  simp only [step, hFrames, hRoutine] at h
  cases hCode : r.code[f.pc]? with
  | none =>
      simp only [hCode] at h
      rcases tally_of_pop_none hFrames h with ⟨hPopped, hSteps⟩
      rw [hFrames, hPopped]
      exact .inl ⟨rfl, hSteps⟩
  | some st =>
      simp only [hCode] at h
      cases hBudget : m.outOfBudget cfg with
      | some budget =>
          simp only [hBudget] at h
          cases h
      | none =>
          simp only [hBudget] at h
          have hSteps := steps_perform m.tick exe cfg r f
            ⟨r.name, st.line⟩ st.action
          rw [h] at hSteps
          exact .inr ⟨rfl, hLength, hSteps⟩

/- Each round that a run goes on behind leaves fewer rounds. -/
theorem roundsLeft_lt_of_step
    {b : Nat}
    (hBudget : cfg.budget = some b)
    (h : m.step exe cfg = .running m') :
    m'.roundsLeft b < m.roundsLeft b := by
  unfold roundsLeft
  rcases tally_of_step h with
    ⟨hPopped, hSteps⟩ | ⟨hRoom, hPushed, hSteps⟩
  · rw [hSteps]
    omega
  · -- Whether the budget is used up depends on the steps only.
    have hLess : m.steps < b :=
      outOfBudget_eq_none_iff (m := m.withOutput Buffer.empty).mp
        hRoom b hBudget
    omega

------------------------------------------------------------
-- All Rounds
------------------------------------------------------------

/- More rounds than are left are enough for a run to end. -/
theorem exists_drive_of_roundsLeft_lt
    {b rounds : Nat}
    (hBudget : cfg.budget = some b)
    (h : m.roundsLeft b < rounds) :
    ∃ outcome, drive exe cfg rounds m = some outcome := by
  induction rounds generalizing m with
  | zero => exact absurd h (Nat.not_lt_zero _)
  | succ rounds ih =>
      unfold drive
      cases hStep : m.step exe cfg with
      | running m₁ =>
          have hFewer := roundsLeft_lt_of_step hBudget hStep
          exact ih (by omega)
      | finished m₁ => exact ⟨_, rfl⟩
      | failed m₁ e => exact ⟨_, rfl⟩

/- More rounds do not change how a run ends. -/
theorem drive_of_le
    {rounds rounds' : Nat}
    {outcome : Except Fault Unit × Machine ω}
    (hLe : rounds ≤ rounds')
    (h : drive exe cfg rounds m = some outcome) :
    drive exe cfg rounds' m = some outcome := by
  induction rounds generalizing m rounds' with
  | zero => cases h
  | succ rounds ih =>
      cases rounds' with
      | zero => exact absurd hLe (Nat.not_succ_le_zero _)
      | succ rounds' =>
          unfold drive at h ⊢
          cases hStep : m.step exe cfg with
          | running m₁ =>
              rw [hStep] at h
              exact ih (Nat.le_of_succ_le_succ hLe) h
          | finished m₁ | failed m₁ e =>
              rw [hStep] at h
              exact h

variable (exe cfg)

/- A run with a budget ends, and more rounds do not change how. -/
theorem exists_runEntry_of_budget
    {b : Nat}
    (hBudget : cfg.budget = some b)
    (input : Input)
    (output : ω) :
    ∃ outcome, ∀ rounds, 2 * b + 2 ≤ rounds →
      runEntry exe cfg rounds (Machine.initial input output) =
        some outcome := by
  unfold runEntry
  cases hEnter : (Machine.initial input output).enter exe cfg none
    exe.entry [] none with
  | finished m₁ => exact ⟨_, fun _ _ => rfl⟩
  | failed m₁ e => exact ⟨_, fun _ _ => rfl⟩
  | running m₁ =>
      have hLeft : m₁.roundsLeft b < 2 * b + 2 := by
        unfold enter at hEnter
        split at hEnter
        · cases hEnter
        · cases hEnter
          show 2 * (b - 0) + 1 < 2 * b + 2
          omega
      have hEnds : ∃ outcome,
          drive exe cfg (2 * b + 2) m₁ = some outcome :=
        exists_drive_of_roundsLeft_lt hBudget hLeft
      rcases hEnds with ⟨outcome, hDrive⟩
      exact ⟨outcome, fun _ hRounds => drive_of_le hRounds hDrive⟩

end Machine

/-
  A run with a budget always ends, whatever it runs. With
  every input, output and limits each round that the run goes
  on behind leaves a smaller bound, and the run ends within
  twice as many rounds as the budget and two more, with a
  result that further rounds do not change. If there is a
  routine to start with and each routine refers to its own
  slots, it does not end because something is missing.
-/
theorem budgeted_run_ends
    (exe : Executable)
    {ω : Type}
    [Sink ω]
    {cfg : Config}
    {b : Nat}
    (hBudget : cfg.budget = some b)
    (input : Input)
    (output : ω) :
    (∀ m m' : Machine ω, m.step exe cfg = .running m' →
      2 * (b - m'.steps) + m'.frames.length <
        2 * (b - m.steps) + m.frames.length) ∧
      ∃ result run,
        (∀ rounds, 2 * b + 2 ≤ rounds →
          (Run.initial input output).start exe cfg rounds =
            some (result, run)) ∧
          (exe.SlotsInRange →
            ∀ e, result = .error (.fault e) →
              e.cause ≠ .dangling) := by
  refine ⟨fun _ _ => Machine.roundsLeft_lt_of_step hBudget, ?_⟩
  rcases Machine.exists_runEntry_of_budget exe cfg hBudget input output
    with ⟨⟨result, m⟩, hRun⟩
  have hStart : ∀ rounds, 2 * b + 2 ≤ rounds →
      (Run.initial input output).start exe cfg rounds =
        some ((Machine.flush exe result m).1.mapError .fault,
          ⟨Run.statusOf (Machine.flush exe result m).1,
            (Machine.flush exe result m).2⟩) := by
    intro rounds hRounds
    simp only [Run.initial, Run.start, hRun rounds hRounds]
  refine ⟨_, _, hStart, ?_⟩
  intro hExe e hError
  have hEnds := hStart _ (Nat.le_refl _)
  rw [hError] at hEnds
  rcases Run.exists_failure_of_start hEnds with
    ⟨e', _, hSame, _, hFailure⟩
  cases hSame
  exact hFailure.ne_dangling hExe

/-
  Routines that each call the next one, and then run off
  their ends: every call is counted, and no return is.
-/
def nesting : Executable :=
  { routines :=
      #[{ name := "main"
          returns := .void
          params := []
          slots := #[]
          code := #[⟨.call none (.routine 1) [], 3⟩]
          labels := [] },
        { name := "middle"
          returns := .void
          params := []
          slots := #[]
          code := #[⟨.call none (.routine 2) [], 7⟩]
          labels := [] },
        { name := "last"
          returns := .void
          params := []
          slots := #[]
          code := #[]
          labels := [] }]
    entry := 0 }

/- A budget of two is enough for it, and takes all six rounds. -/
theorem nesting_takes_all_rounds :
    nesting.SlotsInRange ∧
      ((Run.initial (Input.ofString "") Buffer.empty).start nesting
        { budget := some 2 } 5).isNone = true ∧
      ∃ result run,
        (Run.initial (Input.ofString "") Buffer.empty).start nesting
            { budget := some 2 } 6 = some (result, run) ∧
          result = .ok () ∧
          run.machine.steps = 2 := by
  have hExe : nesting.SlotsInRange := by decide
  have hBudget : Config.budget { budget := some 2 } = some 2 := rfl
  rcases budgeted_run_ends nesting hBudget (Input.ofString "")
    Buffer.empty with ⟨_, result, run, hEnds, _⟩
  have hRun := hEnds 6 (Nat.le_refl _)
  have hSix : ((Run.initial (Input.ofString "") Buffer.empty).start
      nesting { budget := some 2 } 6).map
        (fun ended => (ended.1, ended.2.machine.steps)) =
      some (.ok (), 2) := by
    decide +kernel
  rw [hRun, Option.map_some, Option.some.injEq, Prod.mk.injEq] at hSix
  exact ⟨hExe, by decide +kernel, result, run, hRun, hSix.1, hSix.2⟩

end ThreeAddress
