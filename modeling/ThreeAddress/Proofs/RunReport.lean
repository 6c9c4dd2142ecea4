import ThreeAddress.Proofs.Transition

/-
  This file follows a run on a text to its report: what the
  steps of a run write and count, and how its report comes
  from its last machine. What is written is always text, so
  that it can be read as such at any time.

  Key definitions include:
    * `Progress.machine`, `Progress.drive`
    * `Machine.Extends`
    * `Report.ofOutcome`

  Main statements:
    * `Machine.extends_step`
    * `Progress.exists_extends_of_drive`
    * `Progress.drive_unique`
    * `Machine.Reachable.exists_rounds`
    * `evaluate_eq_some_iff`
-/

namespace ThreeAddress

------------------------------------------------------------
-- Runs from a Step On
------------------------------------------------------------

namespace Progress

variable {ω : Type}

/- The machine behind a step. -/
def machine : Progress ω → Machine ω
| .running m => m
| .finished m => m
| .failed m _ => m

/- Go on from a step until the run ends. -/
def drive
    [Sink ω]
    (exe : Executable)
    (cfg : Config)
    (rounds : Nat) :
    Progress ω → Option (Except Fault Unit × Machine ω)
| .running m => Machine.drive exe cfg rounds m
| .finished m => some (.ok (), m)
| .failed m e => some (.error e, m)

end Progress

------------------------------------------------------------
-- What Steps Write and Count
------------------------------------------------------------

namespace Machine

/- Some steps were counted, and some text was written. -/
structure Extends (count : Nat) (m m' : Machine Buffer) : Prop where
  steps : m'.steps = m.steps + count
  output : ∃ text : String,
    m'.output.bytes = m.output.bytes ++ text.toUTF8

theorem Extends.of_eq
    {m m' : Machine Buffer}
    (hSteps : m'.steps = m.steps)
    (hOutput : m'.output = m.output) :
    Extends 0 m m' := by
  refine ⟨hSteps, "", ?_⟩
  rw [hOutput]
  exact ByteArray.append_empty.symm

theorem Extends.trans
    {m m₁ m₂ : Machine Buffer}
    {count count₁ : Nat}
    (h : Extends count m m₁)
    (h₁ : Extends count₁ m₁ m₂) :
    Extends (count + count₁) m m₂ := by
  rcases h with ⟨hSteps, text, hText⟩
  rcases h₁ with ⟨hSteps₁, more, hMore⟩
  refine ⟨by omega, text ++ more, ?_⟩
  rw [hMore, hText, ByteArray.append_assoc]
  simp

variable (m : Machine Buffer)

theorem extends_tick :
    Extends 1 m m.tick :=
  ⟨rfl, "", ByteArray.append_empty.symm⟩

theorem extends_advance :
    Extends 0 m m.advance := by
  rcases m with ⟨_ | _, memory, input, output, steps⟩ <;>
    exact .of_eq rfl rfl

theorem extends_jump
    (pc : Nat) :
    Extends 0 m (m.jump pc) := by
  rcases m with ⟨_ | _, memory, input, output, steps⟩ <;>
    exact .of_eq rfl rfl

theorem extends_assign
    (site : Site)
    (result : Except FaultCause (Target × Value)) :
    Extends 0 m (m.assign site result).machine := by
  rcases result with cause | ⟨_ | _, w⟩
  · exact .of_eq rfl rfl
  · rcases m with ⟨_ | _, memory, input, output, steps⟩ <;>
      exact .of_eq rfl rfl
  · rcases m with ⟨_ | _, memory, input, output, steps⟩ <;>
      exact .of_eq rfl rfl

theorem extends_pop
    (exe : Executable)
    (value : Option Value) :
    Extends 0 m (m.pop exe value).machine := by
  rcases m with ⟨_ | ⟨f, _ | ⟨g, gs⟩⟩, memory, input, output, steps⟩
  · exact .of_eq rfl rfl
  · exact .of_eq rfl rfl
  · have hPopped : Extends 0
        ⟨f :: g :: gs, memory, input, output, steps⟩
        ⟨g :: gs, memory.shrink f.mark, input, output, steps⟩ :=
      .of_eq rfl rfl
    simp only [pop]
    split
    · split
      · exact hPopped
      · exact hPopped.trans (extends_assign _ _ _)
    · exact hPopped.trans (extends_advance _)

theorem extends_enter
    (exe : Executable)
    (cfg : Config)
    (caller : Option Site)
    (index : Nat)
    (args : List Cell)
    (dest : Option Place) :
    Extends 0 m
      (m.enter exe cfg caller index args dest).machine := by
  unfold enter
  split
  · exact .of_eq rfl rfl
  · exact .of_eq rfl rfl

theorem extends_readInput
    {α : Type}
    (read : Input → Except ConsoleError α × Input)
    (value : α → Value) :
    Extends 0 m (m.readInput read value).2 := by
  unfold readInput
  dsimp only
  split <;> exact .of_eq rfl rfl

/- The output grows by the text that is written. -/
theorem extends_writeOutput
    (cs : List Char) :
    Extends 0 m (m.writeOutput (textBytes cs)).2 :=
  ⟨rfl, String.ofList cs, rfl⟩

theorem extends_intrinsic
    (i : Intrinsic)
    (arg : Option Value) :
    Extends 0 m (m.intrinsic i arg).2 := by
  unfold intrinsic
  split
  · exact extends_readInput m _ _
  · exact extends_readInput m _ _
  · exact extends_readInput m _ _
  · exact extends_writeOutput m _
  · exact extends_writeOutput m _
  · split
    · exact extends_writeOutput m _
    · exact .of_eq rfl rfl
  · exact .of_eq rfl rfl

theorem extends_callIntrinsic
    (r : Routine)
    (f : Frame)
    (site : Site)
    (dest : Option Place)
    (i : Intrinsic)
    (args : List Cell) :
    Extends 0 m (m.callIntrinsic r f site dest i args).machine := by
  have hIntrinsic := extends_intrinsic m i (firstValue args)
  unfold callIntrinsic
  generalize m.intrinsic i (firstValue args) = given at hIntrinsic
  rcases given with ⟨cause | value, m₁⟩
  · exact hIntrinsic
  · dsimp only
    split
    · exact hIntrinsic.trans (extends_assign m₁ _ _)
    · exact hIntrinsic.trans (extends_advance m₁)

/- An action may write; it is counted before it is performed. -/
theorem extends_perform
    (exe : Executable)
    (cfg : Config)
    (r : Routine)
    (f : Frame)
    (site : Site)
    (action : Action) :
    Extends 0 m (m.perform exe cfg r f site action).machine := by
  cases action with
  | assign | arith | bit | load | store =>
      exact extends_assign m _ _
  | goto target => exact extends_jump m target
  | branch cond target lhs rhs =>
      simp only [perform]
      split
      · exact .of_eq rfl rfl
      · exact extends_jump m target
      · exact extends_advance m
  | ret value =>
      cases value with
      | none => exact extends_pop m exe none
      | some src =>
          simp only [perform]
          split
          · exact .of_eq rfl rfl
          · exact extends_pop m exe _
  | call dest callee args =>
      simp only [perform]
      split
      · exact .of_eq rfl rfl
      · cases callee with
        | routine index => exact extends_enter m exe cfg _ index _ dest
        | intrinsic i => exact extends_callIntrinsic m r f site dest i _

/-
  A step counts one instruction or none, and none when the
  budget is used up.
-/
theorem extends_step
    (exe : Executable)
    (cfg : Config) :
    Extends 0 m (m.step exe cfg).machine ∨
      (m.outOfBudget cfg = none ∧
        Extends 1 m (m.step exe cfg).machine) := by
  unfold step
  split
  · exact .inl (.of_eq rfl rfl)
  · split
    · exact .inl (.of_eq rfl rfl)
    · split
      · exact .inl (extends_pop m exe none)
      · split
        · exact .inl (.of_eq rfl rfl)
        · next hBudget =>
            exact .inr ⟨hBudget,
              (extends_tick m).trans (extends_perform m.tick _ _ _ _ _ _)⟩

variable {m}

theorem exists_extends_of_step
    (exe : Executable)
    (cfg : Config) :
    ∃ count, Extends count m (m.step exe cfg).machine := by
  rcases extends_step m exe cfg with h | ⟨_, h⟩
  · exact ⟨0, h⟩
  · exact ⟨1, h⟩

end Machine

/- A run only adds to what was written and counted. -/
theorem Progress.exists_extends_of_drive
    {exe : Executable}
    {cfg : Config}
    {rounds : Nat}
    {p : Progress Buffer}
    {result : Except Fault Unit}
    {m : Machine Buffer}
    (h : p.drive exe cfg rounds = some (result, m)) :
    ∃ count, Machine.Extends count p.machine m := by
  induction rounds generalizing p with
  | zero =>
      cases p with
      | running m₁ => cases h
      | finished m₁ | failed m₁ e =>
          cases h
          exact ⟨0, .of_eq rfl rfl⟩
  | succ rounds ih =>
      cases p with
      | running m₁ =>
          rcases Machine.exists_extends_of_step (m := m₁) exe cfg with
            ⟨count, hStep⟩
          rcases ih (p := m₁.step exe cfg) h with ⟨more, hRest⟩
          exact ⟨count + more, hStep.trans hRest⟩
      | finished m₁ | failed m₁ e =>
          cases h
          exact ⟨0, .of_eq rfl rfl⟩

theorem Machine.Extends.drive
    {exe : Executable}
    {cfg : Config}
    {rounds count : Nat}
    {p : Progress Buffer}
    {result : Except Fault Unit}
    {m m' : Machine Buffer}
    (h : Extends count m p.machine)
    (hDrive : p.drive exe cfg rounds = some (result, m')) :
    ∃ total, Extends total m m' := by
  rcases Progress.exists_extends_of_drive hDrive with ⟨more, hRest⟩
  exact ⟨count + more, h.trans hRest⟩

namespace Progress

variable {exe : Executable} {p : Progress Buffer}

/- A run that ends does so in one way. -/
theorem drive_unique
    {cfg : Config}
    {rounds rounds' : Nat}
    {outcome outcome' : Except Fault Unit × Machine Buffer}
    (h : p.drive exe cfg rounds = some outcome)
    (h' : p.drive exe cfg rounds' = some outcome') :
    outcome = outcome' := by
  induction rounds generalizing p rounds' with
  | zero =>
      cases p with
      | running m => cases h
      | finished m | failed m e =>
          exact Option.some.inj (h.symm.trans h')
  | succ rounds ih =>
      cases p with
      | running m =>
          cases rounds' with
          | zero => cases h'
          | succ rounds' => exact ih (p := m.step exe cfg) h h'
      | finished m | failed m e =>
          exact Option.some.inj (h.symm.trans h')

end Progress

namespace Machine

variable {exe : Executable} {cfg : Config}

/- From every machine of a run on the run goes on as it does. -/
theorem Reachable.exists_rounds
    {ω : Type}
    [Sink ω]
    {m : Machine ω}
    {input : Input}
    {output : ω}
    (h : Reachable exe cfg input output m) :
    ∃ before, ∀ rounds,
      runEntry exe cfg (before + rounds)
          (Machine.initial input output) =
        drive exe cfg rounds m := by
  induction h with
  | start hEnter =>
      refine ⟨0, ?_⟩
      intro rounds
      rw [runEntry, hEnter, Nat.zero_add]
  | step _ hStep ih =>
      rcases ih with ⟨before, hBefore⟩
      refine ⟨before + 1, ?_⟩
      intro rounds
      rw [Nat.add_assoc, Nat.add_comm 1, hBefore, drive, hStep]

end Machine

------------------------------------------------------------
-- Reports
------------------------------------------------------------

/- The report of a run that ended. -/
def Report.ofOutcome
    (outcome : Except Fault Unit × Machine Buffer) : Report :=
  { output := outcome.2.output.text
    steps := outcome.2.steps
    result := outcome.1.mapError .fault }

/- A buffer can always be flushed. -/
theorem evaluate_eq_map_runEntry
    (exe : Executable)
    (input : String)
    (cfg : Config)
    (rounds : Nat) :
    evaluate exe input cfg rounds =
      (Machine.runEntry exe cfg rounds
        (Machine.initial (Input.ofString input) Buffer.empty)).map
        Report.ofOutcome := by
  have hFlush : ∀ (result : Except Fault Unit) (m : Machine Buffer),
      Machine.flush exe result m = (result, m) := by
    intro result m
    cases result <;> rfl
  simp only [evaluate, Run.initial, Run.start]
  generalize Machine.runEntry exe cfg rounds
    (Machine.initial (Input.ofString input) Buffer.empty) = ended
  rcases ended with _ | ⟨result, m⟩
  · rfl
  · simp only [hFlush]
    rfl

theorem evaluate_eq_some_iff
    {exe : Executable}
    {input : String}
    {cfg : Config}
    {rounds : Nat}
    {report : Report} :
    evaluate exe input cfg rounds = some report ↔
      ∃ result m,
        Machine.runEntry exe cfg rounds
            (Machine.initial (Input.ofString input) Buffer.empty) =
          some (result, m) ∧
        Report.ofOutcome (result, m) = report := by
  rw [evaluate_eq_map_runEntry, Option.map_eq_some_iff, Prod.exists]

/- The bytes of a text are read as that text. -/
theorem Buffer.text_eq
    {b : Buffer}
    {text : String}
    (h : b.bytes = text.toUTF8) :
    b.text = text := by
  rw [Buffer.text, h, Utf8.decode_toUTF8]

/- What a run of a machine from the start has written is text. -/
theorem Machine.Extends.exists_text_append
    {input : Input}
    {count more : Nat}
    {m m' : Machine Buffer}
    (h : Extends count (Machine.initial input Buffer.empty) m)
    (hMore : Extends more m m') :
    ∃ rest, m'.output.text = m.output.text ++ rest := by
  rcases h.output with ⟨text, hText⟩
  rcases hMore.output with ⟨rest, hRest⟩
  have hBytes : m.output.bytes = text.toUTF8 :=
    hText.trans ByteArray.empty_append
  have hBytes' : m'.output.bytes = (text ++ rest).toUTF8 := by
    rw [hRest, hBytes]
    simp
  exact ⟨rest, by rw [Buffer.text_eq hBytes, Buffer.text_eq hBytes']⟩

theorem Machine.exists_extends_of_runEntry
    {exe : Executable}
    {cfg : Config}
    {rounds : Nat}
    {result : Except Fault Unit}
    {m m' : Machine Buffer}
    (h : runEntry exe cfg rounds m = some (result, m')) :
    ∃ count, Extends count m m' :=
  (extends_enter m exe cfg none exe.entry [] none).drive h

end ThreeAddress
