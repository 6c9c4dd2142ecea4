import ThreeAddress.Proofs.OperandFaults
import ThreeAddress.Proofs.RunReport
import ThreeAddress.Verification

/-
  This file compares runs under different limits. A limit is
  asked for before it matters: the budget before a step, the
  depth and the memory before a call. So a run under smaller
  limits goes through the same machines as one under larger
  limits until it ends, or until a limit cuts it short, and
  what was written and counted by then is the beginning of
  what the other run writes and counts.

  Key definitions include:
    * `Config.AtMost`
    * `FaultCause.isLimit`, `Report.isCutShort`
    * `ExecutesMoreThan`
    * `Progress.Prolongs`
    * `Machine.StopsForBudget`

  Main statements:
    * `Machine.prolongs_step`
    * `Progress.Prolongs.drive`
    * `Machine.steps_le_of_reachable`
    * `Machine.Reachable.withBudget`
    * `limits_only_cut_runs_short`
-/

namespace ThreeAddress

------------------------------------------------------------
-- Limits
------------------------------------------------------------

/-
  Each limit is at most that of other limits. Without a
  budget the steps have no limit.
-/
structure Config.AtMost (c c' : Config) : Prop where
  depth : c.maxDepth ≤ c'.maxDepth
  memory : c.maxMemory ≤ c'.maxMemory
  budget :
    ∀ b', c'.budget = some b' → ∃ b, c.budget = some b ∧ b ≤ b'

/- The limits without a budget. -/
def Config.withoutBudget (c : Config) : Config :=
  { c with budget := none }

/- The cause is that a limit of the run is reached. -/
def FaultCause.isLimit : FaultCause → Bool
| .stackOverflow _ => true
| .memoryExhausted _ _ => true
| .budgetExhausted _ => true
| _ => false

/- The run was cut short by a limit. -/
def Report.isCutShort (r : Report) : Bool :=
  match r.result with
  | .error (.fault e) => e.cause.isLimit
  | _ => false

/- The run ended because its budget was used up. -/
def Report.ExhaustsBudget (r : Report) (b : Nat) : Prop :=
  ∃ site, r.result = .error (.fault ⟨site, .budgetExhausted b⟩)

/-
  A run on a text executes more than a number of
  instructions: it counts more of them on its way, or by its
  end.
-/
def ExecutesMoreThan
    (exe : Executable)
    (input : String)
    (cfg : Config)
    (b : Nat) : Prop :=
  (∃ m, Machine.Reachable exe cfg (Input.ofString input)
      Buffer.empty m ∧ b < m.steps) ∨
    ∃ rounds report,
      evaluate exe input cfg rounds = some report ∧
        b < report.steps

/- A report is of a run that a limit stopped. -/
theorem Report.isCutShort_ofOutcome
    {e : Fault}
    {m : Machine Buffer} :
    (Report.ofOutcome (.error e, m)).isCutShort = e.cause.isLimit :=
  rfl

------------------------------------------------------------
-- Steps Under Larger Limits
------------------------------------------------------------

/-
  A step under larger limits is the same step, unless a limit
  stops the one under smaller limits. What that one has
  written and counted, the other one has too.
-/
inductive Progress.Prolongs : Progress Buffer → Progress Buffer → Prop where
| same (p : Progress Buffer) : Prolongs p p
| cut
    {m : Machine Buffer}
    {e : Fault}
    {p' : Progress Buffer}
    {count : Nat}
    (limit : e.cause.isLimit = true)
    (longer : Machine.Extends count m p'.machine) :
    Prolongs (.failed m e) p'

/- Larger limits admit the same calls, or one was refused. -/
theorem admission_of_atMost
    {c c' : Config}
    (h : c.AtMost c')
    (exe : Executable)
    (depth used : Nat)
    (caller : Option Site)
    (index : Nat) :
    admission exe c' depth used caller index =
        admission exe c depth used caller index ∨
      ∃ e,
        admission exe c depth used caller index = .error e ∧
          e.cause.isLimit = true := by
  have hDepth := h.depth
  have hMemory := h.memory
  unfold admission
  split
  · exact .inl rfl
  · next r _ =>
      by_cases hDeep : c.maxDepth ≤ depth
      · rw [if_pos hDeep]
        exact .inr ⟨_, rfl, rfl⟩
      · by_cases hFull : c.maxMemory < used + r.ownedCells
        · rw [if_neg hDeep, if_pos hFull]
          exact .inr ⟨_, rfl, rfl⟩
        · rw [if_neg hDeep, if_neg hFull, if_neg (by omega),
            if_neg (by omega)]
          exact .inl rfl

namespace Machine

variable {c c' : Config}

theorem prolongs_enter
    (h : c.AtMost c')
    (m : Machine Buffer)
    (exe : Executable)
    (caller : Option Site)
    (index : Nat)
    (args : List Cell)
    (dest : Option Place) :
    Progress.Prolongs (m.enter exe c caller index args dest)
      (m.enter exe c' caller index args dest) := by
  have hLarger := extends_enter m exe c' caller index args dest
  unfold enter at hLarger ⊢
  rcases admission_of_atMost h exe m.depth m.memory.size caller index with
    hSame | ⟨e, hError, hLimit⟩
  · rw [hSame]
    exact .same _
  · rw [hError]
    exact .cut hLimit hLarger

/- Only the call of a routine asks for the depth and the memory. -/
theorem prolongs_perform
    (h : c.AtMost c')
    (m : Machine Buffer)
    (exe : Executable)
    (r : Routine)
    (f : Frame)
    (site : Site)
    (action : Action) :
    Progress.Prolongs (m.perform exe c r f site action)
      (m.perform exe c' r f site action) := by
  cases action with
  | assign | arith | bit | load | store | goto | branch =>
      exact .same _
  | ret value => cases value <;> exact .same _
  | call dest callee args =>
      simp only [perform]
      split
      · exact .same _
      · cases callee with
        | intrinsic i => exact .same _
        | routine index => exact prolongs_enter h m exe _ index _ dest

theorem outOfBudget_of_atMost
    (h : c.AtMost c')
    (m : Machine Buffer)
    (hBudget : m.outOfBudget c = none) :
    m.outOfBudget c' = none := by
  unfold outOfBudget at hBudget ⊢
  cases hLarger : c'.budget with
  | none => rfl
  | some b' =>
      rcases h.budget b' hLarger with ⟨b, hSmaller, hLe⟩
      rw [hSmaller] at hBudget
      simp only [Option.filter_some, decide_eq_true_eq,
        ite_eq_right_iff, reduceCtorEq, imp_false] at hBudget ⊢
      omega

theorem prolongs_step
    (h : c.AtMost c')
    (m : Machine Buffer)
    (exe : Executable) :
    Progress.Prolongs (m.step exe c) (m.step exe c') := by
  rcases exists_extends_of_step (m := m) exe c' with ⟨count, hLarger⟩
  cases hFrames : m.frames with
  | nil =>
      simp only [step, hFrames]
      exact .same _
  | cons f rest =>
      cases hRoutine : exe.routines[f.routine]? with
      | none =>
          simp only [step, hFrames, hRoutine]
          exact .same _
      | some r =>
          cases hCode : r.code[f.pc]? with
          | none =>
              simp only [step, hFrames, hRoutine, hCode]
              exact .same _
          | some s =>
              simp only [step, hFrames, hRoutine, hCode] at hLarger ⊢
              cases hBudget : m.outOfBudget c with
              | some b => exact .cut rfl hLarger
              | none =>
                  simp only [outOfBudget_of_atMost h m hBudget]
                  exact prolongs_perform h m.tick exe r f _ s.action

end Machine

------------------------------------------------------------
-- Runs Under Larger Limits
------------------------------------------------------------

namespace Progress

variable {exe : Executable} {c c' : Config}
variable {p p' : Progress Buffer}

/-
  A run under larger limits ends in the same way, unless the
  one under smaller limits is cut short; then it goes on from
  there.
-/
theorem Prolongs.drive
    {rounds : Nat}
    {result : Except Fault Unit}
    {m : Machine Buffer}
    (hLimits : c.AtMost c')
    (h : Prolongs p p')
    (hDrive : p.drive exe c rounds = some (result, m)) :
    p'.drive exe c' rounds = some (result, m) ∨
      ∃ e,
        result = .error e ∧
          e.cause.isLimit = true ∧
          ∀ rounds' result' m',
            p'.drive exe c' rounds' = some (result', m') →
              ∃ count, Machine.Extends count m m' := by
  induction rounds generalizing p p' with
  | zero =>
      cases h with
      | same =>
          cases p with
          | running m₁ => cases hDrive
          | finished m₁ | failed m₁ e => exact .inl hDrive
      | cut hLimit hLonger =>
          cases hDrive
          exact .inr ⟨_, rfl, hLimit, fun _ _ _ => hLonger.drive⟩
  | succ rounds ih =>
      cases h with
      | same =>
          cases p with
          | finished m₁ | failed m₁ e => exact .inl hDrive
          | running m₁ =>
              have hStep := Machine.prolongs_step hLimits m₁ exe
              rcases ih hStep hDrive with
                hEnds | ⟨e, hError, hLimit, hLonger⟩
              · exact .inl hEnds
              · refine .inr ⟨e, hError, hLimit, ?_⟩
                intro rounds' result' m' hOther
                cases rounds' with
                | zero => cases hOther
                | succ rounds' =>
                    exact hLonger rounds' result' m' hOther
      | cut hLimit hLonger =>
          cases hDrive
          exact .inr ⟨_, rfl, hLimit, fun _ _ _ => hLonger.drive⟩

/- A run under larger limits takes no fewer rounds. -/
theorem Prolongs.drive_eq_none
    {rounds : Nat}
    (hLimits : c.AtMost c')
    (h : Prolongs p p')
    (hDrive : p.drive exe c rounds = none) :
    p'.drive exe c' rounds = none := by
  induction rounds generalizing p p' with
  | zero =>
      cases h with
      | same =>
          cases p with
          | running m => rfl
          | finished m | failed m e => cases hDrive
      | cut _ _ => cases hDrive
  | succ rounds ih =>
      cases h with
      | same =>
          cases p with
          | running m =>
              exact ih (Machine.prolongs_step hLimits m exe) hDrive
          | finished m | failed m e => cases hDrive
      | cut _ _ => cases hDrive

end Progress

------------------------------------------------------------
-- The Budget
------------------------------------------------------------

theorem FaultCause.ne_budgetExhausted_of_isOfOperands
    {cause : FaultCause}
    (h : cause.isOfOperands = true)
    (b : Nat) :
    cause ≠ .budgetExhausted b := by
  rintro rfl
  cases h

theorem ne_budgetExhausted_of_admission
    {exe : Executable}
    {cfg : Config}
    {depth used index : Nat}
    {caller : Option Site}
    {e : Fault}
    (h : admission exe cfg depth used caller index = .error e)
    (b : Nat) :
    e.cause ≠ .budgetExhausted b := by
  unfold admission at h
  split at h
  · cases h
    nofun
  · split at h
    · cases h
      nofun
    · split at h
      · cases h
        nofun
      · cases h

namespace Machine

variable {exe : Executable} {cfg : Config}
variable {m m' : Machine Buffer} {e : Fault}

theorem ne_budgetExhausted_of_assign
    {site : Site}
    {result : Except FaultCause (Target × Value)}
    (hResult : ∀ cause,
      result = .error cause → cause.isOfOperands = true)
    (h : m.assign site result = .failed m' e)
    (b : Nat) :
    e.cause ≠ .budgetExhausted b := by
  cases result with
  | error cause =>
      cases h
      exact FaultCause.ne_budgetExhausted_of_isOfOperands
        (hResult cause rfl) b
  | ok found => cases h

theorem ne_budgetExhausted_of_pop
    {value : Option Value}
    (h : m.pop exe value = .failed m' e)
    (b : Nat) :
    e.cause ≠ .budgetExhausted b := by
  rcases m with ⟨_ | ⟨f, _ | ⟨g, gs⟩⟩, memory, input, output, steps⟩
  · cases h
  · cases h
  · simp only [pop] at h
    split at h
    · split at h
      · cases h
        intro hCause
        cases hCause
      · exact ne_budgetExhausted_of_assign
          (fun _ => Context.isOfOperands_of_target) h b
    · cases h

theorem ne_budgetExhausted_of_callIntrinsic
    {r : Routine}
    {f : Frame}
    {site : Site}
    {dest : Option Place}
    {i : Intrinsic}
    {args : List Cell}
    (h : m.callIntrinsic r f site dest i args = .failed m' e)
    (b : Nat) :
    e.cause ≠ .budgetExhausted b := by
  have hRead : ∀ {α : Type}
      (read : Input → Except ConsoleError α × Input)
      (value : α → Value),
      (m.readInput read value).1 ≠ .error (.budgetExhausted b) := by
    intro α read value
    unfold readInput
    dsimp only
    split <;> nofun
  have hWrite : ∀ chunk,
      (m.writeOutput chunk).1 ≠ .error (.budgetExhausted b) :=
    fun _ => nofun
  have hIntrinsic : (m.intrinsic i (firstValue args)).1 ≠
      .error (.budgetExhausted b) := by
    unfold intrinsic
    split
    · exact hRead _ _
    · exact hRead _ _
    · exact hRead _ _
    · exact hWrite _
    · exact hWrite _
    · split
      · exact hWrite _
      · nofun
    · nofun
  unfold callIntrinsic at h
  generalize m.intrinsic i (firstValue args) = given at h hIntrinsic
  rcases given with ⟨cause | value, m₁⟩
  · cases h
    rintro rfl
    exact hIntrinsic rfl
  · dsimp only at h
    split at h
    · exact ne_budgetExhausted_of_assign
        (fun _ => Context.isOfOperands_of_target) h b
    · cases h

/- No action that is performed fails for the budget. -/
theorem ne_budgetExhausted_of_perform
    {r : Routine}
    {f : Frame}
    {site : Site}
    {action : Action}
    (h : m.perform exe cfg r f site action = .failed m' e)
    (b : Nat) :
    e.cause ≠ .budgetExhausted b := by
  cases action with
  | assign dest src =>
      exact ne_budgetExhausted_of_assign
        (fun _ => Context.isOfOperands_of_copied) h b
  | arith op dest lhs rhs =>
      exact ne_budgetExhausted_of_assign
        (fun _ => Context.isOfOperands_of_computed
          fun _ _ _ => isOfOperands_of_arith) h b
  | bit op dest lhs rhs =>
      exact ne_budgetExhausted_of_assign
        (fun _ => Context.isOfOperands_of_computed
          fun _ _ _ => isOfOperands_of_bitwise) h b
  | load dest array index =>
      exact ne_budgetExhausted_of_assign
        (fun _ => Context.isOfOperands_of_loaded) h b
  | store value array index =>
      exact ne_budgetExhausted_of_assign
        (fun _ => Context.isOfOperands_of_stored) h b
  | goto target => cases h
  | branch cond target lhs rhs =>
      simp only [perform] at h
      split at h
      · next hCondition =>
          cases h
          exact FaultCause.ne_budgetExhausted_of_isOfOperands
            (Context.isOfOperands_of_condition hCondition) b
      · cases h
      · cases h
  | ret value =>
      cases value with
      | none => exact ne_budgetExhausted_of_pop h b
      | some src =>
          simp only [perform] at h
          split at h
          · next hRead =>
              cases h
              exact FaultCause.ne_budgetExhausted_of_isOfOperands
                (Context.isOfOperands_of_read hRead) b
          · exact ne_budgetExhausted_of_pop h b
  | call dest callee args =>
      simp only [perform] at h
      split at h
      · next hArguments =>
          cases h
          exact FaultCause.ne_budgetExhausted_of_isOfOperands
            (Context.isOfOperands_of_arguments hArguments) b
      · cases callee with
        | intrinsic i => exact ne_budgetExhausted_of_callIntrinsic h b
        | routine index =>
            simp only [enter] at h
            split at h
            · next hAdmission =>
                cases h
                exact ne_budgetExhausted_of_admission hAdmission b
            · cases h

theorem outOfBudget_eq_some_iff
    {b : Nat} :
    m.outOfBudget cfg = some b ↔
      cfg.budget = some b ∧ b ≤ m.steps := by
  unfold outOfBudget
  rw [Option.filter_eq_some_iff, decide_eq_true_eq]

theorem outOfBudget_eq_none_iff :
    m.outOfBudget cfg = none ↔
      ∀ b, cfg.budget = some b → m.steps < b := by
  unfold outOfBudget
  rw [Option.filter_eq_none_iff]
  simp

/- A step that fails for the budget is not begun. -/
theorem eq_of_step_budgetExhausted
    {site : Site}
    {b : Nat}
    (h : m.step exe cfg = .failed m' ⟨site, .budgetExhausted b⟩) :
    m' = m ∧ cfg.budget = some b ∧ b ≤ m.steps := by
  unfold step at h
  split at h
  · cases h
  · split at h
    · cases h
    · split at h
      · exact absurd rfl (ne_budgetExhausted_of_pop h b)
      · split at h
        · next hBudget =>
            cases h
            exact ⟨rfl, outOfBudget_eq_some_iff.mp hBudget⟩
        · exact absurd rfl (ne_budgetExhausted_of_perform h b)

/- Steps are counted up to the budget. -/
theorem steps_le_of_step
    {b : Nat}
    (exe : Executable)
    (hBudget : cfg.budget = some b)
    (h : m.steps ≤ b) :
    (m.step exe cfg).machine.steps ≤ b := by
  rcases extends_step m exe cfg with hNone | ⟨hRoom, hOne⟩
  · rw [hNone.steps]
    exact h
  · have hLess := outOfBudget_eq_none_iff.mp hRoom b hBudget
    rw [hOne.steps]
    omega

/- A run starts without a step, also if it fails at once. -/
theorem steps_enter_initial
    (exe : Executable)
    (cfg : Config)
    (input : Input) :
    ((Machine.initial input Buffer.empty).enter exe cfg none exe.entry []
      none).machine.steps = 0 :=
  (extends_enter (Machine.initial input Buffer.empty) exe cfg none
    exe.entry [] none).steps

theorem steps_le_of_reachable
    {input : Input}
    {b : Nat}
    (hBudget : cfg.budget = some b)
    (h : Reachable exe cfg input Buffer.empty m) :
    m.steps ≤ b := by
  refine h.invariant (P := fun m => m.steps ≤ b) ?_ ?_
  · intro m₁ hEnter
    have hZero := steps_enter_initial exe cfg input
    rw [hEnter] at hZero
    exact Nat.le_trans (Nat.le_of_eq hZero) (Nat.zero_le b)
  · intro m₁ m₂ _ hLe hStep
    have hNext := steps_le_of_step exe hBudget hLe
    rw [hStep] at hNext
    exact hNext

------------------------------------------------------------
-- Runs With and Without a Budget
------------------------------------------------------------

/-
  A step without a budget is the same step, unless the budget
  stops an instruction that would be counted.
-/
theorem step_withoutBudget
    (m : Machine Buffer)
    (exe : Executable)
    (cfg : Config) :
    m.step exe cfg.withoutBudget = m.step exe cfg ∨
      ∃ b site,
        cfg.budget = some b ∧
          b ≤ m.steps ∧
          m.step exe cfg = .failed m ⟨site, .budgetExhausted b⟩ ∧
          (m.step exe cfg.withoutBudget).machine.steps =
            m.steps + 1 := by
  have hPerform : ∀ (m : Machine Buffer) r f site action,
      m.perform exe cfg.withoutBudget r f site action =
        m.perform exe cfg r f site action := by
    intro m r f site action
    cases action with
    | assign | arith | bit | load | store | goto | branch => rfl
    | ret value => cases value <;> rfl
    | call dest callee args => cases callee <;> rfl
  cases hFrames : m.frames with
  | nil =>
      left
      simp only [step, hFrames]
  | cons f rest =>
      cases hRoutine : exe.routines[f.routine]? with
      | none =>
          left
          simp only [step, hFrames, hRoutine]
      | some r =>
          cases hCode : r.code[f.pc]? with
          | none =>
              left
              simp only [step, hFrames, hRoutine, hCode]
          | some s =>
              have hFree : m.outOfBudget cfg.withoutBudget = none := rfl
              simp only [step, hFrames, hRoutine, hCode, hFree]
              cases hBudget : m.outOfBudget cfg with
              | none => exact .inl (hPerform m.tick r f _ s.action)
              | some b =>
                  rcases outOfBudget_eq_some_iff.mp hBudget with
                    ⟨hSome, hLe⟩
                  refine .inr ⟨b, _, hSome, hLe, rfl, ?_⟩
                  exact ((extends_tick m).trans
                    (extends_perform m.tick _ _ _ _ _ _)).steps

/- The run comes to a step that fails for the budget. -/
def StopsForBudget
    (exe : Executable)
    (cfg : Config)
    (input : Input)
    (b : Nat) : Prop :=
  ∃ last site,
    Reachable exe cfg input Buffer.empty last ∧
      last.steps = b ∧
      last.step exe cfg = .failed last ⟨site, .budgetExhausted b⟩

/-
  What a run without a budget reaches, the one with a budget
  reaches too, or it stops for the budget before.
-/
theorem Reachable.withBudget
    {input : Input}
    {b : Nat}
    (hBudget : cfg.budget = some b)
    (h : Reachable exe cfg.withoutBudget input Buffer.empty m) :
    Reachable exe cfg input Buffer.empty m ∨
      StopsForBudget exe cfg input b := by
  induction h with
  | start hEnter => exact .inl (.start hEnter)
  | @step m₁ m₂ _ hStep ih =>
      rcases ih with hReachable | hStops
      · rcases step_withoutBudget m₁ exe cfg with
          hSame | ⟨b', site, hSome, hLe, hFailed, _⟩
        · exact .inl (.step hReachable (hSame.symm.trans hStep))
        · rw [hBudget] at hSome
          cases hSome
          have hSteps := steps_le_of_reachable hBudget hReachable
          exact .inr ⟨m₁, site, hReachable, by omega, hFailed⟩
      · exact .inr hStops

end Machine

------------------------------------------------------------
-- Reports and Budgets
------------------------------------------------------------

section Budgets

variable {exe : Executable} {cfg : Config} {input : String}
variable {rounds b : Nat} {report : Report}

/- A run does not count more steps than its budget. -/
theorem steps_le_of_evaluate
    (hBudget : cfg.budget = some b)
    (h : evaluate exe input cfg rounds = some report) :
    report.steps ≤ b := by
  rcases evaluate_eq_some_iff.mp h with ⟨result, m, hRun, rfl⟩
  rcases Machine.exists_last_of_runEntry hRun with
    ⟨e, _, hEnter⟩ | ⟨last, hReachable, hEnd⟩
  · have hZero := Machine.steps_enter_initial exe cfg
      (Input.ofString input)
    rw [hEnter] at hZero
    exact Nat.le_trans (Nat.le_of_eq hZero) (Nat.zero_le b)
  · have hSteps := Machine.steps_le_of_reachable hBudget hReachable
    have hLast := Machine.steps_le_of_step exe hBudget hSteps
    rcases hEnd with ⟨_, hStep⟩ | ⟨e, _, hStep⟩
    · rw [hStep] at hLast
      exact hLast
    · rw [hStep] at hLast
      exact hLast

/- A run that ends for the budget stops for it on its way. -/
theorem stopsForBudget_of_exhaustsBudget
    {b' : Nat}
    (hBudget : cfg.budget = some b)
    (h : evaluate exe input cfg rounds = some report)
    (hExhausts : report.ExhaustsBudget b') :
    b' = b ∧
      report.steps = b ∧
      Machine.StopsForBudget exe cfg (Input.ofString input) b := by
  rcases evaluate_eq_some_iff.mp h with ⟨result, m, hRun, rfl⟩
  rcases hExhausts with ⟨site, hResult⟩
  have hFault : result = .error ⟨site, .budgetExhausted b'⟩ := by
    cases result with
    | ok _ => cases hResult
    | error e =>
        cases hResult
        rfl
  subst hFault
  rcases Machine.exists_last_of_runEntry hRun with
    ⟨e, hError, hEnter⟩ | ⟨last, hReachable, ⟨hOk, _⟩ | ⟨e, hError, hStep⟩⟩
  · cases hError
    simp only [Machine.enter] at hEnter
    split at hEnter
    · next hAdmission =>
        cases hEnter
        exact absurd rfl (ne_budgetExhausted_of_admission hAdmission b')
    · cases hEnter
  · cases hOk
  · cases hError
    rcases Machine.eq_of_step_budgetExhausted hStep with
      ⟨rfl, hSome, hLe⟩
    rw [hBudget] at hSome
    cases hSome
    have hSteps := Machine.steps_le_of_reachable hBudget hReachable
    have hSame : m.steps = b := by omega
    exact ⟨rfl, hSame, m, site, hReachable, hSame, hStep⟩

end Budgets

namespace Machine

variable {exe : Executable} {cfg : Config} {input : String} {b : Nat}

/- A run with a budget that comes to its step too many ends. -/
theorem StopsForBudget.exists_report
    (h : StopsForBudget exe cfg (Input.ofString input) b) :
    ∃ rounds report,
      evaluate exe input cfg rounds = some report ∧
        report.ExhaustsBudget b ∧
        report.steps = b := by
  rcases h with ⟨last, site, hReachable, hSteps, hFailed⟩
  rcases hReachable.exists_rounds with ⟨before, hRounds⟩
  have hEnds : runEntry exe cfg (before + 1)
      (Machine.initial (Input.ofString input) Buffer.empty) =
      some (.error ⟨site, .budgetExhausted b⟩, last) := by
    rw [hRounds, drive, hFailed]
  exact ⟨before + 1, _,
    evaluate_eq_some_iff.mpr ⟨_, _, hEnds, rfl⟩, ⟨site, rfl⟩, hSteps⟩

/- Without the budget the run goes beyond it. -/
theorem StopsForBudget.executesMoreThan
    (h : StopsForBudget exe cfg (Input.ofString input) b) :
    ExecutesMoreThan exe input cfg.withoutBudget b := by
  rcases h with ⟨last, site, hReachable, hSteps, hFailed⟩
  have hFree : Reachable exe cfg.withoutBudget (Input.ofString input)
      Buffer.empty last := by
    clear hFailed hSteps
    induction hReachable with
    | start hEnter => exact .start hEnter
    | @step m₁ m₂ _ hStep ih =>
        rcases step_withoutBudget m₁ exe cfg with
          hSame | ⟨_, _, _, _, hFailed, _⟩
        · exact .step ih (hSame.trans hStep)
        · rw [hFailed] at hStep
          cases hStep
  rcases step_withoutBudget last exe cfg with
    hSame | ⟨_, _, _, _, _, hCounted⟩
  · -- A run without a budget does not fail for it.
    rw [hFailed] at hSame
    rcases eq_of_step_budgetExhausted hSame with ⟨_, hNone, _⟩
    cases hNone
  · cases hStep : last.step exe cfg.withoutBudget with
    | running m =>
        rw [hStep] at hCounted
        have hMore : m.steps = last.steps + 1 := hCounted
        exact .inl ⟨m, .step hFree hStep, by omega⟩
    | finished m =>
        rcases eq_of_step_finished hStep with ⟨rfl, _⟩
        rw [hStep] at hCounted
        have hMore : m.steps = m.steps + 1 := hCounted
        omega
    | failed m e =>
        rw [hStep] at hCounted
        have hMore : m.steps = last.steps + 1 := hCounted
        rcases hFree.exists_rounds with ⟨before, hRounds⟩
        have hEnds : runEntry exe cfg.withoutBudget (before + 1)
            (Machine.initial (Input.ofString input) Buffer.empty) =
            some (.error e, m) := by
          rw [hRounds, drive, hStep]
        refine .inr ⟨before + 1, _,
          evaluate_eq_some_iff.mpr ⟨_, _, hEnds, rfl⟩, ?_⟩
        show b < m.steps
        omega

/- A run that goes beyond a budget stops for it. -/
theorem stopsForBudget_of_executesMoreThan
    (hBudget : cfg.budget = some b)
    (h : ExecutesMoreThan exe input cfg.withoutBudget b) :
    StopsForBudget exe cfg (Input.ofString input) b := by
  rcases h with ⟨m, hFree, hMore⟩ | ⟨rounds, report, hEnds, hMore⟩
  · rcases hFree.withBudget hBudget with hReachable | hStops
    · have hSteps := steps_le_of_reachable hBudget hReachable
      omega
    · exact hStops
  · rcases evaluate_eq_some_iff.mp hEnds with ⟨result, m, hRun, rfl⟩
    have hBeyond : b < m.steps := hMore
    rcases exists_last_of_runEntry hRun with
      ⟨e, _, hEnter⟩ | ⟨last, hFree, hEnd⟩
    · have hZero := steps_enter_initial exe cfg.withoutBudget
        (Input.ofString input)
      rw [hEnter] at hZero
      have hNone : m.steps = 0 := hZero
      omega
    · have hLast : (last.step exe cfg.withoutBudget).machine = m := by
        rcases hEnd with ⟨_, hStep⟩ | ⟨e, _, hStep⟩ <;> rw [hStep] <;> rfl
      rcases hFree.withBudget hBudget with hReachable | hStops
      · have hSteps := steps_le_of_reachable hBudget hReachable
        rcases step_withoutBudget last exe cfg with
          hSame | ⟨b', site, hSome, hLe, hFailed, _⟩
        · have hNext := steps_le_of_step exe hBudget hSteps
          rw [← hSame, hLast] at hNext
          omega
        · rw [hBudget] at hSome
          cases hSome
          exact ⟨last, site, hReachable, by omega, hFailed⟩
      · exact hStops

end Machine

------------------------------------------------------------
-- Limits Only Cut Runs Short
------------------------------------------------------------

/-
  Limits only cut a run short. For every executable and
  input, let each of some limits be at most that of others. A
  run under the smaller limits that ends without reaching one
  of them ends under the larger limits with the same report.
  One that is cut short has counted no more steps, and has
  written a beginning of the output, of every run under the
  larger limits that ends; and one that does not end does not
  end under the larger limits either.

  With a budget a run never counts more steps than that, at
  no time and in no report. It ends because the budget is
  used up, and then with exactly as many steps, just when the
  run without a budget executes more instructions.
-/
theorem limits_only_cut_runs_short
    (exe : Executable)
    (input : String)
    {c c' : Config}
    (h : c.AtMost c') :
    (∀ rounds report,
      evaluate exe input c rounds = some report →
        (report.isCutShort = false →
          evaluate exe input c' rounds = some report) ∧
        (report.isCutShort = true →
          ∀ rounds' report',
            evaluate exe input c' rounds' = some report' →
              report.steps ≤ report'.steps ∧
                ∃ rest, report'.output = report.output ++ rest)) ∧
      (∀ rounds,
        evaluate exe input c rounds = none →
          evaluate exe input c' rounds = none) ∧
      ∀ b, c.budget = some b →
        (∀ m, Machine.Reachable exe c (Input.ofString input)
            Buffer.empty m → m.steps ≤ b) ∧
          (∀ rounds report,
            evaluate exe input c rounds = some report →
              report.steps ≤ b ∧
                ∀ b', report.ExhaustsBudget b' →
                  b' = b ∧ report.steps = b) ∧
          ((∃ rounds report,
              evaluate exe input c rounds = some report ∧
                report.ExhaustsBudget b ∧
                report.steps = b) ↔
            ExecutesMoreThan exe input c.withoutBudget b) := by
  have hEnter := Machine.prolongs_enter h
    (Machine.initial (Input.ofString input) Buffer.empty) exe none
    exe.entry [] none
  refine ⟨?_, ?_, ?_⟩
  · intro rounds report hReport
    rcases evaluate_eq_some_iff.mp hReport with ⟨result, m, hRun, rfl⟩
    have hBoth := hEnter.drive h hRun
    constructor
    · intro hWhole
      rcases hBoth with hSame | ⟨e, rfl, hLimit, _⟩
      · exact evaluate_eq_some_iff.mpr ⟨result, m, hSame, rfl⟩
      · rw [Report.isCutShort_ofOutcome, hLimit] at hWhole
        cases hWhole
    · intro _ rounds' report' hReport'
      rcases evaluate_eq_some_iff.mp hReport' with
        ⟨result', m', hRun', rfl⟩
      have hLonger : ∃ count, Machine.Extends count m m' := by
        rcases hBoth with hSame | ⟨e, _, _, hExtends⟩
        · cases Progress.drive_unique hSame hRun'
          exact ⟨0, .of_eq rfl rfl⟩
        · exact hExtends rounds' result' m' hRun'
      rcases hLonger with ⟨more, hMore⟩
      rcases Machine.exists_extends_of_runEntry hRun with
        ⟨count, hFirst⟩
      have hSteps := hMore.steps
      refine ⟨?_, hFirst.exists_text_append hMore⟩
      show m.steps ≤ m'.steps
      omega
  · intro rounds hNone
    rw [evaluate_eq_map_runEntry, Option.map_eq_none_iff] at hNone ⊢
    exact hEnter.drive_eq_none h hNone
  · intro b hBudget
    refine ⟨?_, ?_, ?_, ?_⟩
    · intro m hReachable
      exact Machine.steps_le_of_reachable hBudget hReachable
    · intro rounds report hReport
      refine ⟨steps_le_of_evaluate hBudget hReport, ?_⟩
      intro b' hExhausts
      rcases stopsForBudget_of_exhaustsBudget hBudget hReport hExhausts
        with ⟨hSame, hSteps, _⟩
      exact ⟨hSame, hSteps⟩
    · rintro ⟨rounds, report, hReport, hExhausts, _⟩
      rcases stopsForBudget_of_exhaustsBudget hBudget hReport hExhausts
        with ⟨_, _, hStops⟩
      exact hStops.executesMoreThan
    · intro hMore
      exact (Machine.stopsForBudget_of_executesMoreThan hBudget
        hMore).exists_report

/- A program that writes 0, 1, 2 and so on without an end. -/
def counting : Program :=
  { functions :=
      [{ name := "main"
         returns := .void
         params := []
         ints := [⟨"n", .int, none, 3⟩]
         floats := []
         code :=
           [⟨.call, [.function "puti", .var "n"], 4⟩,
            ⟨.add, [.var "n", .var "n", .int 1], 5⟩,
            ⟨.goto, [.label "next"], 6⟩]
         labels := [⟨"next", 0, 4⟩]
         line := 2 }] }

/- The executable of the program. -/
def countingExecutable : Executable :=
  { routines :=
      #[{ name := "main"
          returns := .void
          params := []
          slots := #[⟨"n", .scalar .int, false⟩]
          code :=
            #[⟨.call none (.intrinsic .puti)
                [.value (.place (.slot 0))], 4⟩,
              ⟨.arith .add (.slot 0) (.place (.slot 0)) (.int 1), 5⟩,
              ⟨.goto 0, 6⟩]
          labels := [("next", 0)] }]
    entry := 0 }

/-
  Seven steps write three numbers. With more steps they are
  followed by others, and there are more steps to take.
-/
theorem counting_is_cut_short :
    verify counting = .ok countingExecutable ∧
      Config.AtMost { budget := some 7 } { budget := some 12 } ∧
      ∃ report report',
        evaluate countingExecutable "" { budget := some 7 } 20 =
            some report ∧
          report.isCutShort = true ∧
          report.output = "012" ∧
          evaluate countingExecutable "" { budget := some 12 } 20 =
            some report' ∧
          report.steps ≤ report'.steps ∧
          (∃ rest, report'.output = "012" ++ rest) ∧
          ExecutesMoreThan countingExecutable ""
            (Config.withoutBudget { budget := some 7 }) 7 := by
  have hVerify : verify counting = .ok countingExecutable := by
    decide
  have hAtMost : Config.AtMost { budget := some 7 }
      { budget := some 12 } :=
    ⟨Nat.le_refl _, Nat.le_refl _, fun b' hb =>
      ⟨7, rfl, by cases hb; decide⟩⟩
  have hRun : (evaluate countingExecutable ""
      { budget := some 7 } 20).map
        (fun r => (r.output, r.steps, r.result)) =
      some ("012", 7,
        .error (.fault ⟨⟨"main", 5⟩, .budgetExhausted 7⟩)) := by
    decide +kernel
  have hRun' : (evaluate countingExecutable ""
      { budget := some 12 } 20).isSome = true := by
    decide +kernel
  rcases Option.map_eq_some_iff.mp hRun with ⟨report, hReport, hParts⟩
  rcases Option.isSome_iff_exists.mp hRun' with ⟨report', hReport'⟩
  rcases report with ⟨output, steps, result⟩
  cases hParts
  rcases limits_only_cut_runs_short countingExecutable "" hAtMost with
    ⟨hShort, _, hBudget⟩
  rcases (hShort 20 _ hReport).2 rfl 20 report' hReport' with
    ⟨hSteps, hOutput⟩
  rcases hBudget 7 rfl with ⟨_, _, hIff⟩
  exact ⟨hVerify, hAtMost, _, report', hReport, rfl, rfl, hReport',
    hSteps, hOutput, hIff.mp ⟨20, _, hReport, ⟨_, rfl⟩, rfl⟩⟩

end ThreeAddress
