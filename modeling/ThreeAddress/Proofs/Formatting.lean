import ThreeAddress.Machine.Run
import ThreeAddress.Proofs.RoundTrip
import ThreeAddress.Proofs.VerifiedLines

/-
  This file shows that formatting a program does not change
  what it means. The canonical text of a program is read as
  the same program up to lines, the verifier treats the two
  alike, and the machine uses the lines of steps for nothing
  but the sites of its faults, so that the runs of both go
  through the same machines.

  Key definitions include:
    * `Fault.eraseLine`, `RunError.eraseLine`
    * `Progress.eraseLine`
    * `Report.eraseLine`

  Main statements:
    * `Machine.step_eraseLines`
    * `Machine.drive_eraseLines`
    * `evaluate_eraseLines`
    * `formatting_preserves_meaning`
-/

namespace ThreeAddress

------------------------------------------------------------
-- Faults Up to Lines
------------------------------------------------------------

/- The site without its line. -/
def Site.eraseLine (s : Site) : Site :=
  { s with line := 0 }

/- The fault without the line of its site. -/
def Fault.eraseLine (e : Fault) : Fault :=
  { e with site := e.site.eraseLine }

/- The error without the line of its site. -/
def RunError.eraseLine : RunError → RunError
| .fault e => .fault e.eraseLine
| .alreadyRun => .alreadyRun

/- How the run goes on, without the line of a fault. -/
def Progress.eraseLine {ω : Type} : Progress ω → Progress ω
| .running m => .running m
| .finished m => .finished m
| .failed m e => .failed m e.eraseLine

/- The report without the line of its error. -/
def Report.eraseLine (r : Report) : Report :=
  { r with result := r.result.mapError RunError.eraseLine }

------------------------------------------------------------
-- Routines Without Lines
------------------------------------------------------------

namespace Executable

variable {exe : Executable}

theorem getElem?_eraseLines
    (exe : Executable)
    (index : Nat) :
    exe.eraseLines.routines[index]? =
      exe.routines[index]?.map Routine.eraseLines := by
  simp [eraseLines]

end Executable

namespace Routine

theorem getElem?_eraseLines
    (r : Routine)
    (pc : Nat) :
    r.eraseLines.code[pc]? = r.code[pc]?.map Step.eraseLine := by
  simp [eraseLines]

/- Without lines every position is on the same one. -/
theorem lineAt_eraseLines
    (r : Routine)
    (pc : Nat) :
    r.eraseLines.lineAt pc = 0 := by
  unfold lineAt
  rw [getElem?_eraseLines]
  cases r.code[pc]? with
  | some s => rfl
  | none =>
      have hBack : r.eraseLines.code.back? =
          r.code.back?.map Step.eraseLine := by
        simp [eraseLines, Array.back?]
      rw [Option.map_none, hBack]
      cases r.code.back? <;> rfl

end Routine

------------------------------------------------------------
-- Operands Without Lines
------------------------------------------------------------

namespace Context

variable (r : Routine) (f : Frame) (memory : Array Value)

theorem read_eraseLines
    (src : Source) :
    Context.read ⟨r.eraseLines, f, memory⟩ src =
      Context.read ⟨r, f, memory⟩ src := by
  rcases src with ⟨_ | _⟩ | _ | _ <;> rfl

theorem address_eraseLines
    (array : Nat)
    (index : Value) :
    Context.address ⟨r.eraseLines, f, memory⟩ array index =
      Context.address ⟨r, f, memory⟩ array index := by
  cases index <;> rfl

theorem target_eraseLines
    (p : Place)
    (v : Value) :
    Context.target ⟨r.eraseLines, f, memory⟩ p v =
      Context.target ⟨r, f, memory⟩ p v := by
  cases p <;> rfl

theorem storeTarget_eraseLines
    (array address : Nat)
    (v : Value) :
    Context.storeTarget ⟨r.eraseLines, f, memory⟩ array address v =
      Context.storeTarget ⟨r, f, memory⟩ array address v :=
  rfl

theorem argument_eraseLines :
    Context.argument ⟨r.eraseLines, f, memory⟩ =
      Context.argument ⟨r, f, memory⟩ := by
  funext arg
  cases arg with
  | value src =>
      simp only [argument, read_eraseLines]
  | array slot => rfl

end Context

------------------------------------------------------------
-- Steps Without Lines
------------------------------------------------------------

/- A call is admitted without regard to lines. -/
theorem admission_eraseLines
    (exe : Executable)
    (cfg : Config)
    (depth used : Nat)
    (caller : Option Site)
    (index : Nat) :
    admission exe.eraseLines cfg depth used
        (caller.map Site.eraseLine) index =
      Outcome.bimap Fault.eraseLine Routine.eraseLines
        (admission exe cfg depth used caller index) := by
  unfold admission
  rw [exe.getElem?_eraseLines]
  cases exe.routines[index]? with
  | none => cases caller <;> rfl
  | some r =>
      have hOwned : r.eraseLines.ownedCells = r.ownedCells := rfl
      simp only [Option.map_some, hOwned]
      by_cases hDepth : cfg.maxDepth ≤ depth
      · rw [if_pos hDepth, if_pos hDepth]
        cases caller <;> rfl
      · rw [if_neg hDepth, if_neg hDepth]
        by_cases hRoom : cfg.maxMemory < used + r.ownedCells
        · rw [if_pos hRoom, if_pos hRoom]
          cases caller <;> rfl
        · rw [if_neg hRoom, if_neg hRoom]
          rfl

namespace Machine

variable {ω : Type}

theorem assign_eraseLine
    (m : Machine ω)
    (site : Site)
    (result : Except FaultCause (Target × Value)) :
    m.assign site.eraseLine result =
      (m.assign site result).eraseLine := by
  cases result <;> rfl

theorem pop_eraseLines
    (m : Machine ω)
    (exe : Executable)
    (value : Option Value) :
    m.pop exe.eraseLines value = (m.pop exe value).eraseLine := by
  rcases m with ⟨_ | ⟨f, _ | ⟨g, gs⟩⟩, memory, input, output, steps⟩
  · rfl
  · rfl
  · simp only [pop]
    cases f.returnTo with
    | none => rfl
    | some p =>
        cases value with
        | none => rfl
        | some v =>
            simp only [exe.getElem?_eraseLines]
            cases exe.routines[g.routine]? with
            | none => rfl
            | some r =>
                simp only [Option.map_some, r.lineAt_eraseLines,
                  Context.target_eraseLines]
                exact assign_eraseLine _ ⟨r.name, r.lineAt g.pc⟩ _

theorem enter_eraseLines
    (m : Machine ω)
    (exe : Executable)
    (cfg : Config)
    (caller : Option Site)
    (index : Nat)
    (args : List Cell)
    (returnTo : Option Place) :
    m.enter exe.eraseLines cfg (caller.map Site.eraseLine) index
        args returnTo =
      (m.enter exe cfg caller index args returnTo).eraseLine := by
  unfold enter
  rw [admission_eraseLines]
  cases admission exe cfg m.depth m.memory.size caller index <;> rfl

variable [Sink ω]

theorem callIntrinsic_eraseLines
    (m : Machine ω)
    (r : Routine)
    (f : Frame)
    (site : Site)
    (dest : Option Place)
    (i : Intrinsic)
    (args : List Cell) :
    m.callIntrinsic r.eraseLines f site.eraseLine dest i args =
      (m.callIntrinsic r f site dest i args).eraseLine := by
  unfold callIntrinsic
  simp only [Context.target_eraseLines]
  split
  · rfl
  · split
    · exact assign_eraseLine _ _ _
    · rfl

/- An action is performed without regard to lines. -/
theorem perform_eraseLines
    (m : Machine ω)
    (exe : Executable)
    (cfg : Config)
    (r : Routine)
    (f : Frame)
    (site : Site)
    (action : Action) :
    m.perform exe.eraseLines cfg r.eraseLines f site.eraseLine
        action =
      (m.perform exe cfg r f site action).eraseLine := by
  cases action with
  | assign dest src =>
      simp only [perform, Context.copied, Context.read_eraseLines,
        Context.target_eraseLines]
      exact assign_eraseLine _ _ _
  | arith op dest lhs rhs =>
      simp only [perform, Context.computed, Context.read_eraseLines,
        Context.target_eraseLines]
      exact assign_eraseLine _ _ _
  | bit op dest lhs rhs =>
      simp only [perform, Context.computed, Context.read_eraseLines,
        Context.target_eraseLines]
      exact assign_eraseLine _ _ _
  | load dest array index =>
      have hFetch : Context.fetch ⟨r.eraseLines, f, m.memory⟩ =
          Context.fetch ⟨r, f, m.memory⟩ := rfl
      simp only [perform, Context.loaded, Context.read_eraseLines,
        Context.address_eraseLines, Context.target_eraseLines, hFetch]
      exact assign_eraseLine _ _ _
  | store value array index =>
      simp only [perform, Context.stored, Context.read_eraseLines,
        Context.address_eraseLines, Context.storeTarget_eraseLines]
      exact assign_eraseLine _ _ _
  | goto target => rfl
  | branch cond target lhs rhs =>
      simp only [perform, Context.condition, Context.read_eraseLines]
      split <;> rfl
  | ret value =>
      cases value with
      | none => exact m.pop_eraseLines exe none
      | some src =>
          simp only [perform, Context.read_eraseLines]
          split
          · rfl
          · exact m.pop_eraseLines exe _
  | call dest callee args =>
      simp only [perform, Context.arguments,
        Context.argument_eraseLines]
      split
      · rfl
      · cases callee with
        | routine index =>
            exact m.enter_eraseLines exe cfg (some site) index _ dest
        | intrinsic i => exact m.callIntrinsic_eraseLines r f site dest i _

/- A step is taken without regard to lines. -/
theorem step_eraseLines
    (m : Machine ω)
    (exe : Executable)
    (cfg : Config) :
    m.step exe.eraseLines cfg = (m.step exe cfg).eraseLine := by
  unfold step
  cases m.frames with
  | nil => rfl
  | cons f rest =>
      simp only [exe.getElem?_eraseLines]
      cases exe.routines[f.routine]? with
      | none => rfl
      | some r =>
          simp only [Option.map_some, r.getElem?_eraseLines]
          cases r.code[f.pc]? with
          | none => exact m.pop_eraseLines exe none
          | some s =>
              simp only [Option.map_some]
              cases m.outOfBudget cfg with
              | some budget => rfl
              | none =>
                  exact m.tick.perform_eraseLines exe cfg r f
                    ⟨r.name, s.line⟩ s.action

------------------------------------------------------------
-- Runs Without Lines
------------------------------------------------------------

/- Steps lead through the same machines, whatever the lines. -/
theorem drive_eraseLines
    (exe : Executable)
    (cfg : Config)
    (rounds : Nat)
    (m : Machine ω) :
    drive exe.eraseLines cfg rounds m =
      (drive exe cfg rounds m).map
        (Prod.map (Except.mapError Fault.eraseLine) id) := by
  induction rounds generalizing m with
  | zero => rfl
  | succ rounds ih =>
      rw [drive, drive, step_eraseLines]
      cases m.step exe cfg with
      | running m' => exact ih m'
      | finished m' => rfl
      | failed m' e => rfl

theorem runEntry_eraseLines
    (exe : Executable)
    (cfg : Config)
    (rounds : Nat)
    (m : Machine ω) :
    runEntry exe.eraseLines cfg rounds m =
      (runEntry exe cfg rounds m).map
        (Prod.map (Except.mapError Fault.eraseLine) id) := by
  have hEnter := m.enter_eraseLines exe cfg none exe.entry [] none
  rw [Option.map_none] at hEnter
  unfold runEntry
  rw [show exe.eraseLines.entry = exe.entry from rfl, hEnter]
  cases m.enter exe cfg none exe.entry [] none with
  | running m' => exact drive_eraseLines exe cfg rounds m'
  | finished m' => rfl
  | failed m' e => rfl

theorem flush_eraseLines
    (exe : Executable)
    (result : Except Fault Unit)
    (m : Machine ω) :
    flush exe.eraseLines (result.mapError Fault.eraseLine) m =
      Prod.map (Except.mapError Fault.eraseLine) id
        (flush exe result m) := by
  rcases m with ⟨frames, memory, input, output, steps⟩
  rcases hFlush : Sink.flush output with ⟨flushed, _ | reason⟩
  · simp only [flush, hFlush]
    cases result <;> rfl
  · cases result with
    | error e =>
        simp only [flush, hFlush]
        rfl
    | ok _ =>
        have hEntry := exe.getElem?_eraseLines exe.entry
        simp only [flush, hFlush, Except.mapError,
          show exe.eraseLines.entry = exe.entry from rfl, hEntry]
        cases exe.routines[exe.entry]? <;> rfl

end Machine

/- A run ends alike, whatever the lines. -/
theorem Run.start_eraseLines
    {ω : Type}
    [Sink ω]
    (run : Run ω)
    (exe : Executable)
    (cfg : Config)
    (rounds : Nat) :
    run.start exe.eraseLines cfg rounds =
      (run.start exe cfg rounds).map
        (Prod.map (Except.mapError RunError.eraseLine) id) := by
  rcases run with ⟨status, m⟩
  cases status with
  | running => rfl
  | halted => rfl
  | failed => rfl
  | ready =>
      simp only [start, Machine.runEntry_eraseLines]
      cases Machine.runEntry exe cfg rounds m with
      | none => rfl
      | some outcome =>
          rcases outcome with ⟨result, m'⟩
          simp only [Option.map_some, Prod.map, id,
            Machine.flush_eraseLines]
          cases (Machine.flush exe result m').1 <;> rfl

/- A run on a text is reported alike, whatever the lines. -/
theorem evaluate_eraseLines
    (exe : Executable)
    (input : String)
    (cfg : Config)
    (rounds : Nat) :
    evaluate exe.eraseLines input cfg rounds =
      (evaluate exe input cfg rounds).map Report.eraseLine := by
  simp only [evaluate, Run.start_eraseLines, Option.map_map]
  rfl

------------------------------------------------------------
-- Formatted Programs
------------------------------------------------------------

/-
  The canonical text of a program that was read from a text
  is read as a program again, and the verifier rejects both
  for the same reason up to lines, or accepts both with the
  same executable up to the lines of its steps. Then for
  every input and all limits, within any number of rounds, a
  run of one ends just when a run of the other does, with the
  same output, the same number of steps, and the same result
  up to the line of an error.
-/
theorem formatting_preserves_meaning
    {text : String}
    {p : Program}
    (hText : assemble text = .ok p) :
    ∃ q,
      assemble p.listing = .ok q ∧
        ((∃ e e',
            verify p = .error e ∧
              verify q = .error e' ∧
              e'.eraseLines = e.eraseLines) ∨
          ∃ exe exe',
            verify p = .ok exe ∧
              verify q = .ok exe' ∧
              exe'.eraseLines = exe.eraseLines ∧
              ∀ (input : String) (cfg : Config) (rounds : Nat),
                (evaluate exe' input cfg rounds).map
                    Report.eraseLine =
                  (evaluate exe input cfg rounds).map
                    Report.eraseLine) := by
  have hPrintable := Program.printable_of_assemble hText
  rcases Program.exists_assemble_listing hPrintable with
    ⟨q, hListing, hErase⟩
  have hBoth :
      Outcome.bimap Rejection.eraseLines Executable.eraseLines
          (verify q) =
        Outcome.bimap Rejection.eraseLines Executable.eraseLines
          (verify p) := by
    rw [← verify_eraseLines, ← verify_eraseLines, hErase]
  refine ⟨q, hListing, ?_⟩
  cases hp : verify p with
  | error e =>
      cases hq : verify q with
      | ok exe' =>
          rw [hp, hq] at hBoth
          cases hBoth
      | error e' =>
          rw [hp, hq] at hBoth
          exact .inl ⟨e, e', rfl, rfl, Except.error.inj hBoth⟩
  | ok exe =>
      cases hq : verify q with
      | error e' =>
          rw [hp, hq] at hBoth
          cases hBoth
      | ok exe' =>
          rw [hp, hq] at hBoth
          have hExe : exe'.eraseLines = exe.eraseLines :=
            Except.ok.inj hBoth
          refine .inr ⟨exe, exe', rfl, rfl, hExe, ?_⟩
          intro input cfg rounds
          rw [← evaluate_eraseLines, ← evaluate_eraseLines, hExe]

/- A text with blank lines that divides 12 by its input. -/
def dividingText : String :=
  "\n#start_function\nvoid main() :\nint-list: x\n\n" ++
    "  callr ,x, geti\n\n  div,x,12,x\ncall, puti , x\n" ++
    "#end_function\n"

/- The program of the text. -/
def dividing : Program :=
  { functions :=
      [{ name := "main"
         returns := .void
         params := []
         ints := [⟨"x", .int, none, 4⟩]
         floats := []
         code :=
           [⟨.callr, [.var "x", .function "geti"], 6⟩,
            ⟨.div, [.var "x", .int 12, .var "x"], 8⟩,
            ⟨.call, [.function "puti", .var "x"], 9⟩]
         labels := []
         line := 3 }] }

theorem dividing_formatted :
    assemble dividingText = .ok dividing ∧
      ∃ q exe exe',
        assemble dividing.listing = .ok q ∧
          verify dividing = .ok exe ∧
          verify q = .ok exe' ∧
          exe'.eraseLines = exe.eraseLines ∧
          ∀ (input : String) (cfg : Config) (rounds : Nat),
            (evaluate exe' input cfg rounds).map Report.eraseLine =
              (evaluate exe input cfg rounds).map
                Report.eraseLine := by
  have hRead : (assemble dividingText).toOption = some dividing := by
    decide +kernel
  have hText : assemble dividingText = .ok dividing := by
    cases hResult : assemble dividingText with
    | error e =>
        rw [hResult] at hRead
        cases hRead
    | ok p =>
        rw [hResult] at hRead
        cases hRead
        rfl
  have hOk : (verify dividing).isOk = true := by decide
  refine ⟨hText, ?_⟩
  rcases formatting_preserves_meaning hText with
    ⟨q, hListing, ⟨e, e', hError, _⟩ |
      ⟨exe, exe', hp, hq, hExe, hRuns⟩⟩
  · rw [hError] at hOk
    cases hOk
  · exact ⟨q, exe, exe', hListing, hp, hq, hExe, hRuns⟩

end ThreeAddress
