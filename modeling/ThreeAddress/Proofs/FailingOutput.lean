import ThreeAddress.Proofs.Emission
import ThreeAddress.Verification

/-
  This file compares a run whose output keeps everything with
  one whose output keeps no more than a number of bytes. The
  two go through the same machines, up to what their outputs
  keep, until a call writes beyond the limit. There the
  limited run fails, in the middle of what is written if the
  limit lies there, and nothing else is lost.

  Key definitions include:
    * `Buffer.limited`, `Buffer.take`
    * `Machine.truncate`, `Progress.truncate`
    * `Machine.PassesLimit`
    * `Writes`

  Main statements:
    * `Buffer.write_limited`
    * `Machine.truncate_step`
    * `Progress.truncate_drive`
    * `Machine.Reachable.truncate`
    * `failing_output_only_truncates`
-/

namespace ThreeAddress

------------------------------------------------------------
-- Limited Outputs
------------------------------------------------------------

namespace Buffer

/- The output that keeps the bytes of a buffer, up to a limit. -/
def limited (b : Buffer) (limit : Nat) (reason : String) : LimitedBuffer :=
  { bytes := b.bytes
    limit := some limit
    fullReason := reason
    flushReason := none }

/- The first bytes of a buffer. -/
def take (b : Buffer) (n : Nat) : Buffer :=
  ⟨b.bytes.extract 0 n⟩

variable {b : Buffer} {limit : Nat}

theorem extract_eq_self
    {bytes : ByteArray}
    (h : bytes.size ≤ limit) :
    bytes.extract 0 limit = bytes := by
  apply ByteArray.ext
  rw [ByteArray.data_extract]
  exact Array.extract_eq_self_of_le h

theorem take_of_size_le
    (h : b.bytes.size ≤ limit) :
    b.take limit = b := by
  rw [take, extract_eq_self h]

/- The first bytes stay the same when more are written. -/
theorem extract_append_of_le
    {bytes : ByteArray}
    (h : limit ≤ bytes.size)
    (more : ByteArray) :
    (bytes ++ more).extract 0 limit = bytes.extract 0 limit := by
  have hNone : more.extract (0 - bytes.size) (limit - bytes.size) =
      ByteArray.empty := by
    rw [ByteArray.extract_eq_empty_iff]
    omega
  rw [ByteArray.extract_append, hNone, ByteArray.append_empty]

/-
  Of what is written, a limited output keeps what is within
  the limit, and it fails if that is not all.
-/
theorem write_limited
    (h : b.bytes.size ≤ limit)
    (reason : String)
    (chunk : ByteArray) :
    Sink.write (b.limited limit reason) chunk =
      ((Buffer.take ⟨b.bytes ++ chunk⟩ limit).limited limit reason,
        if (b.bytes ++ chunk).size ≤ limit then none
        else some reason) := by
  have hWrite : Sink.write (b.limited limit reason) chunk =
      if chunk.size ≤ limit - b.bytes.size then
        (Buffer.limited ⟨b.bytes ++ chunk⟩ limit reason, none)
      else
        (Buffer.limited
          ⟨b.bytes ++ chunk.extract 0 (limit - b.bytes.size)⟩ limit
          reason, some reason) := rfl
  rw [hWrite, take]
  by_cases hFits : (b.bytes ++ chunk).size ≤ limit
  · have hRoom : chunk.size ≤ limit - b.bytes.size := by
      rw [ByteArray.size_append] at hFits
      omega
    rw [if_pos hRoom, if_pos hFits, extract_eq_self hFits]
  · have hRoom : ¬ chunk.size ≤ limit - b.bytes.size := by
      rw [ByteArray.size_append] at hFits
      omega
    rw [if_neg hRoom, if_neg hFits, ByteArray.extract_append,
      extract_eq_self h, Nat.zero_sub]

end Buffer

------------------------------------------------------------
-- Steps
------------------------------------------------------------

section Truncate

variable (limit : Nat) (reason : String)

/- The machine with the first bytes of its output. -/
def Machine.truncate (m : Machine Buffer) : Machine LimitedBuffer :=
  m.withOutput ((m.output.take limit).limited limit reason)

/- The progress with the first bytes of its output. -/
def Progress.truncate : Progress Buffer → Progress LimitedBuffer
| .running m => .running (m.truncate limit reason)
| .finished m => .finished (m.truncate limit reason)
| .failed m e => .failed (m.truncate limit reason) e

end Truncate

namespace Machine

variable {limit : Nat} {m : Machine Buffer}

/-
  A step with a limited output is the step, unless the step
  is a call that writes beyond the limit. Then the step is
  counted and fails, and what is within the limit is kept.
-/
theorem truncate_step
    (exe : Executable)
    (cfg : Config)
    (reason : String)
    (hFits : m.output.bytes.size ≤ limit) :
    ((m.step exe cfg).machine.output.bytes.size ≤ limit ∧
      (m.truncate limit reason).step exe cfg =
        (m.step exe cfg).truncate limit reason) ∨
      ∃ site next m',
        m.IsAtPut exe site ∧
          m.step exe cfg = .running next ∧
          limit < next.output.bytes.size ∧
          (m.truncate limit reason).step exe cfg =
            .failed m' ⟨site, .console (.write reason)⟩ ∧
          m'.output = (next.output.take limit).limited limit reason ∧
          m'.steps = next.steps := by
  rcases exists_emission_of_step (m.withOutput ()) exe cfg with
    ⟨e, hOnto, hKind⟩
  have hStep : m.step exe cfg = e.onto m.output := hOnto m.output
  have hLimited : (m.truncate limit reason).step exe cfg =
      e.onto ((m.output.take limit).limited limit reason) := hOnto _
  rw [hLimited, hStep]
  rcases hKind with ⟨p, rfl⟩ | ⟨site, chunk, hPut, rfl⟩
  · left
    cases p <;> exact ⟨hFits, rfl⟩
  · rw [Buffer.take_of_size_le hFits]
    have hWritten : Sink.write m.output chunk =
        (⟨m.output.bytes ++ chunk⟩, none) := rfl
    have hLimitedWrite := Buffer.write_limited hFits reason chunk
    rw [Emission.onto_of_written _ site hWritten]
    by_cases hRoom : (m.output.bytes ++ chunk).size ≤ limit
    · rw [if_pos hRoom] at hLimitedWrite
      rw [Emission.onto_of_written _ site hLimitedWrite]
      exact .inl ⟨hRoom, rfl⟩
    · rw [if_neg hRoom] at hLimitedWrite
      rw [Emission.onto_of_refused _ site hLimitedWrite]
      refine .inr ⟨site, _, _, hPut, rfl, Nat.lt_of_not_le hRoom, rfl,
        rfl, ?_⟩
      rcases m with ⟨_ | _, memory, input, output, steps⟩ <;> rfl

/- Nothing is written before the first step. -/
theorem output_enter_initial
    (exe : Executable)
    (cfg : Config)
    (input : Input) :
    ((Machine.initial input Buffer.empty).enter exe cfg none exe.entry []
      none).machine.output = Buffer.empty := by
  unfold enter
  split <;> rfl

/- The first frame is entered with any output. -/
theorem truncate_enter_initial
    (exe : Executable)
    (cfg : Config)
    (input : Input)
    (limit : Nat)
    (reason : String) :
    (Machine.initial input (Buffer.empty.limited limit reason)).enter exe
        cfg none exe.entry [] none =
      ((Machine.initial input Buffer.empty).enter exe cfg none exe.entry
        [] none).truncate limit reason := by
  have hTake : Buffer.empty.take limit = Buffer.empty :=
    Buffer.take_of_size_le (Nat.zero_le limit)
  have hEmpty := output_enter_initial exe cfg input
  refine (enter_withOutput (Machine.initial input Buffer.empty)
    (Buffer.empty.limited limit reason) exe cfg none exe.entry []
    none).trans ?_
  generalize (Machine.initial input Buffer.empty).enter exe cfg none
    exe.entry [] none = p at hEmpty ⊢
  cases p with
  | running m | finished m | failed m e =>
      have hOutput : m.output = Buffer.empty := hEmpty
      simp only [Progress.withOutput, Progress.truncate, truncate,
        hOutput, hTake]

/- What was written stays, and more may be written behind it. -/
theorem Extends.exists_append
    {count : Nat}
    {m' : Machine Buffer}
    (h : Extends count m m') :
    ∃ more, m'.output.bytes = m.output.bytes ++ more := by
  rcases h.output with ⟨text, hText⟩
  exact ⟨text.toUTF8, hText⟩

theorem Extends.size_le
    {count : Nat}
    {m' : Machine Buffer}
    (h : Extends count m m') :
    m.output.bytes.size ≤ m'.output.bytes.size := by
  rcases h.exists_append with ⟨more, hMore⟩
  rw [hMore, ByteArray.size_append]
  exact Nat.le_add_right _ _

end Machine

------------------------------------------------------------
-- Runs Within the Limit
------------------------------------------------------------

/-
  A run that ends within the limit ends in the same way with
  a limited output.
-/
theorem Progress.truncate_drive
    {exe : Executable}
    {cfg : Config}
    {limit rounds : Nat}
    {p : Progress Buffer}
    {result : Except Fault Unit}
    {m : Machine Buffer}
    (reason : String)
    (hDrive : p.drive exe cfg rounds = some (result, m))
    (hFits : m.output.bytes.size ≤ limit) :
    (p.truncate limit reason).drive exe cfg rounds =
      some (result, m.truncate limit reason) := by
  induction rounds generalizing p with
  | zero =>
      cases p with
      | running m₁ => cases hDrive
      | finished m₁ | failed m₁ e =>
          cases hDrive
          rfl
  | succ rounds ih =>
      cases p with
      | finished m₁ | failed m₁ e =>
          cases hDrive
          rfl
      | running m₁ =>
          have hRest : (m₁.step exe cfg).drive exe cfg rounds =
              some (result, m) := hDrive
          rcases Progress.exists_extends_of_drive hDrive with
            ⟨_, hBefore⟩
          rcases Progress.exists_extends_of_drive hRest with
            ⟨_, hAfter⟩
          have hFits₁ : m₁.output.bytes.size ≤ limit :=
            Nat.le_trans hBefore.size_le hFits
          rcases Machine.truncate_step exe cfg reason hFits₁ with
            ⟨_, hSame⟩ | ⟨site, next, m', _, hStep, hBeyond, _⟩
          · have hLimited := ih hRest
            rw [← hSame] at hLimited
            exact hLimited
          · -- What was written beyond the limit is still there at the end.
            rw [hStep] at hAfter
            exact absurd (Nat.le_trans hAfter.size_le hFits)
              (Nat.not_le_of_lt hBeyond)

------------------------------------------------------------
-- Runs Beyond the Limit
------------------------------------------------------------

namespace Machine

variable {exe : Executable} {cfg : Config} {input : Input}
variable {limit : Nat} {m : Machine Buffer}

/-
  The run comes to a call at a site that writes, and there
  its output passes a limit for the first time.
-/
structure PassesLimit
    (exe : Executable)
    (cfg : Config)
    (input : Input)
    (limit : Nat)
    (site : Site)
    (last next : Machine Buffer) : Prop where
  reachable : Reachable exe cfg input Buffer.empty last
  put : last.IsAtPut exe site
  step : last.step exe cfg = .running next
  within : last.output.bytes.size ≤ limit
  beyond : limit < next.output.bytes.size

/-
  What a run reaches, it reaches with a limited output too,
  or its output passes the limit on the way. Then the limited
  run comes to the same call, and that is where it fails.
-/
theorem Reachable.truncate
    (reason : String)
    (h : Reachable exe cfg input Buffer.empty m) :
    (m.output.bytes.size ≤ limit ∧
      Reachable exe cfg input (Buffer.empty.limited limit reason)
        (m.truncate limit reason)) ∨
      ∃ site last next m' count,
        PassesLimit exe cfg input limit site last next ∧
          Extends count next m ∧
          Reachable exe cfg input (Buffer.empty.limited limit reason)
            (last.truncate limit reason) ∧
          (last.truncate limit reason).step exe cfg =
            .failed m' ⟨site, .console (.write reason)⟩ ∧
          m'.output = (next.output.take limit).limited limit reason ∧
          m'.steps = next.steps := by
  induction h with
  | @start m₁ hEnter =>
      have hLimited :=
        truncate_enter_initial exe cfg input limit reason
      have hEmpty := output_enter_initial exe cfg input
      rw [hEnter] at hLimited hEmpty
      refine .inl ⟨?_, .start hLimited⟩
      rw [show m₁.output = Buffer.empty from hEmpty]
      exact Nat.zero_le limit
  | @step m₁ m₂ hBefore hStep ih =>
      rcases ih with ⟨hFits, hLimited⟩ |
        ⟨site, last, next, m', count, hPasses, hExtends, hRest⟩
      · rcases truncate_step exe cfg reason hFits with
          ⟨hFits', hSame⟩ |
            ⟨site, next, m', hPut, hNext, hBeyond, hFailed, hKept, hSteps⟩
        · rw [hStep] at hFits' hSame
          exact .inl ⟨hFits', hLimited.step hSame⟩
        · rw [hStep] at hNext
          cases hNext
          exact .inr ⟨site, m₁, m₂, m', 0,
            ⟨hBefore, hPut, hStep, hFits, hBeyond⟩, .of_eq rfl rfl,
            hLimited, hFailed, hKept, hSteps⟩
      · rcases exists_extends_of_step (m := m₁) exe cfg with
          ⟨more, hMore⟩
        rw [hStep] at hMore
        exact .inr ⟨site, last, next, m', count + more, hPasses,
          hExtends.trans hMore, hRest⟩

end Machine

------------------------------------------------------------
-- Whole Runs
------------------------------------------------------------

/-
  The run has written the bytes when it comes to some machine
  or when it ends.
-/
def Writes
    (exe : Executable)
    (cfg : Config)
    (input : Input)
    (bytes : ByteArray) : Prop :=
  (∃ m, Machine.Reachable exe cfg input Buffer.empty m ∧
      m.output.bytes = bytes) ∨
    ∃ rounds result run,
      (Run.initial input Buffer.empty).start exe cfg rounds =
          some (result, run) ∧
        run.machine.output.bytes = bytes

section Runs

variable {exe : Executable} {cfg : Config} {input : Input}
variable {limit rounds : Nat}

/- An output that can be flushed does not change the result. -/
theorem Run.start_of_runEntry
    {ω : Type}
    [Sink ω]
    {output : ω}
    {result : Except Fault Unit}
    {m : Machine ω}
    (hRun : Machine.runEntry exe cfg rounds
      (Machine.initial input output) = some (result, m))
    (hFlush : Sink.flush m.output = (m.output, none)) :
    (Run.initial input output).start exe cfg rounds =
      some (result.mapError .fault, ⟨statusOf result, m⟩) := by
  have hKept : Machine.flush exe result m = (result, m) := by
    rcases m with ⟨frames, memory, input, output, steps⟩
    dsimp only at hFlush
    simp only [Machine.flush, hFlush]
  simp only [Run.initial, Run.start, hRun, hKept]

theorem Run.exists_runEntry_of_start
    {result : Except RunError Unit}
    {run : Run Buffer}
    (h : (Run.initial input Buffer.empty).start exe cfg rounds =
      some (result, run)) :
    ∃ ended,
      Machine.runEntry exe cfg rounds
          (Machine.initial input Buffer.empty) =
        some (ended, run.machine) ∧
        ended.mapError .fault = result := by
  cases hRun : Machine.runEntry exe cfg rounds
    (Machine.initial input Buffer.empty) with
  | none =>
      simp only [Run.initial, Run.start, hRun] at h
      cases h
  | some outcome =>
      rcases outcome with ⟨ended, m⟩
      rw [Run.start_of_runEntry hRun rfl] at h
      cases h
      exact ⟨ended, rfl, rfl⟩

/- What passes a limit by the end of a run passes it before. -/
theorem Writes.exists_reachable
    {bytes : ByteArray}
    (h : Writes exe cfg input bytes)
    (hBeyond : limit < bytes.size) :
    ∃ m more,
      Machine.Reachable exe cfg input Buffer.empty m ∧
        limit < m.output.bytes.size ∧
        bytes = m.output.bytes ++ more := by
  rcases h with ⟨m, hReachable, rfl⟩ | ⟨rounds, result, run, hEnds, rfl⟩
  · exact ⟨m, ByteArray.empty, hReachable, hBeyond,
      ByteArray.append_empty.symm⟩
  · rcases Run.exists_runEntry_of_start hEnds with ⟨ended, hRun, _⟩
    rcases Machine.exists_last_of_runEntry hRun with
      ⟨e, _, hEnter⟩ | ⟨last, hReachable, hLast⟩
    · have hEmpty := Machine.output_enter_initial exe cfg input
      rw [hEnter] at hEmpty
      rw [show run.machine.output = Buffer.empty from hEmpty] at hBeyond
      exact absurd hBeyond (Nat.not_lt_zero limit)
    · have hNotRunning : ∀ next, last.step exe cfg ≠ .running next := by
        intro next hStep
        rw [hStep] at hLast
        rcases hLast with ⟨_, hEnd⟩ | ⟨_, _, hEnd⟩ <;> cases hEnd
      have hMachine : (last.step exe cfg).machine = run.machine := by
        rcases hLast with ⟨_, hEnd⟩ | ⟨_, _, hEnd⟩ <;> rw [hEnd] <;> rfl
      by_cases hFits : last.output.bytes.size ≤ limit
      · exfalso
        rcases Machine.truncate_step exe cfg "" hFits with
          ⟨hFits', _⟩ | ⟨_, next, _, _, hStep, _⟩
        · rw [hMachine] at hFits'
          exact absurd hFits' (Nat.not_le_of_lt hBeyond)
        · exact hNotRunning next hStep
      · rcases Machine.exists_extends_of_step (m := last) exe cfg with
          ⟨_, hExtends⟩
        rw [hMachine] at hExtends
        rcases hExtends.exists_append with ⟨more, hMore⟩
        exact ⟨last, more, hReachable, Nat.lt_of_not_le hFits, hMore⟩

end Runs

/-
  An output that fails only truncates. Let an output keep the
  bytes that it is handed up to a limit, and fail on those
  beyond it. A run that ends with no more than the limit ends
  in the same way with it, after the same steps and with the
  same bytes. And when what a run writes passes the limit at
  any time, the limited run ends with the failure to write,
  with exactly the first bytes up to the limit, at the call
  where the limit is first passed, which is its last step.
-/
theorem failing_output_only_truncates
    (exe : Executable)
    (cfg : Config)
    (input : Input)
    (limit : Nat)
    (reason : String) :
    (∀ rounds result run,
      (Run.initial input Buffer.empty).start exe cfg rounds =
          some (result, run) →
        run.machine.output.bytes.size ≤ limit →
          ∃ run',
            (Run.initial input
                (Buffer.empty.limited limit reason)).start exe cfg
                rounds = some (result, run') ∧
              run'.machine.output.bytes = run.machine.output.bytes ∧
              run'.machine.steps = run.machine.steps) ∧
      ∀ bytes, Writes exe cfg input bytes → limit < bytes.size →
        ∃ rounds site run' last next,
          (Run.initial input
              (Buffer.empty.limited limit reason)).start exe cfg
              rounds =
              some (.error (.fault ⟨site, .console (.write reason)⟩),
                run') ∧
            run'.machine.output.bytes = bytes.extract 0 limit ∧
            Machine.PassesLimit exe cfg input limit site last next ∧
            run'.machine.steps = next.steps := by
  constructor
  · intro rounds result run hEnds hFits
    rcases Run.exists_runEntry_of_start hEnds with ⟨ended, hRun, rfl⟩
    have hLimited := Progress.truncate_drive reason hRun hFits
    rw [← Machine.truncate_enter_initial] at hLimited
    have hBytes : (run.machine.truncate limit reason).output.bytes =
        run.machine.output.bytes := by
      show run.machine.output.bytes.extract 0 limit = _
      exact Buffer.extract_eq_self hFits
    exact ⟨_, Run.start_of_runEntry hLimited rfl, hBytes, rfl⟩
  · intro bytes hWrites hBeyond
    rcases hWrites.exists_reachable hBeyond with
      ⟨m, more, hReachable, hPassed, rfl⟩
    rcases hReachable.truncate reason with ⟨hFits, _⟩ |
      ⟨site, last, next, m', _, hPasses, hExtends, hLast, hFailed,
        hKept, hSteps⟩
    · exact absurd hFits (Nat.not_le_of_lt hPassed)
    · rcases hLast.exists_rounds with ⟨before, hRounds⟩
      have hRun := hRounds 1
      rw [Machine.drive, hFailed] at hRun
      have hFlush : Sink.flush m'.output = (m'.output, none) := by
        rw [hKept]
        rfl
      refine ⟨before + 1, site, _, last, next,
        Run.start_of_runEntry hRun hFlush, ?_, hPasses, hSteps⟩
      -- All that was written begins with what the call has written.
      rcases hExtends.exists_append with ⟨rest, hRest⟩
      have hNext : limit ≤ next.output.bytes.size :=
        Nat.le_of_lt hPasses.beyond
      calc m'.output.bytes
          = next.output.bytes.extract 0 limit := by
            rw [hKept]
            rfl
        _ = m.output.bytes.extract 0 limit := by
            rw [hRest, Buffer.extract_append_of_le hNext]
        _ = (m.output.bytes ++ more).extract 0 limit := by
            rw [Buffer.extract_append_of_le (Nat.le_of_lt hPassed)]

/- A program that writes a letter of two bytes between numbers. -/
def spelling : Program :=
  { functions :=
      [{ name := "main"
         returns := .void
         params := []
         ints := []
         floats := []
         code :=
           [⟨.call, [.function "puti", .int 7], 3⟩,
            ⟨.call, [.function "putc", .int 233], 4⟩,
            ⟨.call, [.function "puti", .int 8], 5⟩]
         labels := []
         line := 2 }] }

/- The executable of the program. -/
def spellingExecutable : Executable :=
  { routines :=
      #[{ name := "main"
          returns := .void
          params := []
          slots := #[]
          code :=
            #[⟨.call none (.intrinsic .puti) [.value (.int 7)], 3⟩,
              ⟨.call none (.intrinsic .putc) [.value (.int 233)], 4⟩,
              ⟨.call none (.intrinsic .puti) [.value (.int 8)], 5⟩]
          labels := [] }]
    entry := 0 }

/-
  The letter is cut in half by a limit of two bytes, and with
  a limit of four the run is not affected.
-/
theorem spelling_is_truncated :
    verify spelling = .ok spellingExecutable ∧
      ∃ run,
        (Run.initial (Input.ofString "") Buffer.empty).start
            spellingExecutable {} 5 = some (.ok (), run) ∧
          run.machine.output.bytes.data.toList = [55, 195, 169, 56] ∧
          (∃ run',
            (Run.initial (Input.ofString "")
                (Buffer.empty.limited 4 "full")).start
                spellingExecutable {} 5 = some (.ok (), run') ∧
              run'.machine.output.bytes.data.toList = [55, 195, 169, 56] ∧
              run'.machine.steps = 3) ∧
          ∃ rounds site run' last next,
            (Run.initial (Input.ofString "")
                (Buffer.empty.limited 2 "full")).start
                spellingExecutable {} rounds =
                some (.error
                  (.fault ⟨site, .console (.write "full")⟩), run') ∧
              run'.machine.output.bytes.data.toList = [55, 195] ∧
              Machine.PassesLimit spellingExecutable {}
                (Input.ofString "") 2 site last next ∧
              run'.machine.steps = next.steps := by
  have hVerify : verify spelling = .ok spellingExecutable := by
    decide
  have hEnds : ((Run.initial (Input.ofString "") Buffer.empty).start
      spellingExecutable {} 5).map
        (fun ended => (ended.1, ended.2.machine.output.bytes.data.toList,
          (ended.2.machine.output.bytes.extract 0 2).data.toList,
          ended.2.machine.steps)) =
      some (.ok (), [55, 195, 169, 56], [55, 195], 3) := by
    decide +kernel
  rcases Option.map_eq_some_iff.mp hEnds with
    ⟨⟨result, run⟩, hRun, hParts⟩
  simp only [Prod.mk.injEq] at hParts
  rcases hParts with ⟨rfl, hBytes, hFirst, hSteps⟩
  have hSize : run.machine.output.bytes.size = 4 := by
    have hLength := congrArg List.length hBytes
    rwa [Array.length_toList] at hLength
  rcases failing_output_only_truncates spellingExecutable {}
    (Input.ofString "") 4 "full" with ⟨hWithin, _⟩
  rcases failing_output_only_truncates spellingExecutable {}
    (Input.ofString "") 2 "full" with ⟨_, hBeyond⟩
  refine ⟨hVerify, run, hRun, hBytes, ?_, ?_⟩
  · rcases hWithin 5 _ run hRun (by omega) with
      ⟨run', hRun', hSame, hSteps'⟩
    exact ⟨run', hRun', by rw [hSame, hBytes], by rw [hSteps', hSteps]⟩
  · rcases hBeyond _ (.inr ⟨5, _, run, hRun, rfl⟩) (by omega) with
      ⟨rounds, site, run', last, next, hRun', hKept, hPasses, hSteps'⟩
    exact ⟨rounds, site, run', last, next, hRun', by rw [hKept, hFirst],
      hPasses, hSteps'⟩

end ThreeAddress
