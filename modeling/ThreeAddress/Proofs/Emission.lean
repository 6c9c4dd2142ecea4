import ThreeAddress.Proofs.RunReport

/-
  This file separates what a step does from where its output
  goes. A step never looks at the output: it leaves it alone,
  or it hands it one chunk of bytes and goes on behind its
  call, or fails if the chunk is not taken. So machines that
  differ in their outputs only take the same steps for as
  long as each of the outputs takes what it is handed.

  Key definitions include:
    * `Machine.withOutput`, `Progress.withOutput`
    * `Machine.IsAtPut`
    * `Emission`, `Emission.onto`

  Main statements:
    * `Machine.exists_emission_of_perform`
    * `Machine.exists_emission_of_step`
    * `Machine.steps_perform`
-/

namespace ThreeAddress

------------------------------------------------------------
-- Machines That Differ in Their Outputs
------------------------------------------------------------

/- The machine with another output. -/
def Machine.withOutput
    {ω ω' : Type}
    (m : Machine ω)
    (output : ω') : Machine ω' :=
  ⟨m.frames, m.memory, m.input, output, m.steps⟩

/- The progress of a machine with another output. -/
def Progress.withOutput
    {ω ω' : Type}
    (p : Progress ω)
    (output : ω') : Progress ω' :=
  match p with
  | .running m => .running (m.withOutput output)
  | .finished m => .finished (m.withOutput output)
  | .failed m e => .failed (m.withOutput output) e

/- The intrinsic function writes its argument. -/
def Intrinsic.isPut : Intrinsic → Bool
| .puti => true
| .putf => true
| .putc => true
| _ => false

/- The next step of the machine is to write, at a site. -/
def Machine.IsAtPut
    {ω : Type}
    (exe : Executable)
    (m : Machine ω)
    (site : Site) : Prop :=
  ∃ f rest r dest i args line,
    m.frames = f :: rest ∧
      exe.routines[f.routine]? = some r ∧
      r.code[f.pc]? = some ⟨.call dest (.intrinsic i) args, line⟩ ∧
      i.isPut = true ∧
      site = ⟨r.name, line⟩

/-
  What a step does, whatever the output: it leaves the output
  alone, or it is a call at a site that writes a chunk.
-/
inductive Emission where
| silent (p : Progress Unit)
| writes (m : Machine Unit) (site : Site) (chunk : ByteArray)

/- The step with an output. -/
def Emission.onto
    {ω : Type}
    [Sink ω]
    (output : ω) : Emission → Progress ω
| .silent p => p.withOutput output
| .writes m site chunk =>
    match Sink.write output chunk with
    | (output, none) => .running (m.withOutput output).advance
    | (output, some reason) =>
        .failed (m.withOutput output) ⟨site, .console (.write reason)⟩

------------------------------------------------------------
-- Parts of Steps That Leave the Output Alone
------------------------------------------------------------

namespace Machine

section Silent

variable {ω ω' : Type}

theorem advance_withOutput
    (m : Machine ω)
    (output : ω') :
    (m.withOutput output).advance = m.advance.withOutput output := by
  rcases m with ⟨_ | _, memory, input, old, steps⟩ <;> rfl

theorem jump_withOutput
    (m : Machine ω)
    (output : ω')
    (pc : Nat) :
    (m.withOutput output).jump pc = (m.jump pc).withOutput output := by
  rcases m with ⟨_ | _, memory, input, old, steps⟩ <;> rfl

theorem assign_withOutput
    (m : Machine ω)
    (output : ω')
    (site : Site)
    (result : Except FaultCause (Target × Value)) :
    (m.withOutput output).assign site result =
      (m.assign site result).withOutput output := by
  rcases result with cause | ⟨t, v⟩
  · rfl
  · rcases m with ⟨_ | _, memory, input, old, steps⟩ <;>
      cases t <;> rfl

theorem pop_withOutput
    (m : Machine ω)
    (output : ω')
    (exe : Executable)
    (value : Option Value) :
    (m.withOutput output).pop exe value =
      (m.pop exe value).withOutput output := by
  rcases m with ⟨_ | ⟨f, _ | ⟨g, gs⟩⟩, memory, input, old, steps⟩
  · rfl
  · rfl
  · simp only [withOutput, pop]
    split
    · split
      · rfl
      · exact assign_withOutput
          ⟨g :: gs, memory.shrink f.mark, input, old, steps⟩ output _ _
    · rfl

theorem enter_withOutput
    (m : Machine ω)
    (output : ω')
    (exe : Executable)
    (cfg : Config)
    (caller : Option Site)
    (index : Nat)
    (args : List Cell)
    (dest : Option Place) :
    (m.withOutput output).enter exe cfg caller index args dest =
      (m.enter exe cfg caller index args dest).withOutput output := by
  have hDepth : (m.withOutput output).depth = m.depth := rfl
  have hMemory : (m.withOutput output).memory = m.memory := rfl
  simp only [enter, hDepth, hMemory]
  cases admission exe cfg m.depth m.memory.size caller index <;> rfl

theorem readInput_withOutput
    {α : Type}
    (m : Machine ω)
    (output : ω')
    (read : Input → Except ConsoleError α × Input)
    (value : α → Value) :
    (m.withOutput output).readInput read value =
      ((m.readInput read value).1,
        (m.readInput read value).2.withOutput output) := by
  rcases m with ⟨frames, memory, input, old, steps⟩
  simp only [withOutput, readInput]
  cases (read input).1 <;> rfl

/- What a call does with the value of its intrinsic function. -/
def settle
    (r : Routine)
    (f : Frame)
    (site : Site)
    (dest : Option Place)
    (given : Except FaultCause (Option Value) × Machine ω) :
    Progress ω :=
  match given with
  | (.error cause, m) => .failed m ⟨site, cause⟩
  | (.ok value, m) =>
      match dest, value with
      | some p, some v =>
          m.assign site (Context.target ⟨r, f, m.memory⟩ p v)
      | _, _ => .running m.advance

theorem settle_withOutput
    (m : Machine ω)
    (output : ω')
    (r : Routine)
    (f : Frame)
    (site : Site)
    (dest : Option Place)
    (result : Except FaultCause (Option Value)) :
    settle r f site dest (result, m.withOutput output) =
      (settle r f site dest (result, m)).withOutput output := by
  rcases result with cause | value
  · rfl
  · simp only [settle]
    split
    · exact assign_withOutput m output _ _
    · exact congrArg Progress.running (advance_withOutput m output)

end Silent

end Machine

------------------------------------------------------------
-- Written Chunks
------------------------------------------------------------

namespace Emission

variable {ω : Type} [Sink ω]
variable {output written : ω} {chunk : ByteArray}

theorem onto_of_written
    (m : Machine Unit)
    (site : Site)
    (h : Sink.write output chunk = (written, none)) :
    (Emission.writes m site chunk).onto output =
      .running (m.advance.withOutput written) := by
  rw [onto, h]
  exact congrArg Progress.running (Machine.advance_withOutput m written)

theorem onto_of_refused
    {reason : String}
    (m : Machine Unit)
    (site : Site)
    (h : Sink.write output chunk = (written, some reason)) :
    (Emission.writes m site chunk).onto output =
      .failed (m.withOutput written)
        ⟨site, .console (.write reason)⟩ := by
  rw [onto, h]

end Emission

------------------------------------------------------------
-- Steps
------------------------------------------------------------

namespace Machine

variable (m : Machine Unit)

/-
  An intrinsic function leaves the output alone, or it writes
  a chunk to it.
-/
theorem intrinsic_withOutput
    (i : Intrinsic)
    (arg : Option Value) :
    (∃ given : Except FaultCause (Option Value) × Machine Unit,
      ∀ {ω : Type} [Sink ω] (output : ω),
        (m.withOutput output).intrinsic i arg =
          (given.1, given.2.withOutput output)) ∨
      ∃ chunk,
        i.isPut = true ∧
          ∀ {ω : Type} [Sink ω] (output : ω),
            (m.withOutput output).intrinsic i arg =
              (m.withOutput output).writeOutput chunk := by
  unfold intrinsic
  split
  · exact .inl ⟨_, fun output => readInput_withOutput m output _ _⟩
  · exact .inl ⟨_, fun output => readInput_withOutput m output _ _⟩
  · exact .inl ⟨_, fun output => readInput_withOutput m output _ _⟩
  · exact .inr ⟨_, rfl, fun _ => rfl⟩
  · exact .inr ⟨_, rfl, fun _ => rfl⟩
  · next code =>
      cases charOfCode? code with
      | some c => exact .inr ⟨_, rfl, fun _ => rfl⟩
      | none => exact .inl ⟨(_, m), fun _ => rfl⟩
  · exact .inl ⟨(_, m), fun _ => rfl⟩

/- A call that writes gives no value, so nothing is stored. -/
theorem settle_writeOutput
    {ω : Type}
    [Sink ω]
    (output : ω)
    (r : Routine)
    (f : Frame)
    (site : Site)
    (dest : Option Place)
    (chunk : ByteArray) :
    settle r f site dest ((m.withOutput output).writeOutput chunk) =
      (Emission.writes m site chunk).onto output := by
  simp only [withOutput, writeOutput, Emission.onto]
  rcases Sink.write output chunk with ⟨written, _ | reason⟩
  · cases dest <;> rfl
  · rfl

/-
  What an action does, whatever the output. Only the call of
  a function that writes is not silent.
-/
theorem exists_emission_of_perform
    (exe : Executable)
    (cfg : Config)
    (r : Routine)
    (f : Frame)
    (site : Site)
    (action : Action) :
    ∃ e : Emission,
      (∀ {ω : Type} [Sink ω] (output : ω),
        (m.withOutput output).perform exe cfg r f site action =
          e.onto output) ∧
        ((∃ p, e = .silent p) ∨
          ∃ dest i args chunk,
            action = .call dest (.intrinsic i) args ∧
              i.isPut = true ∧
              e = .writes m site chunk) := by
  have hMemory : ∀ {ω : Type} (output : ω),
      (m.withOutput output).memory = m.memory := fun _ => rfl
  cases action with
  | assign | arith | bit | load | store =>
      simp only [perform, hMemory]
      exact ⟨.silent (m.assign site _),
        fun output => assign_withOutput m output site _,
        .inl ⟨_, rfl⟩⟩
  | goto target =>
      exact ⟨.silent (.running (m.jump target)),
        fun output => congrArg Progress.running
          (jump_withOutput m output target), .inl ⟨_, rfl⟩⟩
  | branch cond target lhs rhs =>
      simp only [perform, hMemory]
      cases Context.condition ⟨r, f, m.memory⟩ cond lhs rhs with
      | error cause =>
          exact ⟨.silent (.failed m ⟨site, cause⟩), fun _ => rfl,
            .inl ⟨_, rfl⟩⟩
      | ok holds =>
          cases holds with
          | true =>
              exact ⟨.silent (.running (m.jump target)),
                fun output => congrArg Progress.running
                  (jump_withOutput m output target), .inl ⟨_, rfl⟩⟩
          | false =>
              exact ⟨.silent (.running m.advance),
                fun output => congrArg Progress.running
                  (advance_withOutput m output), .inl ⟨_, rfl⟩⟩
  | ret value =>
      cases value with
      | none =>
          exact ⟨.silent (m.pop exe none),
            fun output => pop_withOutput m output exe none,
            .inl ⟨_, rfl⟩⟩
      | some src =>
          simp only [perform, hMemory]
          cases Context.read ⟨r, f, m.memory⟩ src with
          | error cause =>
              exact ⟨.silent (.failed m ⟨site, cause⟩), fun _ => rfl,
                .inl ⟨_, rfl⟩⟩
          | ok v =>
              exact ⟨.silent (m.pop exe (some v)),
                fun output => pop_withOutput m output exe (some v),
                .inl ⟨_, rfl⟩⟩
  | call dest callee args =>
      simp only [perform, hMemory]
      cases Context.arguments ⟨r, f, m.memory⟩ args with
      | error cause =>
          exact ⟨.silent (.failed m ⟨site, cause⟩), fun _ => rfl,
            .inl ⟨_, rfl⟩⟩
      | ok cells =>
          cases callee with
          | routine index =>
              exact ⟨.silent
                (m.enter exe cfg (some site) index cells dest),
                fun output => enter_withOutput m output exe cfg _ _ _ _,
                .inl ⟨_, rfl⟩⟩
          | intrinsic i =>
              rcases intrinsic_withOutput m i (firstValue cells) with
                ⟨given, hSilent⟩ | ⟨chunk, hPut, hWrites⟩
              · refine ⟨.silent (settle r f site dest given), ?_,
                  .inl ⟨_, rfl⟩⟩
                intro ω _ output
                refine (congrArg (settle r f site dest)
                  (hSilent output)).trans ?_
                exact settle_withOutput given.2 output r f site dest _
              · refine ⟨.writes m site chunk, ?_,
                  .inr ⟨dest, i, args, chunk, rfl, hPut, rfl⟩⟩
                intro ω _ output
                refine (congrArg (settle r f site dest)
                  (hWrites output)).trans ?_
                exact settle_writeOutput m output r f site dest chunk

/-
  What a step does, whatever the output: it leaves the output
  alone, or it is a call that writes, and is counted.
-/
theorem exists_emission_of_step
    (exe : Executable)
    (cfg : Config) :
    ∃ e : Emission,
      (∀ {ω : Type} [Sink ω] (output : ω),
        (m.withOutput output).step exe cfg = e.onto output) ∧
        ((∃ p, e = .silent p) ∨
          ∃ site chunk,
            m.IsAtPut exe site ∧ e = .writes m.tick site chunk) := by
  have hKept : ∀ {ω : Type} (output : ω),
      (m.withOutput output).frames = m.frames := fun _ => rfl
  cases hFrames : m.frames with
  | nil =>
      simp only [step, hKept, hFrames]
      exact ⟨.silent (.finished m), fun _ => rfl, .inl ⟨_, rfl⟩⟩
  | cons f rest =>
      cases hRoutine : exe.routines[f.routine]? with
      | none =>
          simp only [step, hKept, hFrames, hRoutine]
          exact ⟨.silent (.failed m ⟨Site.none, .dangling⟩),
            fun _ => rfl, .inl ⟨_, rfl⟩⟩
      | some r =>
          cases hCode : r.code[f.pc]? with
          | none =>
              simp only [step, hKept, hFrames, hRoutine, hCode]
              exact ⟨.silent (m.pop exe none),
                fun output => pop_withOutput m output exe none,
                .inl ⟨_, rfl⟩⟩
          | some st =>
              have hBudget : ∀ {ω : Type} (output : ω),
                  (m.withOutput output).outOfBudget cfg =
                    m.outOfBudget cfg := fun _ => rfl
              simp only [step, hKept, hFrames, hRoutine, hCode, hBudget]
              cases m.outOfBudget cfg with
              | some budget =>
                  exact ⟨.silent (.failed m
                    ⟨⟨r.name, st.line⟩, .budgetExhausted budget⟩),
                    fun _ => rfl, .inl ⟨_, rfl⟩⟩
              | none =>
                  rcases exists_emission_of_perform m.tick exe cfg r f
                    ⟨r.name, st.line⟩ st.action with
                    ⟨e, hOnto, hSilent | ⟨dest, i, args, chunk,
                      hAction, hPut, hEmission⟩⟩
                  · exact ⟨e, fun output => hOnto output, .inl hSilent⟩
                  · rcases st with ⟨action, line⟩
                    cases hAction
                    exact ⟨e, fun output => hOnto output,
                      .inr ⟨_, chunk, ⟨f, rest, r, dest, i, args, line,
                        hFrames, hRoutine, hCode, hPut, rfl⟩,
                        hEmission⟩⟩

/- An action is counted before it is performed, with any output. -/
theorem steps_perform
    {ω : Type}
    [Sink ω]
    (m : Machine ω)
    (exe : Executable)
    (cfg : Config)
    (r : Routine)
    (f : Frame)
    (site : Site)
    (action : Action) :
    (m.perform exe cfg r f site action).machine.steps = m.steps := by
  rcases exists_emission_of_perform (m.withOutput ()) exe cfg r f site
    action with ⟨e, hOnto, hKind⟩
  have hHere : m.perform exe cfg r f site action = e.onto m.output :=
    hOnto m.output
  -- A silent action does the same with a buffer for its output.
  have hBuffer := (extends_perform (m.withOutput Buffer.empty) exe cfg
    r f site action).steps
  rw [show (m.withOutput Buffer.empty).perform exe cfg r f site action =
    e.onto Buffer.empty from hOnto Buffer.empty] at hBuffer
  rw [hHere]
  rcases hKind with ⟨p, rfl⟩ | ⟨_, _, _, chunk, _, _, rfl⟩
  · cases p <;> exact hBuffer
  · simp only [Emission.onto]
    rcases Sink.write m.output chunk with ⟨written, _ | reason⟩
    · rcases m with ⟨_ | _, memory, input, output, steps⟩ <;> rfl
    · rfl

end Machine

end ThreeAddress
