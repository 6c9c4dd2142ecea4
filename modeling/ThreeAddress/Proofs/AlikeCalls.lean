import ThreeAddress.Proofs.Relocation

/-
  This file compares two machines inside calls of the same
  routine, made from different places. The frames that the
  calls have pushed differ only in where their arrays lie,
  and every step that does not end the calls keeps them so,
  unless one call is stopped from outside.

  Key definitions include:
    * `FaultCause.isFromOutside`
    * `Input.SameRest`
    * `Relocation.Frames`, `Relocation.Alike`
    * `CallStatus`, `Machine.follow`

  Main statements:
    * `Relocation.Alike.step`
    * `Relocation.Alike.follow`
-/

namespace ThreeAddress

/-
  The causes that lie outside of a call: the limits on calls
  and on memory, of which the frames below it use up a part,
  and an output that refuses to be written to.
-/
def FaultCause.isFromOutside : FaultCause → Bool
| .stackOverflow _ => true
| .memoryExhausted _ _ => true
| .console (.write _) => true
| _ => false

/- The output behind some writes. -/
def Sink.emit
    {ω : Type}
    [Sink ω]
    (output : ω)
    (chunks : List ByteArray) : ω :=
  chunks.foldl (fun output chunk => (Sink.write output chunk).1) output

------------------------------------------------------------
-- What Is Left to Read
------------------------------------------------------------

namespace Input

/-
  The same is left to read, whether or not the next line of
  it has been fetched yet.
-/
def SameRest (i j : Input) : Prop :=
  i.fill = j.fill

namespace SameRest

variable {i j : Input}

theorem skipBlanks_eq
    (h : SameRest i j) :
    i.skipBlanks = j.skipBlanks := by
  rw [skipBlanks.eq_def, skipBlanks.eq_def, show i.fill = j.fill from h]

theorem readToken_eq
    {α : Type}
    (h : SameRest i j)
    (expected : String)
    (parse : String → Option α) :
    readToken expected parse i = readToken expected parse j := by
  simp only [readToken, nextToken, h.skipBlanks_eq]

theorem readChar_eq
    (h : SameRest i j) :
    readChar i = readChar j := by
  simp only [readChar, nextChar, show i.fill = j.fill from h]

end SameRest

end Input

------------------------------------------------------------
-- Stops from Outside
------------------------------------------------------------

/- A routine that exists is refused only from outside. -/
theorem admission_of_routine
    {exe : Executable}
    {index : Nat}
    {q : Routine}
    (cfg : Config)
    (depth used : Nat)
    (caller : Option Site)
    (h : exe.routines[index]? = some q) :
    admission exe cfg depth used caller index = .ok q ∨
      ∃ e,
        admission exe cfg depth used caller index = .error e ∧
          e.cause.isFromOutside = true := by
  unfold admission
  simp only [h]
  split
  · exact .inr ⟨_, rfl, rfl⟩
  · split
    · exact .inr ⟨_, rfl, rfl⟩
    · exact .inl rfl

namespace Relocation

variable {ρ : Relocation}

------------------------------------------------------------
-- Frames
------------------------------------------------------------

/- The frames are at the same position, with the same cells. -/
structure Frame
    (ρ : Relocation)
    (f f' : ThreeAddress.Frame) : Prop where
  routine : f.routine = f'.routine
  pc : f.pc = f'.pc
  cells : ρ.Cells f.cells f'.cells

/-
  The frames of two calls in progress, over the frames below
  them. All but the two callees hand over to like frames.
-/
inductive Frames
    (ρ : Relocation)
    (below below' : List ThreeAddress.Frame) :
    List ThreeAddress.Frame → List ThreeAddress.Frame → Prop where
| callee
    {f f' : ThreeAddress.Frame}
    (frame : ρ.Frame f f') :
    Frames ρ below below' (f :: below) (f' :: below')
| nested
    {f f' : ThreeAddress.Frame}
    {frames frames' : List ThreeAddress.Frame}
    (frame : ρ.Frame f f')
    (returnTo : f.returnTo = f'.returnTo)
    (mark : ρ.Length f.mark f'.mark)
    (rest : Frames ρ below below' frames frames') :
    Frames ρ below below' (f :: frames) (f' :: frames')

namespace Frame

variable {f f' : ThreeAddress.Frame}

theorem move
    (h : ρ.Frame f f')
    (pc : Nat) :
    ρ.Frame { f with pc } { f' with pc } :=
  ⟨h.routine, rfl, h.cells⟩

theorem next
    (h : ρ.Frame f f') :
    ρ.Frame f.next f'.next :=
  ⟨h.routine, congrArg (· + 1) h.pc, h.cells⟩

theorem write
    {t t' : ThreeAddress.Target}
    (h : ρ.Frame f f')
    (hTarget : ρ.Target t t')
    (w : Value) :
    ρ.Frame (t.frame w f).next (t'.frame w f').next := by
  cases hTarget with
  | cell id =>
      exact ⟨h.routine, congrArg (· + 1) h.pc, h.cells.write id w⟩
  | memory _ => exact h.next

end Frame

namespace Frames

variable {below below' rest rest' : List ThreeAddress.Frame}
variable {f f' g g' : ThreeAddress.Frame}

theorem frame
    (h : ρ.Frames below below' (f :: rest) (f' :: rest')) :
    ρ.Frame f f' := by
  cases h with
  | callee hFrame => exact hFrame
  | nested hFrame _ _ _ => exact hFrame

theorem exists_cons
    {frames frames' : List ThreeAddress.Frame}
    (h : ρ.Frames below below' frames frames') :
    ∃ f rest f' rest', frames = f :: rest ∧ frames' = f' :: rest' := by
  cases h with
  | callee _ => exact ⟨_, _, _, _, rfl, rfl⟩
  | nested _ _ _ _ => exact ⟨_, _, _, _, rfl, rfl⟩

/- The first frames may change, but not where they return to. -/
theorem replace
    (h : ρ.Frames below below' (f :: rest) (f' :: rest'))
    (hFrame : ρ.Frame g g')
    (hReturn : g.returnTo = f.returnTo ∧ g'.returnTo = f'.returnTo)
    (hMark : g.mark = f.mark ∧ g'.mark = f'.mark) :
    ρ.Frames below below' (g :: rest) (g' :: rest') := by
  cases h with
  | callee _ => exact .callee hFrame
  | nested _ hReturns hMarks hRest =>
      refine .nested hFrame ?_ ?_ hRest
      · rw [hReturn.1, hReturn.2, hReturns]
      · rw [hMark.1, hMark.2]
        exact hMarks

/- As many frames are in progress in both calls. -/
theorem length_eq
    {frames frames' : List ThreeAddress.Frame}
    (h : ρ.Frames below below' frames frames') :
    ∃ k,
      frames.length = below.length + 1 + k ∧
        frames'.length = below'.length + 1 + k := by
  induction h with
  | callee _ => exact ⟨0, rfl, rfl⟩
  | nested _ _ _ _ ih =>
      rcases ih with ⟨k, hLength, hLength'⟩
      exact ⟨k + 1, congrArg (· + 1) hLength,
        congrArg (· + 1) hLength'⟩

end Frames

------------------------------------------------------------
-- Machines
------------------------------------------------------------

/-
  Two machines have come alike from calls of two others: the
  frames of the calls and their arrays are alike, the same is
  left to read, and the same was written and counted.
-/
structure Alike
    {ω ω' : Type}
    [Sink ω]
    [Sink ω']
    (ρ : Relocation)
    (s : Machine ω)
    (s' : Machine ω')
    (m : Machine ω)
    (m' : Machine ω') : Prop where
  frames : ρ.Frames s.frames s'.frames m.frames m'.frames
  memory : ρ.Memory m.memory m'.memory
  input : m.input.SameRest m'.input
  output :
    ∃ chunks,
      m.output = Sink.emit s.output chunks ∧
        m'.output = Sink.emit s'.output chunks
  steps : ∃ n, m.steps = s.steps + n ∧ m'.steps = s'.steps + n

/-
  Two steps lead to like machines, running or failed with the
  same fault, unless one is stopped from outside the call.
-/
inductive Progress
    {ω ω' : Type}
    [Sink ω]
    [Sink ω']
    (ρ : Relocation)
    (s : Machine ω)
    (s' : Machine ω') :
    ThreeAddress.Progress ω → ThreeAddress.Progress ω' → Prop where
| running
    {m : Machine ω}
    {m' : Machine ω'}
    (alike : ρ.Alike s s' m m') :
    Progress ρ s s' (.running m) (.running m')
| failed
    {m : Machine ω}
    {m' : Machine ω'}
    (alike : ρ.Alike s s' m m')
    (e : Fault) :
    Progress ρ s s' (.failed m e) (.failed m' e)
| stopped
    {m : Machine ω}
    {e : Fault}
    {p' : ThreeAddress.Progress ω'}
    (outside : e.cause.isFromOutside = true) :
    Progress ρ s s' (.failed m e) p'
| stopped'
    {p : ThreeAddress.Progress ω}
    {m' : Machine ω'}
    {e : Fault}
    (outside : e.cause.isFromOutside = true) :
    Progress ρ s s' p (.failed m' e)

namespace Alike

open Outcome (Agree)

variable {ω ω' : Type} [Sink ω] [Sink ω']
variable {s m : Machine ω} {s' m' : Machine ω'}

theorem context
    {f f' : ThreeAddress.Frame}
    {rest rest' : List ThreeAddress.Frame}
    (h : ρ.Alike s s' m m')
    (hFrames : m.frames = f :: rest)
    (hFrames' : m'.frames = f' :: rest')
    (r : Routine) :
    ρ.Context ⟨r, f, m.memory⟩ ⟨r, f', m'.memory⟩ := by
  have hBoth := h.frames
  rw [hFrames, hFrames'] at hBoth
  exact ⟨rfl, hBoth.frame.cells, h.memory⟩

theorem tick
    (h : ρ.Alike s s' m m') :
    ρ.Alike s s' m.tick m'.tick := by
  rcases h.steps with ⟨n, hSteps, hSteps'⟩
  exact ⟨h.frames, h.memory, h.input, h.output,
    n + 1, congrArg (· + 1) hSteps, congrArg (· + 1) hSteps'⟩

theorem jump
    (h : ρ.Alike s s' m m')
    (pc : Nat) :
    ρ.Alike s s' (m.jump pc) (m'.jump pc) := by
  rcases m with ⟨frames, memory, input, output, steps⟩
  rcases m' with ⟨frames', memory', input', output', steps'⟩
  rcases h.frames.exists_cons with ⟨f, rest, f', rest', hf, hf'⟩
  cases hf
  cases hf'
  exact ⟨h.frames.replace (h.frames.frame.move pc) ⟨rfl, rfl⟩ ⟨rfl, rfl⟩,
    h.memory, h.input, h.output, h.steps⟩

theorem advance
    (h : ρ.Alike s s' m m') :
    ρ.Alike s s' m.advance m'.advance := by
  rcases m with ⟨frames, memory, input, output, steps⟩
  rcases m' with ⟨frames', memory', input', output', steps'⟩
  rcases h.frames.exists_cons with ⟨f, rest, f', rest', hf, hf'⟩
  cases hf
  cases hf'
  exact ⟨h.frames.replace h.frames.frame.next ⟨rfl, rfl⟩ ⟨rfl, rfl⟩,
    h.memory, h.input, h.output, h.steps⟩

/- Stores of the same value to like targets. -/
theorem assign
    {result result' : Except FaultCause (ThreeAddress.Target × Value)}
    (h : ρ.Alike s s' m m')
    (hResult : Agree (Context.Stores ρ) result result')
    (site : Site) :
    ρ.Progress s s' (m.assign site result) (m'.assign site result') := by
  cases hResult with
  | error cause => exact .failed h _
  | @ok found found' hStores =>
      rcases found with ⟨t, w⟩
      rcases found' with ⟨t', w'⟩
      rcases hStores with ⟨hTarget, hValue⟩
      dsimp only at hTarget hValue
      subst hValue
      rcases m with ⟨frames, memory, input, output, steps⟩
      rcases m' with ⟨frames', memory', input', output', steps'⟩
      rcases h.frames.exists_cons with ⟨f, rest, f', rest', hf, hf'⟩
      cases hf
      cases hf'
      have hWritten := h.frames.frame.write hTarget w
      have hMemory := h.memory.store hTarget w
      cases hTarget with
      | cell id =>
          exact .running
            ⟨h.frames.replace hWritten ⟨rfl, rfl⟩ ⟨rfl, rfl⟩,
              hMemory, h.input, h.output, h.steps⟩
      | memory _ =>
          exact .running
            ⟨h.frames.replace hWritten ⟨rfl, rfl⟩ ⟨rfl, rfl⟩,
              hMemory, h.input, h.output, h.steps⟩

/- Returns of like frames that the calls have pushed. -/
theorem pop
    {exe : Executable}
    (h : ρ.Alike s s' m m')
    (hNested : s.frames.length + 1 < m.frames.length)
    (value : Option Value) :
    ρ.Progress s s' (m.pop exe value) (m'.pop exe value) := by
  rcases m with ⟨frames, memory, input, output, steps⟩
  rcases m' with ⟨frames', memory', input', output', steps'⟩
  have hFrames := h.frames
  dsimp only at hFrames hNested
  cases hFrames with
  | callee _ => simp at hNested
  | @nested f f' rest rest' _ hReturn hMark hRest =>
      rcases hRest.exists_cons with ⟨g, gs, g', gs', rfl, rfl⟩
      have hPopped : ρ.Alike s s'
          ⟨g :: gs, memory.shrink f.mark, input, output, steps⟩
          ⟨g' :: gs', memory'.shrink f'.mark, input', output',
            steps'⟩ :=
        ⟨hRest, h.memory.shrink hMark, h.input, h.output, h.steps⟩
      have hFrame := hRest.frame
      cases hDest : f.returnTo with
      | none =>
          rw [hDest] at hReturn
          simp only [Machine.pop, hDest, ← hReturn]
          exact .running hPopped.advance
      | some p =>
          rw [hDest] at hReturn
          cases value with
          | none =>
              simp only [Machine.pop, hDest, ← hReturn]
              exact .running hPopped.advance
          | some v =>
              simp only [Machine.pop, hDest, ← hReturn]
              rw [← hFrame.routine, ← hFrame.pc]
              cases exe.routines[g.routine]? with
              | none => exact .failed hPopped _
              | some r =>
                  have hContext := hPopped.context rfl rfl r
                  exact hPopped.assign (hContext.target_agree p v) _

/- New frames are alike when their arguments are. -/
theorem push
    {cells cells' : List ThreeAddress.Cell}
    (h : ρ.Alike s s' m m')
    (hCells : List.Forall₂ ρ.Cell cells cells')
    (index : Nat)
    (q : Routine)
    (dest : Option Place) :
    ρ.Alike s s' (m.push index q cells dest)
      (m'.push index q cells' dest) := by
  rcases m with ⟨frames, memory, input, output, steps⟩
  rcases m' with ⟨frames', memory', input', output', steps'⟩
  have hNew := Cells.of_forall₂
    (forall₂_bindCells q.slots.toList hCells h.memory.length)
  exact ⟨.nested ⟨rfl, rfl, hNew⟩ rfl h.memory.length h.frames,
    h.memory.allocate q.slots, h.input, h.output, h.steps⟩

/- Calls of one routine with like arguments. -/
theorem enter
    {exe : Executable}
    {cells cells' : List ThreeAddress.Cell}
    (h : ρ.Alike s s' m m')
    (hCells : List.Forall₂ ρ.Cell cells cells')
    (cfg cfg' : Config)
    (site : Site)
    (index : Nat)
    (dest : Option Place) :
    ρ.Progress s s' (m.enter exe cfg (some site) index cells dest)
      (m'.enter exe cfg' (some site) index cells' dest) := by
  unfold Machine.enter
  cases hCallee : exe.routines[index]? with
  | none =>
      simp only [admission, hCallee]
      exact .failed h _
  | some q =>
      rcases admission_of_routine cfg m.depth m.memory.size (some site)
        hCallee with hLeft | ⟨e, hLeft, hOutside⟩
      · rcases admission_of_routine cfg' m'.depth m'.memory.size
          (some site) hCallee with hRight | ⟨e, hRight, hOutside⟩
        · simp only [hLeft, hRight]
          exact .running (h.push hCells index q dest)
        · simp only [hRight]
          exact .stopped' hOutside
      · simp only [hLeft]
        exact .stopped hOutside

/-
  Two intrinsic functions give the same on like machines,
  unless the output refuses what one of them writes.
-/
inductive Given
    (ρ : Relocation)
    (s : Machine ω)
    (s' : Machine ω') :
    Except FaultCause (Option Value) × Machine ω →
      Except FaultCause (Option Value) × Machine ω' → Prop where
| same
    {m : Machine ω}
    {m' : Machine ω'}
    (result : Except FaultCause (Option Value))
    (alike : ρ.Alike s s' m m') :
    Given ρ s s' (result, m) (result, m')
| stopped
    {m : Machine ω}
    {cause : FaultCause}
    {given' : Except FaultCause (Option Value) × Machine ω'}
    (outside : cause.isFromOutside = true) :
    Given ρ s s' (.error cause, m) given'
| stopped'
    {given : Except FaultCause (Option Value) × Machine ω}
    {m' : Machine ω'}
    {cause : FaultCause}
    (outside : cause.isFromOutside = true) :
    Given ρ s s' given (.error cause, m')

theorem readInput
    {α : Type}
    {read : Input → Except ConsoleError α × Input}
    (h : ρ.Alike s s' m m')
    (hRead : read m.input = read m'.input)
    (value : α → Value) :
    Given ρ s s' (m.readInput read value) (m'.readInput read value) := by
  rcases m with ⟨frames, memory, input, output, steps⟩
  rcases m' with ⟨frames', memory', input', output', steps'⟩
  dsimp only at hRead
  have hAfter : ρ.Alike s s'
      ⟨frames, memory, (read input').2, output, steps⟩
      ⟨frames', memory', (read input').2, output', steps'⟩ :=
    ⟨h.frames, h.memory, rfl, h.output, h.steps⟩
  simp only [Machine.readInput, hRead]
  cases (read input').1 with
  | error e => exact .same _ hAfter
  | ok a => exact .same _ hAfter

theorem writeOutput
    (h : ρ.Alike s s' m m')
    (chunk : ByteArray) :
    Given ρ s s' (m.writeOutput chunk) (m'.writeOutput chunk) := by
  rcases m with ⟨frames, memory, input, output, steps⟩
  rcases m' with ⟨frames', memory', input', output', steps'⟩
  rcases h.output with ⟨chunks, hOutput, hOutput'⟩
  have hWritten : ρ.Alike s s'
      ⟨frames, memory, input, (Sink.write output chunk).1, steps⟩
      ⟨frames', memory', input', (Sink.write output' chunk).1,
        steps'⟩ := by
    refine ⟨h.frames, h.memory, h.input, ⟨chunks ++ [chunk], ?_, ?_⟩,
      h.steps⟩
    · dsimp only at hOutput ⊢
      rw [hOutput, Sink.emit, Sink.emit, List.foldl_append]
      rfl
    · dsimp only at hOutput' ⊢
      rw [hOutput', Sink.emit, Sink.emit, List.foldl_append]
      rfl
  simp only [Machine.writeOutput]
  cases (Sink.write output chunk).2 with
  | some reason => exact .stopped rfl
  | none =>
      cases (Sink.write output' chunk).2 with
      | some reason => exact .stopped' rfl
      | none => exact .same _ hWritten

theorem intrinsic
    (h : ρ.Alike s s' m m')
    (i : Intrinsic)
    (arg : Option Value) :
    Given ρ s s' (m.intrinsic i arg) (m'.intrinsic i arg) := by
  unfold Machine.intrinsic
  split
  · exact h.readInput (h.input.readToken_eq _ _) _
  · exact h.readInput (h.input.readToken_eq _ _) _
  · exact h.readInput h.input.readChar_eq _
  · exact h.writeOutput _
  · exact h.writeOutput _
  · split
    · exact h.writeOutput _
    · exact .same _ h
  · exact .same _ h

theorem firstValue_eq
    {cells cells' : List ThreeAddress.Cell}
    (h : List.Forall₂ ρ.Cell cells cells') :
    Machine.firstValue cells = Machine.firstValue cells' := by
  cases h with
  | nil => rfl
  | cons hHead _ =>
      cases hHead with
      | scalar v => rfl
      | array _ => rfl

/- Calls of one intrinsic function with like arguments. -/
theorem callIntrinsic
    {f f' : ThreeAddress.Frame}
    {rest rest' : List ThreeAddress.Frame}
    {cells cells' : List ThreeAddress.Cell}
    (h : ρ.Alike s s' m m')
    (hFrames : m.frames = f :: rest)
    (hFrames' : m'.frames = f' :: rest')
    (hCells : List.Forall₂ ρ.Cell cells cells')
    (r : Routine)
    (site : Site)
    (dest : Option Place)
    (i : Intrinsic) :
    ρ.Progress s s' (m.callIntrinsic r f site dest i cells)
      (m'.callIntrinsic r f' site dest i cells') := by
  have hKept := (Machine.frames_intrinsic m i
    (Machine.firstValue cells)).1
  have hKept' := (Machine.frames_intrinsic m' i
    (Machine.firstValue cells)).1
  have hGiven := h.intrinsic i (Machine.firstValue cells)
  unfold Machine.callIntrinsic
  rw [← firstValue_eq hCells]
  generalize m.intrinsic i (Machine.firstValue cells) = given at *
  generalize m'.intrinsic i (Machine.firstValue cells) = given' at *
  cases hGiven with
  | stopped hOutside => exact .stopped hOutside
  | stopped' hOutside =>
      dsimp only
      exact .stopped' hOutside
  | @same m₁ m₁' result hAlike =>
      dsimp only at hKept hKept'
      rw [hFrames] at hKept
      rw [hFrames'] at hKept'
      cases result with
      | error cause => exact .failed hAlike _
      | ok value =>
          cases dest with
          | none => exact .running hAlike.advance
          | some p =>
              cases value with
              | none => exact .running hAlike.advance
              | some v =>
                  have hContext := hAlike.context hKept hKept' r
                  exact hAlike.assign (hContext.target_agree p v) site

------------------------------------------------------------
-- Steps
------------------------------------------------------------

section Steps

variable {exe : Executable} {cfg cfg' : Config}

/- Like machines end their frames with the same value. -/
theorem ending?_eq
    (h : ρ.Alike s s' m m') :
    m.ending? exe = m'.ending? exe := by
  rcases h.frames.exists_cons with
    ⟨f, rest, f', rest', hFrames, hFrames'⟩
  have hBoth := h.frames
  rw [hFrames, hFrames'] at hBoth
  unfold Machine.ending?
  simp only [hFrames, hFrames', hBoth.frame.routine, hBoth.frame.pc]
  cases exe.routines[f'.routine]? with
  | none => rfl
  | some r =>
      have hRead := (h.context hFrames hFrames' r).read_eq
      simp only [hRead]

/- The same action on like machines. -/
theorem perform
    {r : Routine}
    {f f' : ThreeAddress.Frame}
    {rest rest' : List ThreeAddress.Frame}
    {action : Action}
    {line : Nat}
    (h : ρ.Alike s s' m m')
    (hFrames : m.frames = f :: rest)
    (hFrames' : m'.frames = f' :: rest')
    (hRoutine : exe.routines[f.routine]? = some r)
    (hCode : r.code[f.pc]? = some ⟨action, line⟩)
    (hNested : ∀ value, m.ending? exe = some value →
      s.frames.length + 1 < m.frames.length)
    (site : Site) :
    ρ.Progress s s' (m.perform exe cfg r f site action)
      (m'.perform exe cfg' r f' site action) := by
  have hContext := h.context hFrames hFrames' r
  cases action with
  | assign dest src => exact h.assign (hContext.copied_agree dest src) _
  | arith op dest lhs rhs | bit op dest lhs rhs =>
      exact h.assign (hContext.computed_agree _ dest lhs rhs) _
  | load dest array index =>
      exact h.assign (hContext.loaded_agree dest array index) _
  | store value array index =>
      exact h.assign (hContext.stored_agree value array index) _
  | goto target => exact .running (h.jump target)
  | branch cond target lhs rhs =>
      simp only [Machine.perform, hContext.condition_eq cond lhs rhs]
      cases ThreeAddress.Context.condition ⟨r, f', m'.memory⟩ cond
          lhs rhs with
      | error cause => exact .failed h _
      | ok holds =>
          cases holds with
          | true => exact .running (h.jump target)
          | false => exact .running h.advance
  | ret value =>
      cases value with
      | none =>
          have hEnding : m.ending? exe = some none := by
            unfold Machine.ending?
            simp only [hFrames, hRoutine, hCode]
          exact h.pop (hNested _ hEnding) none
      | some src =>
          have hRead := hContext.read_eq src
          simp only [Machine.perform, ← hRead]
          cases hValue :
              ThreeAddress.Context.read ⟨r, f, m.memory⟩ src with
          | error cause => exact .failed h _
          | ok v =>
              have hEnding : m.ending? exe = some (some v) := by
                unfold Machine.ending?
                simp only [hFrames, hRoutine, hCode, hValue]
                rfl
              exact h.pop (hNested _ hEnding) (some v)
  | call dest callee args =>
      have hArguments := hContext.arguments_agree args
      simp only [Machine.perform]
      generalize ThreeAddress.Context.arguments ⟨r, f, m.memory⟩ args =
        cells at hArguments
      generalize
        ThreeAddress.Context.arguments ⟨r, f', m'.memory⟩ args =
          cells' at hArguments
      cases hArguments with
      | error cause => exact .failed h _
      | ok hCells =>
          cases callee with
          | routine index => exact h.enter hCells cfg cfg' site index dest
          | intrinsic i =>
              exact h.callIntrinsic hFrames hFrames' hCells r site dest i

/- A step that does not end the calls leads to like machines. -/
theorem step
    (h : ρ.Alike s s' m m')
    (hBudget : cfg.budget = none)
    (hBudget' : cfg'.budget = none)
    (hNested : ∀ value, m.ending? exe = some value →
      s.frames.length + 1 < m.frames.length) :
    ρ.Progress s s' (m.step exe cfg) (m'.step exe cfg') := by
  rcases h.frames.exists_cons with
    ⟨f, rest, f', rest', hFrames, hFrames'⟩
  have hFrame : ρ.Frame f f' := by
    have hBoth := h.frames
    rw [hFrames, hFrames'] at hBoth
    exact hBoth.frame
  have hNoLimit : m.outOfBudget cfg = none := by
    simp [Machine.outOfBudget, hBudget]
  have hNoLimit' : m'.outOfBudget cfg' = none := by
    simp [Machine.outOfBudget, hBudget']
  unfold Machine.step
  simp only [hFrames, hFrames', hNoLimit, hNoLimit', ← hFrame.routine,
    ← hFrame.pc]
  cases hRoutine : exe.routines[f.routine]? with
  | none => exact .failed h _
  | some r =>
      dsimp only
      cases hCode : r.code[f.pc]? with
      | none =>
          have hEnding : m.ending? exe = some none := by
            unfold Machine.ending?
            simp only [hFrames, hRoutine, hCode]
          exact h.pop (hNested _ hEnding) none
      | some st =>
          exact h.tick.perform hFrames hFrames' hRoutine hCode hNested _

end Steps

end Alike

end Relocation

------------------------------------------------------------
-- Following a Call
------------------------------------------------------------

/- How far a call has come. -/
inductive CallStatus where
| inside
| returned (value : Option Value)
| failed (e : Fault)
deriving DecidableEq

namespace Machine

variable {ω : Type}

/- What the call over some frames hands over if it ends now. -/
def callEnd?
    (exe : Executable)
    (height : Nat)
    (m : Machine ω) : Option (Option Value) :=
  if m.frames.length = height + 1 then m.ending? exe else none

/-
  Follow the call over some frames for a number of steps, up
  to the machine whose next step pops the callee, or to the
  step that fails.
-/
def follow
    [Sink ω]
    (exe : Executable)
    (cfg : Config)
    (height : Nat) : Nat → Machine ω → CallStatus × Machine ω
| 0, m => (.inside, m)
| k + 1, m =>
    match m.callEnd? exe height with
    | some value => (.returned value, m)
    | none =>
        match m.step exe cfg with
        | .running m => follow exe cfg height k m
        | .finished m => (.inside, m)
        | .failed m e => (.failed e, m)

end Machine

/- Like machines are followed to like machines. -/
theorem Relocation.Alike.follow
    {ω ω' : Type}
    [Sink ω]
    [Sink ω']
    {ρ : Relocation}
    {exe : Executable}
    {cfg cfg' : Config}
    {s m : Machine ω}
    {s' m' : Machine ω'}
    (h : ρ.Alike s s' m m')
    (hBudget : cfg.budget = none)
    (hBudget' : cfg'.budget = none)
    (k : Nat)
    (hLimits : ∀ e,
      (m.follow exe cfg s.frames.length k).1 = .failed e →
        e.cause.isFromOutside = false)
    (hLimits' : ∀ e,
      (m'.follow exe cfg' s'.frames.length k).1 = .failed e →
        e.cause.isFromOutside = false) :
    (m.follow exe cfg s.frames.length k).1 =
        (m'.follow exe cfg' s'.frames.length k).1 ∧
      ρ.Alike s s' (m.follow exe cfg s.frames.length k).2
        (m'.follow exe cfg' s'.frames.length k).2 := by
  induction k generalizing m m' with
  | zero => exact ⟨rfl, h⟩
  | succ k ih =>
      have hEnd : m.callEnd? exe s.frames.length =
          m'.callEnd? exe s'.frames.length := by
        rcases h.frames.length_eq with ⟨j, hLength, hLength'⟩
        unfold Machine.callEnd?
        rw [hLength, hLength', h.ending?_eq]
        cases j with
        | zero => simp
        | succ j => simp
      -- Both calls end now, or both take a step.
      unfold Machine.follow at hLimits hLimits' ⊢
      rw [← hEnd] at hLimits' ⊢
      cases hOver : m.callEnd? exe s.frames.length with
      | some value => exact ⟨rfl, h⟩
      | none =>
          have hNested : ∀ value, m.ending? exe = some value →
              s.frames.length + 1 < m.frames.length := by
            intro value hEnding
            rcases h.frames.length_eq with ⟨j, hLength, _⟩
            unfold Machine.callEnd? at hOver
            split at hOver
            · rw [hEnding] at hOver
              cases hOver
            · omega
          have hStep : ρ.Progress s s' (m.step exe cfg)
              (m'.step exe cfg') :=
            h.step hBudget hBudget' hNested
          simp only [hOver] at hLimits hLimits' ⊢
          generalize m.step exe cfg = next at *
          generalize m'.step exe cfg' = next' at *
          cases hStep with
          | running hAlike => exact ih hAlike hLimits hLimits'
          | failed hAlike e => exact ⟨rfl, hAlike⟩
          | stopped hOutside =>
              have hInside := hLimits _ rfl
              rw [hOutside] at hInside
              cases hInside
          | stopped' hOutside =>
              have hInside := hLimits' _ rfl
              rw [hOutside] at hInside
              cases hInside

end ThreeAddress
