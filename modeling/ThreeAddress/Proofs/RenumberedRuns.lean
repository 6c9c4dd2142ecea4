import ThreeAddress.Proofs.RenumberedFrames
import ThreeAddress.Proofs.RunReport
import ThreeAddress.Proofs.TypedAccess

/-
  This file runs two executables side by side that are the
  same up to their numbers. Their machines keep in step: the
  frames are those of corresponding routines, the variables
  hold the same values, and the arrays are as large and hold
  the same, though they lie in other places.

  Addresses correspond one to one. A call adds the arrays of
  its frames, and a return drops them again, so each frame
  sees only addresses below the mark of the frame above it.

  Key definitions include:
    * `FaultCause.Alike`
    * `LikeFrame`, `LikeFrames`
    * `LikeMachine`, `LikeProgress`

  Main statements:
    * `LikeMachine.push`, `LikeMachine.pop`
    * `LikeMachine.step`
    * `Executable.Renumbers.runEntry`
-/

namespace ThreeAddress

/- The causes are the same, if the first can be expected. -/
def FaultCause.Alike (cause cause' : FaultCause) : Prop :=
  cause.isExpected = true → cause = cause'

/- Addresses correspond one to one. -/
def OneToOne (moves : Nat → Nat → Prop) : Prop :=
  ∀ a b a' b', moves a a' → moves b b' → (a = b ↔ a' = b')

/- Addresses that correspond and lie below a limit. -/
def MovesBelow
    (moves : Nat → Nat → Prop)
    (limit a a' : Nat) : Prop :=
  moves a a' ∧ a < limit ∧ a' < limit

namespace Routine.Renumbers

variable {T : Nat → Nat → Prop} {r r' : Routine}
variable {moves : Nat → Nat → Prop}

/- What corresponds in two frames of the routines. -/
def correspondence
    (h : Renumbers T r r')
    (hUnique : OneToOne moves) : Correspondence where
  Slot := SameSlot r.slots r'.slots
  Moves := moves
  Refuses := FaultCause.Alike
  slot_unique := h.sameSlot_unique
  moves_unique := hUnique _ _ _ _
  refuses_refl _ _ := rfl
  refuses_slot _ hExpected := by cases hExpected

/- New elements are added one to one. -/
theorem extended_oneToOne
    (h : Renumbers T r r')
    {base : Nat}
    (hUnique : OneToOne moves)
    (hInside : ∀ a a', moves a a' → a < base ∧ a' < base) :
    OneToOne (Extended moves base r r') := by
  intro a b a' b' ha hb
  rcases ha with hOld | hNew
  · rcases hb with hOld' | hNew'
    · exact hUnique a b a' b' hOld hOld'
    · have hBelow := hInside a a' hOld
      have hBehind := h.newElement_inside hNew'
      omega
  · rcases hb with hOld' | hNew'
    · have hBelow := hInside b b' hOld'
      have hBehind := h.newElement_inside hNew
      omega
    · exact h.newElement_unique hNew hNew'

/- Below the base nothing is added. -/
theorem movesBelow_extended
    (h : Renumbers T r r')
    {base : Nat}
    (hInside : ∀ a a', moves a a' → a < base ∧ a' < base) :
    MovesBelow (Extended moves base r r') base = moves := by
  funext a a'
  apply propext
  constructor
  · rintro ⟨hOld | hNew, hBelow, _⟩
    · exact hOld
    · have hBehind := h.newElement_inside hNew
      omega
  · intro hOld
    exact ⟨.inl hOld, hInside a a' hOld⟩

/- The steps at a position correspond. -/
theorem step_rel
    (h : Renumbers T r r')
    (pc : Nat) :
    Option.Rel
      (fun (st st' : Step) =>
        Action.Via (SameSlot r.slots r'.slots) T st.action st'.action ∧
          st.line = st'.line)
      r.code[pc]? r'.code[pc]? := by
  rw [← Array.getElem?_toList, ← Array.getElem?_toList]
  exact rel_getElem? h.code pc

theorem lineAt_eq
    (h : Renumbers T r r')
    (pc : Nat) :
    r.lineAt pc = r'.lineAt pc := by
  have hStep := h.step_rel pc
  have hLast := h.step_rel (r.code.size - 1)
  have hSize : r.code.size = r'.code.size := h.code.length_eq
  unfold Routine.lineAt
  rw [Array.back?_eq_getElem?, Array.back?_eq_getElem?, ← hSize]
  generalize r.code[pc]? = st at hStep
  generalize r'.code[pc]? = st' at hStep
  cases hStep with
  | some hSame => exact hSame.2
  | none =>
      generalize r.code[r.code.size - 1]? = last at hLast
      generalize r'.code[r.code.size - 1]? = last' at hLast
      cases hLast with
      | none => rfl
      | some hSame => exact hSame.2

end Routine.Renumbers

------------------------------------------------------------
-- Memories
------------------------------------------------------------

/-
  The memories are equally long and hold the same at addresses
  that correspond, one to one.
-/
structure LikeMemory
    (moves : Nat → Nat → Prop)
    (memory memory' : Array Value) : Prop where
  unique : OneToOne moves
  size : memory.size = memory'.size
  inside : ∀ a a', moves a a' → a < memory.size ∧ a' < memory.size
  value : ∀ a a', moves a a' → memory[a]? = memory'[a']?

namespace LikeMemory

variable {moves : Nat → Nat → Prop} {memory memory' : Array Value}

theorem empty : LikeMemory (fun _ _ => False) #[] #[] where
  unique _ _ _ _ hNone := hNone.elim
  size := rfl
  inside _ _ hNone := hNone.elim
  value _ _ hNone := hNone.elim

/- The same value is stored at corresponding addresses. -/
theorem store
    {κ : Correspondence}
    {t t' : Target}
    (h : LikeMemory κ.Moves memory memory')
    (hTarget : κ.Target t t')
    (w : Value) :
    LikeMemory κ.Moves (t.store w memory) (t'.store w memory') := by
  have hMemory : κ.Memory memory memory' := h.value
  constructor
  case unique => exact h.unique
  case size =>
    rw [Target.size_store, Target.size_store]
    exact h.size
  case inside =>
    rw [Target.size_store]
    exact h.inside
  case value => exact hMemory.store hTarget w

/- Behind a limit the memories are dropped. -/
theorem shrink
    (h : LikeMemory moves memory memory')
    (limit : Nat) :
    LikeMemory (MovesBelow moves limit) (memory.shrink limit)
      (memory'.shrink limit) := by
  constructor
  case unique =>
    intro a b a' b' ha hb
    exact h.unique a b a' b' ha.1 hb.1
  case size => rw [Array.size_shrink, Array.size_shrink, h.size]
  case inside =>
    rintro a a' ⟨hMoves, hBelow, hBelow'⟩
    have hInside := h.inside a a' hMoves
    rw [Array.size_shrink]
    omega
  case value =>
    rintro a a' ⟨hMoves, hBelow, hBelow'⟩
    rw [getElem?_shrink memory hBelow, getElem?_shrink memory' hBelow']
    exact h.value a a' hMoves

/- The arrays of corresponding routines are added. -/
theorem allocate
    {T : Nat → Nat → Prop}
    {r r' : Routine}
    (h : LikeMemory moves memory memory')
    (hRoutines : Routine.Renumbers T r r') :
    LikeMemory (Extended moves memory.size r r')
      (allocate memory r.slots) (ThreeAddress.allocate memory' r'.slots) := by
  have hSize := h.size
  constructor
  case unique => exact hRoutines.extended_oneToOne h.unique h.inside
  case size =>
    rw [size_allocate, size_allocate, hSize, hRoutines.ownedCells_eq]
  case inside =>
    rintro a a' (hOld | hNew)
    · have hBelow := h.inside a a' hOld
      rw [size_allocate]
      omega
    · have hBehind := hRoutines.newElement_inside hNew
      rw [size_allocate]
      omega
  case value =>
    rintro a a' (hOld | hNew)
    · have hBelow := h.inside a a' hOld
      rw [getElem?_allocate memory _ hBelow.1,
        getElem?_allocate memory' _ (by omega)]
      exact h.value a a' hOld
    · exact Routine.Renumbers.allocate_newElement rfl hSize.symm hNew

end LikeMemory

/- Corresponding routines are admitted or refused alike. -/
theorem Executable.Renumbers.admission
    {exe exe' : Executable}
    {T : Nat → Nat → Prop}
    {index index' : Nat}
    (h : exe.Renumbers exe' T)
    (hSame : T index index')
    (cfg : Config)
    (depth used : Nat)
    (caller : Option Site) :
    ∃ q q',
      exe.routines[index]? = some q ∧
        exe'.routines[index']? = some q' ∧
        Routine.Renumbers T q q' ∧
        ((admission exe cfg depth used caller index = .ok q ∧
            admission exe' cfg depth used caller index' = .ok q') ∨
          ∃ e,
            admission exe cfg depth used caller index = .error e ∧
              admission exe' cfg depth used caller index' = .error e) := by
  rcases h.routines index index' hSame with ⟨q, q', hq, hq', hRoutines⟩
  refine ⟨q, q', hq, hq', hRoutines, ?_⟩
  simp only [ThreeAddress.admission, hq, hq', hRoutines.ownedCells_eq,
    hRoutines.name]
  split
  · exact .inr ⟨_, rfl, rfl⟩
  · split
    · exact .inr ⟨_, rfl, rfl⟩
    · exact .inl ⟨rfl, rfl⟩

------------------------------------------------------------
-- Frames
------------------------------------------------------------

section Frames

variable (exe exe' : Executable) (T : Nat → Nat → Prop)

/-
  The frames are of routines `r` and `r'` that are the same up
  to numbers, at the same position, and hold the same.
-/
structure LikeFrame
    (moves : Nat → Nat → Prop)
    (r r' : Routine)
    (f f' : Frame) : Prop where
  routine : exe.routines[f.routine]? = some r
  routine' : exe'.routines[f'.routine]? = some r'
  renumbers : Routine.Renumbers T r r'
  pc : f.pc = f'.pc
  mark : f.mark = f'.mark
  below : f.below = f'.below
  cells :
    ∀ id id', SameSlot r.slots r'.slots id id' →
      Option.Rel (Cell.Moved moves) f.cells[id]? f'.cells[id']?

/-
  The frames of two runs, the running ones those of `r` and
  `r'`. A frame returns to corresponding places, and the
  frames below it see only the addresses below its mark.
-/
inductive LikeFrames :
    (Nat → Nat → Prop) → Routine → Routine →
      List Frame → List Frame → Prop where
| entry
    {moves : Nat → Nat → Prop}
    {r r' : Routine}
    {f f' : Frame}
    (frame : LikeFrame exe exe' T moves r r' f f') :
    LikeFrames moves r r' [f] [f']
| call
    {moves : Nat → Nat → Prop}
    {r r' q q' : Routine}
    {f f' : Frame}
    {frames frames' : List Frame}
    (frame : LikeFrame exe exe' T moves r r' f f')
    (returnTo :
      Option.Rel (Place.Via (SameSlot q.slots q'.slots))
        f.returnTo f'.returnTo)
    (rest : LikeFrames (MovesBelow moves f.mark) q q' frames frames') :
    LikeFrames moves r r' (f :: frames) (f' :: frames')

end Frames

section

variable {exe exe' : Executable} {T : Nat → Nat → Prop}
variable {moves : Nat → Nat → Prop} {r r' : Routine}

namespace LikeFrame

variable {f f' : Frame}

/- New frames of corresponding routines on the same arguments. -/
theorem ofCall
    {index index' : Nat}
    {args args' : List Cell}
    (hRoutine : exe.routines[index]? = some r)
    (hRoutine' : exe'.routines[index']? = some r')
    (hRoutines : Routine.Renumbers T r r')
    (hArgs : List.Forall₂ (Cell.Moved moves) args args')
    (dest dest' : Option Place)
    (mark below : Nat) :
    LikeFrame exe exe' T (Extended moves mark r r') r r'
      (Frame.ofCall index r args dest mark below)
      (Frame.ofCall index' r' args' dest' mark below) := by
  refine ⟨hRoutine, hRoutine', hRoutines, rfl, rfl, rfl, ?_⟩
  intro id id' hSlot
  simp only [Frame.ofCall, List.getElem?_toArray]
  exact hRoutines.bindCells_moved hArgs mark hSlot

theorem move
    (h : LikeFrame exe exe' T moves r r' f f')
    (pc : Nat) :
    LikeFrame exe exe' T moves r r' { f with pc } { f' with pc } :=
  ⟨h.routine, h.routine', h.renumbers, rfl, h.mark, h.below, h.cells⟩

theorem next
    (h : LikeFrame exe exe' T moves r r' f f') :
    LikeFrame exe exe' T moves r r' f.next f'.next :=
  ⟨h.routine, h.routine', h.renumbers, congrArg (· + 1) h.pc, h.mark,
    h.below, h.cells⟩

theorem write
    {t t' : Target}
    (h : LikeFrame exe exe' T moves r r' f f')
    (hUnique : OneToOne moves)
    (hTarget : (h.renumbers.correspondence hUnique).Target t t')
    (w : Value) :
    LikeFrame exe exe' T moves r r' (t.frame w f).next
      (t'.frame w f').next := by
  cases hTarget with
  | cell hSlot =>
      have hCells : (h.renumbers.correspondence hUnique).Cells
          f.cells f'.cells := h.cells
      exact ⟨h.routine, h.routine', h.renumbers, congrArg (· + 1) h.pc,
        h.mark, h.below, hCells.write hSlot w⟩
  | memory _ => exact h.next

end LikeFrame

namespace LikeFrames

variable {f f' g g' : Frame} {frames frames' : List Frame}

theorem frame
    (h : LikeFrames exe exe' T moves r r' (f :: frames) (f' :: frames')) :
    LikeFrame exe exe' T moves r r' f f' := by
  cases h with
  | entry hFrame => exact hFrame
  | call hFrame _ _ => exact hFrame

theorem exists_cons
    (h : LikeFrames exe exe' T moves r r' frames frames') :
    ∃ f rest f' rest', frames = f :: rest ∧ frames' = f' :: rest' := by
  cases h with
  | entry _ => exact ⟨_, _, _, _, rfl, rfl⟩
  | call _ _ _ => exact ⟨_, _, _, _, rfl, rfl⟩

/- The first frames may change, but not where they return to. -/
theorem replace
    (h : LikeFrames exe exe' T moves r r' (f :: frames) (f' :: frames'))
    (hFrame : LikeFrame exe exe' T moves r r' g g')
    (hReturn : g.returnTo = f.returnTo ∧ g'.returnTo = f'.returnTo)
    (hMark : g.mark = f.mark) :
    LikeFrames exe exe' T moves r r' (g :: frames) (g' :: frames') := by
  cases h with
  | entry _ => exact .entry hFrame
  | call _ hReturns hRest =>
      rw [← hReturn.1, ← hReturn.2] at hReturns
      rw [← hMark] at hRest
      exact .call hFrame hReturns hRest

end LikeFrames

------------------------------------------------------------
-- Machines
------------------------------------------------------------

/- The same is left to read, and was written and counted. -/
structure SameConsole
    {ω : Type}
    (m m' : Machine ω) : Prop where
  input : m.input = m'.input
  output : m.output = m'.output
  steps : m.steps = m'.steps

namespace SameConsole

variable {ω : Type} {m m' : Machine ω}

theorem readInput
    {α : Type}
    (h : SameConsole m m')
    (read : Input → Except ConsoleError α × Input)
    (value : α → Value) :
    (m.readInput read value).1 = (m'.readInput read value).1 ∧
      SameConsole (m.readInput read value).2
        (m'.readInput read value).2 := by
  simp only [Machine.readInput, h.input]
  cases (read m'.input).1 with
  | error e => exact ⟨rfl, rfl, h.output, h.steps⟩
  | ok a => exact ⟨rfl, rfl, h.output, h.steps⟩

variable [Sink ω]

theorem writeOutput
    (h : SameConsole m m')
    (chunk : ByteArray) :
    (m.writeOutput chunk).1 = (m'.writeOutput chunk).1 ∧
      SameConsole (m.writeOutput chunk).2 (m'.writeOutput chunk).2 := by
  simp only [Machine.writeOutput, h.output]
  cases (Sink.write m'.output chunk).2 with
  | none => exact ⟨rfl, h.input, rfl, h.steps⟩
  | some reason => exact ⟨rfl, h.input, rfl, h.steps⟩

/- An intrinsic function sees only the console. -/
theorem intrinsic
    (h : SameConsole m m')
    (i : Intrinsic)
    (arg : Option Value) :
    (m.intrinsic i arg).1 = (m'.intrinsic i arg).1 ∧
      SameConsole (m.intrinsic i arg).2 (m'.intrinsic i arg).2 := by
  unfold Machine.intrinsic
  split
  · exact h.readInput _ _
  · exact h.readInput _ _
  · exact h.readInput _ _
  · exact h.writeOutput _
  · exact h.writeOutput _
  · split
    · exact h.writeOutput _
    · exact ⟨rfl, h⟩
  · exact ⟨rfl, h⟩

end SameConsole

/-
  The machines run routines `r` and `r'` and are the same up
  to numbers and addresses.
-/
structure LikeMachine
    {ω : Type}
    (exe exe' : Executable)
    (T : Nat → Nat → Prop)
    (moves : Nat → Nat → Prop)
    (r r' : Routine)
    (m m' : Machine ω) : Prop where
  frames : LikeFrames exe exe' T moves r r' m.frames m'.frames
  memory : LikeMemory moves m.memory m'.memory
  console : SameConsole m m'

/-
  Two steps lead to machines that are the same up to numbers,
  or to the end of both runs.
-/
inductive LikeProgress
    {ω : Type}
    (exe exe' : Executable)
    (T : Nat → Nat → Prop) : Progress ω → Progress ω → Prop where
| running
    {moves : Nat → Nat → Prop}
    {r r' : Routine}
    {m m' : Machine ω}
    (alike : LikeMachine exe exe' T moves r r' m m') :
    LikeProgress exe exe' T (.running m) (.running m')
| ended
    {m m' : Machine ω}
    (frames : m.frames = [] ∧ m'.frames = [])
    (console : SameConsole m m') :
    LikeProgress exe exe' T (.running m) (.running m')
| failed
    {m m' : Machine ω}
    {site : Site}
    {cause cause' : FaultCause}
    (console : SameConsole m m')
    (alike : cause.Alike cause') :
    LikeProgress exe exe' T (.failed m ⟨site, cause⟩)
      (.failed m' ⟨site, cause'⟩)

namespace LikeMachine

open Outcome (AgreeUpTo)

variable {ω : Type} {m m' : Machine ω}

theorem exists_cons
    (h : LikeMachine exe exe' T moves r r' m m') :
    ∃ f rest f' rest',
      m.frames = f :: rest ∧
        m'.frames = f' :: rest' ∧
        LikeFrame exe exe' T moves r r' f f' := by
  rcases h.frames.exists_cons with ⟨f, rest, f', rest', hf, hf'⟩
  have hFrames := h.frames
  rw [hf, hf'] at hFrames
  exact ⟨f, rest, f', rest', hf, hf', hFrames.frame⟩

/- What corresponds in the running frames. -/
theorem context
    {f f' : Frame}
    {rest rest' : List Frame}
    (h : LikeMachine exe exe' T moves r r' m m')
    (hFrames : m.frames = f :: rest)
    (hFrames' : m'.frames = f' :: rest')
    (hRoutines : Routine.Renumbers T r r') :
    (hRoutines.correspondence h.memory.unique).Context
      ⟨r, f, m.memory⟩ ⟨r', f', m'.memory⟩ := by
  have hBoth := h.frames
  rw [hFrames, hFrames'] at hBoth
  refine ⟨?_, hBoth.frame.cells, h.memory.value⟩
  rintro id id' ⟨s, hs, hs'⟩
  exact hs.trans hs'.symm

theorem depth_eq
    (h : LikeMachine exe exe' T moves r r' m m') :
    m.depth = m'.depth := by
  rcases h.exists_cons with ⟨f, rest, f', rest', hf, hf', hFrame⟩
  simp only [Machine.depth, hf, hf', hFrame.below]

theorem tick
    (h : LikeMachine exe exe' T moves r r' m m') :
    LikeMachine exe exe' T moves r r' m.tick m'.tick :=
  ⟨h.frames, h.memory, h.console.input, h.console.output,
    congrArg (· + 1) h.console.steps⟩

theorem jump
    (h : LikeMachine exe exe' T moves r r' m m')
    (pc : Nat) :
    LikeMachine exe exe' T moves r r' (m.jump pc) (m'.jump pc) := by
  rcases m with ⟨frames, memory, input, output, steps⟩
  rcases m' with ⟨frames', memory', input', output', steps'⟩
  rcases h.frames.exists_cons with ⟨f, rest, f', rest', hf, hf'⟩
  cases hf
  cases hf'
  exact ⟨h.frames.replace (h.frames.frame.move pc) ⟨rfl, rfl⟩ rfl,
    h.memory, h.console.input, h.console.output, h.console.steps⟩

theorem advance
    (h : LikeMachine exe exe' T moves r r' m m') :
    LikeMachine exe exe' T moves r r' m.advance m'.advance := by
  rcases m with ⟨frames, memory, input, output, steps⟩
  rcases m' with ⟨frames', memory', input', output', steps'⟩
  rcases h.frames.exists_cons with ⟨f, rest, f', rest', hf, hf'⟩
  cases hf
  cases hf'
  exact ⟨h.frames.replace h.frames.frame.next ⟨rfl, rfl⟩ rfl,
    h.memory, h.console.input, h.console.output, h.console.steps⟩

/- Stores of the same value to corresponding targets. -/
theorem assign
    {result result' : Except FaultCause (Target × Value)}
    (h : LikeMachine exe exe' T moves r r' m m')
    (hRoutines : Routine.Renumbers T r r')
    (hResult :
      AgreeUpTo FaultCause.Alike
        (Correspondence.Context.Stores
          (hRoutines.correspondence h.memory.unique))
        result result')
    (site : Site) :
    LikeProgress exe exe' T (m.assign site result)
      (m'.assign site result') := by
  cases hResult with
  | error hCause => exact .failed h.console hCause
  | @ok found found' hStores =>
      rcases found with ⟨t, w⟩
      rcases found' with ⟨t', w'⟩
      rcases hStores with ⟨hTarget, hValue⟩
      dsimp only at hTarget hValue
      subst hValue
      rcases m with ⟨frames, memory, input, output, steps⟩
      rcases m' with ⟨frames', memory', input', output', steps'⟩
      rcases h.frames.exists_cons with ⟨f, rest, f', rest', hf, hf'⟩
      cases hf
      cases hf'
      have hWritten := h.frames.frame.write h.memory.unique hTarget w
      have hStored : LikeMemory moves (t.store w memory)
          (t'.store w memory') := h.memory.store hTarget w
      cases hTarget with
      | cell _ =>
          exact .running
            ⟨h.frames.replace hWritten ⟨rfl, rfl⟩ rfl, hStored,
              h.console.input, h.console.output, h.console.steps⟩
      | memory _ =>
          exact .running
            ⟨h.frames.replace hWritten ⟨rfl, rfl⟩ rfl, hStored,
              h.console.input, h.console.output, h.console.steps⟩

/- Returns from corresponding frames. -/
theorem pop
    (h : LikeMachine exe exe' T moves r r' m m')
    (value : Option Value) :
    LikeProgress exe exe' T (m.pop exe value) (m'.pop exe' value) := by
  rcases m with ⟨frames, memory, input, output, steps⟩
  rcases m' with ⟨frames', memory', input', output', steps'⟩
  have hFrames := h.frames
  dsimp only at hFrames
  cases hFrames with
  | entry _ =>
      exact .ended ⟨rfl, rfl⟩
        ⟨h.console.input, h.console.output, h.console.steps⟩
  | @call _ _ _ q q' f f' rest rest' hFrame hReturn hRest =>
      rcases hRest.exists_cons with ⟨g, gs, g', gs', rfl, rfl⟩
      have hCaller := hRest.frame
      have hDropped : LikeMachine exe exe' T (MovesBelow moves f.mark) q q'
          ⟨g :: gs, memory.shrink f.mark, input, output, steps⟩
          ⟨g' :: gs', memory'.shrink f'.mark, input', output',
            steps'⟩ := by
        rw [← hFrame.mark]
        exact ⟨hRest, h.memory.shrink f.mark, h.console.input,
          h.console.output, h.console.steps⟩
      simp only [Machine.pop]
      generalize f.returnTo = dest at hReturn
      generalize f'.returnTo = dest' at hReturn
      cases hReturn with
      | none => exact .running hDropped.advance
      | some hPlace =>
          cases value with
          | none => exact .running hDropped.advance
          | some v =>
              have hContext := hDropped.context rfl rfl hCaller.renumbers
              simp only [hCaller.routine, hCaller.routine']
              rw [hCaller.renumbers.name,
                hCaller.renumbers.lineAt_eq g.pc, hCaller.pc]
              exact hDropped.assign hCaller.renumbers
                (hContext.target_agree hPlace v) _

------------------------------------------------------------
-- Calls
------------------------------------------------------------

/- New frames of corresponding routines on the same arguments. -/
theorem push
    {q q' : Routine}
    {index index' : Nat}
    {cells cells' : List Cell}
    {dest dest' : Option Place}
    (h : LikeMachine exe exe' T moves r r' m m')
    (hRoutine : exe.routines[index]? = some q)
    (hRoutine' : exe'.routines[index']? = some q')
    (hRoutines : Routine.Renumbers T q q')
    (hCells : List.Forall₂ (Cell.Moved moves) cells cells')
    (hDest :
      Option.Rel (Place.Via (SameSlot r.slots r'.slots)) dest dest') :
    LikeMachine exe exe' T (Extended moves m.memory.size q q') q q'
      (m.push index q cells dest) (m'.push index' q' cells' dest') := by
  have hDepth := h.depth_eq
  rcases m with ⟨frames, memory, input, output, steps⟩
  rcases m' with ⟨frames', memory', input', output', steps'⟩
  have hSize : memory.size = memory'.size := h.memory.size
  refine ⟨?_, h.memory.allocate hRoutines, h.console.input,
    h.console.output, h.console.steps⟩
  have hFrame := LikeFrame.ofCall hRoutine hRoutine' hRoutines hCells
    dest dest' memory.size
    (Machine.depth ⟨frames, memory, input, output, steps⟩)
  simp only [Machine.push, ← hSize, ← hDepth]
  refine .call hFrame hDest ?_
  dsimp only
  rw [hRoutines.movesBelow_extended h.memory.inside]
  exact h.frames

/- Calls of corresponding routines on the same arguments. -/
theorem enter
    {index index' : Nat}
    {cells cells' : List Cell}
    {dest dest' : Option Place}
    (h : LikeMachine exe exe' T moves r r' m m')
    (hExe : exe.Renumbers exe' T)
    (hSame : T index index')
    (hCells : List.Forall₂ (Cell.Moved moves) cells cells')
    (hDest :
      Option.Rel (Place.Via (SameSlot r.slots r'.slots)) dest dest')
    (cfg : Config)
    (site : Site) :
    LikeProgress exe exe' T
      (m.enter exe cfg (some site) index cells dest)
      (m'.enter exe' cfg (some site) index' cells' dest') := by
  rcases hExe.admission hSame cfg m.depth m.memory.size (some site) with
    ⟨q, q', hq, hq', hRoutines, ⟨hAdmitted, hAdmitted'⟩ | ⟨e, hRefused, hRefused'⟩⟩
  · rw [Machine.enter, Machine.enter, ← h.depth_eq, ← h.memory.size, hAdmitted,
      hAdmitted']
    exact .running (h.push hq hq' hRoutines hCells hDest)
  · rw [Machine.enter, Machine.enter, ← h.depth_eq, ← h.memory.size, hRefused,
      hRefused']
    exact .failed h.console fun _ => rfl

theorem firstValue_eq
    {cells cells' : List Cell}
    (h : List.Forall₂ (Cell.Moved moves) cells cells') :
    Machine.firstValue cells = Machine.firstValue cells' := by
  cases h with
  | nil => rfl
  | cons hHead _ =>
      cases hHead with
      | scalar v => rfl
      | array _ => rfl

/- A machine may read and write, and keep frames and memory. -/
theorem of_console
    {m₁ m₁' : Machine ω}
    (h : LikeMachine exe exe' T moves r r' m m')
    (hKept : m₁.frames = m.frames ∧ m₁.memory = m.memory)
    (hKept' : m₁'.frames = m'.frames ∧ m₁'.memory = m'.memory)
    (hConsole : SameConsole m₁ m₁') :
    LikeMachine exe exe' T moves r r' m₁ m₁' := by
  constructor
  case frames =>
    rw [hKept.1, hKept'.1]
    exact h.frames
  case memory =>
    rw [hKept.2, hKept'.2]
    exact h.memory
  case console => exact hConsole

variable [Sink ω]

/- Calls of an intrinsic function on the same arguments. -/
theorem callIntrinsic
    {f f' : Frame}
    {rest rest' : List Frame}
    {cells cells' : List Cell}
    {dest dest' : Option Place}
    (h : LikeMachine exe exe' T moves r r' m m')
    (hFrames : m.frames = f :: rest)
    (hFrames' : m'.frames = f' :: rest')
    (hRoutines : Routine.Renumbers T r r')
    (hCells : List.Forall₂ (Cell.Moved moves) cells cells')
    (hDest :
      Option.Rel (Place.Via (SameSlot r.slots r'.slots)) dest dest')
    (site : Site)
    (i : Intrinsic) :
    LikeProgress exe exe' T (m.callIntrinsic r f site dest i cells)
      (m'.callIntrinsic r' f' site dest' i cells') := by
  have hGiven := h.console.intrinsic i (Machine.firstValue cells)
  have hKept := Machine.frames_intrinsic m i (Machine.firstValue cells)
  have hKept' := Machine.frames_intrinsic m' i (Machine.firstValue cells)
  unfold Machine.callIntrinsic
  rw [← firstValue_eq hCells]
  generalize m.intrinsic i (Machine.firstValue cells) = given at *
  generalize m'.intrinsic i (Machine.firstValue cells) = given' at *
  rcases given with ⟨result, m₁⟩
  rcases given' with ⟨result', m₁'⟩
  rcases hGiven with ⟨hResult, hConsole⟩
  dsimp only at hResult hConsole hKept hKept'
  subst hResult
  have hAfter := h.of_console hKept hKept' hConsole
  rw [hFrames] at hKept
  rw [hFrames'] at hKept'
  cases result with
  | error cause => exact .failed hConsole fun _ => rfl
  | ok value =>
      cases hDest with
      | none => exact .running hAfter.advance
      | some hPlace =>
          cases value with
          | none => exact .running hAfter.advance
          | some v =>
              have hContext := hAfter.context hKept.1 hKept'.1 hRoutines
              exact hAfter.assign hRoutines
                (hContext.target_agree hPlace v) site

------------------------------------------------------------
-- Steps
------------------------------------------------------------

/- Corresponding actions of the running frames. -/
theorem perform
    {f f' : Frame}
    {rest rest' : List Frame}
    {action action' : Action}
    (h : LikeMachine exe exe' T moves r r' m m')
    (hExe : exe.Renumbers exe' T)
    (hFrames : m.frames = f :: rest)
    (hFrames' : m'.frames = f' :: rest')
    (hRoutines : Routine.Renumbers T r r')
    (hAction :
      Action.Via (SameSlot r.slots r'.slots) T action action')
    (cfg : Config)
    (site : Site) :
    LikeProgress exe exe' T (m.perform exe cfg r f site action)
      (m'.perform exe' cfg r' f' site action') := by
  have hContext := h.context hFrames hFrames' hRoutines
  cases hAction with
  | assign hPlace hSource =>
      exact h.assign hRoutines (hContext.copied_agree hPlace hSource) site
  | arith hPlace hLeft hRight | bit hPlace hLeft hRight =>
      exact h.assign hRoutines
        (hContext.computed_agree _ hPlace hLeft hRight) site
  | load hPlace hSlot hIndex =>
      exact h.assign hRoutines
        (hContext.loaded_agree hPlace hSlot hIndex) site
  | store hValue hSlot hIndex =>
      exact h.assign hRoutines
        (hContext.stored_agree hValue hSlot hIndex) site
  | goto target => exact .running (h.jump target)
  | @branch cond target lhs lhs' rhs rhs' hLeft hRight =>
      have hHolds := hContext.condition_agree cond hLeft hRight
      simp only [Machine.perform]
      generalize
        Context.condition ⟨r, f, m.memory⟩ cond lhs rhs = found at hHolds
      generalize
        Context.condition ⟨r', f', m'.memory⟩ cond lhs' rhs' = found'
          at hHolds
      cases hHolds with
      | error hCause => exact .failed h.console hCause
      | @ok holds _ hSame =>
          subst hSame
          cases holds with
          | true => exact .running (h.jump target)
          | false => exact .running h.advance
  | ret hValue =>
      cases hValue with
      | none => exact h.pop none
      | @some src src' hSource =>
          have hRead := hContext.read_agree hSource
          simp only [Machine.perform]
          generalize Context.read ⟨r, f, m.memory⟩ src = found at hRead
          generalize Context.read ⟨r', f', m'.memory⟩ src' = found'
            at hRead
          cases hRead with
          | error hCause => exact .failed h.console hCause
          | ok hSame =>
              subst hSame
              exact h.pop _
  | @call dest dest' callee callee' args args' hPlace hCallee hArgs =>
      have hCells := hContext.arguments_agree hArgs
      simp only [Machine.perform]
      generalize Context.arguments ⟨r, f, m.memory⟩ args = found at hCells
      generalize Context.arguments ⟨r', f', m'.memory⟩ args' = found'
        at hCells
      cases hCells with
      | error hCause => exact .failed h.console hCause
      | ok hCells =>
          cases hCallee with
          | routine hSame =>
              exact h.enter hExe hSame hCells hPlace cfg site
          | intrinsic i =>
              exact h.callIntrinsic hFrames hFrames' hRoutines hCells
                hPlace site i

/- Machines that are the same up to numbers keep in step. -/
theorem step
    (h : LikeMachine exe exe' T moves r r' m m')
    (hExe : exe.Renumbers exe' T)
    (cfg : Config) :
    LikeProgress exe exe' T (m.step exe cfg) (m'.step exe' cfg) := by
  rcases h.exists_cons with ⟨f, rest, f', rest', hf, hf', hFrame⟩
  have hStep := hFrame.renumbers.step_rel f.pc
  have hBudget : m.outOfBudget cfg = m'.outOfBudget cfg := by
    simp only [Machine.outOfBudget, h.console.steps]
  unfold Machine.step
  simp only [hf, hf', hFrame.routine, hFrame.routine', ← hFrame.pc,
    hBudget, hFrame.renumbers.name]
  generalize r.code[f.pc]? = st at hStep
  generalize r'.code[f.pc]? = st' at hStep
  cases hStep with
  | none => exact h.pop none
  | some hSame =>
      rcases hSame with ⟨hAction, hLine⟩
      dsimp only
      rw [hLine]
      cases m'.outOfBudget cfg with
      | some budget => exact .failed h.console fun _ => rfl
      | none =>
          exact h.tick.perform hExe hf hf' hFrame.renumbers hAction cfg _

end LikeMachine

------------------------------------------------------------
-- Runs
------------------------------------------------------------

/- Two runs end alike: with the same fault, if it is expected. -/
structure LikeOutcome
    {ω : Type}
    (outcome outcome' : Except Fault Unit × Machine ω) : Prop where
  result :
    Outcome.AgreeUpTo
      (fun e e' => e.site = e'.site ∧ e.cause.Alike e'.cause) Eq
      outcome.1 outcome'.1
  console : SameConsole outcome.2 outcome'.2

/- Both runs go on, or both end, after each number of rounds. -/
theorem LikeProgress.drive
    {ω : Type}
    [Sink ω]
    {p p' : Progress ω}
    (h : LikeProgress exe exe' T p p')
    (hExe : exe.Renumbers exe' T)
    (cfg : Config)
    (rounds : Nat) :
    Option.Rel LikeOutcome (p.drive exe cfg rounds)
      (p'.drive exe' cfg rounds) := by
  induction rounds generalizing p p' with
  | zero =>
      cases h with
      | running _ => exact .none
      | ended _ _ => exact .none
      | failed hConsole hCause =>
          exact .some ⟨.error ⟨rfl, hCause⟩, hConsole⟩
  | succ rounds ih =>
      cases h with
      | running hAlike => exact ih (hAlike.step hExe cfg)
      | ended hFrames hConsole =>
          simp only [Progress.drive, Machine.drive, Machine.step,
            hFrames.1, hFrames.2]
          exact .some ⟨.ok rfl, hConsole⟩
      | failed hConsole hCause =>
          exact .some ⟨.error ⟨rfl, hCause⟩, hConsole⟩

/- The first frames of both runs. -/
theorem Executable.Renumbers.enter_entry
    {ω : Type}
    (h : exe.Renumbers exe' T)
    (cfg : Config)
    (input : Input)
    (output : ω) :
    LikeProgress exe exe' T
      ((Machine.initial input output).enter exe cfg none exe.entry []
        none)
      ((Machine.initial input output).enter exe' cfg none exe'.entry []
        none) := by
  rcases h.admission h.entry cfg 0 0 none with
    ⟨q, q', hq, hq', hRoutines, ⟨hAdmitted, hAdmitted'⟩ | ⟨e, hRefused, hRefused'⟩⟩
  · rw [Machine.enter, Machine.enter]
    simp only [Machine.initial, Machine.depth, List.size_toArray,
      List.length_nil, hAdmitted, hAdmitted']
    exact .running
      ⟨.entry (.ofCall hq hq' hRoutines .nil none none 0 0),
        LikeMemory.empty.allocate hRoutines, rfl, rfl, rfl⟩
  · rw [Machine.enter, Machine.enter]
    simp only [Machine.initial, Machine.depth, List.size_toArray,
      List.length_nil, hRefused, hRefused']
    exact .failed ⟨rfl, rfl, rfl⟩ fun _ => rfl

/- Runs of both from the start end alike, or both go on. -/
theorem Executable.Renumbers.runEntry
    {ω : Type}
    [Sink ω]
    (h : exe.Renumbers exe' T)
    (cfg : Config)
    (rounds : Nat)
    (input : Input)
    (output : ω) :
    Option.Rel LikeOutcome
      (Machine.runEntry exe cfg rounds (.initial input output))
      (Machine.runEntry exe' cfg rounds (.initial input output)) :=
  (h.enter_entry cfg input output).drive h cfg rounds

end

end ThreeAddress
