import ThreeAddress.Proofs.AlikeCalls
import ThreeAddress.Proofs.ArrayMemory
import ThreeAddress.Proofs.CallEffect

/-
  This file shows that a call runs alike wherever it is made
  from. The arrays that are passed lie apart from each other
  or are one array, so that two calls of a routine with the
  same arguments start alike, with their locals at zero, and
  what follows from that is the same in both.

  Key definitions include:
    * `SameArguments`
    * `Relocation.ofArguments`
    * `Machine.Calls`, `Machine.LocalsZero`
    * `SameCourse`

  Main statements:
    * `Machine.Calls.apartBelow`
    * `SameArguments.alike`
    * `call_runs_alike_in_any_context`
-/

namespace ThreeAddress

------------------------------------------------------------
-- Arguments
------------------------------------------------------------

/- The arguments are one value, or arrays of the same values. -/
inductive SameArgument (memory memory' : Array Value) :
    Cell → Cell → Prop where
| scalar (v : Value) : SameArgument memory memory' (.scalar v) (.scalar v)
| array
    {base base' n : Nat}
    (elements : ∀ k, k < n → memory[base + k]? = memory'[base' + k]?) :
    SameArgument memory memory' (.array base n) (.array base' n)

/-
  The arguments of two calls are the same up to where arrays
  lie, and the same of them are one array.
-/
structure SameArguments
    (memory memory' : Array Value)
    (cells cells' : List Cell) : Prop where
  arguments : List.Forall₂ (SameArgument memory memory') cells cells'
  aliases :
    ∀ i j : Nat, cells[i]? = cells[j]? ↔ cells'[i]? = cells'[j]?

/-
  The arrays among some cells lie in front of a mark, and
  those that share an address are one array.
-/
structure ApartBelow (mark : Nat) (cells : List Cell) : Prop where
  below :
    ∀ {i base n : Nat},
      cells[i]? = some (.array base n) → base + n ≤ mark
  same :
    ∀ {i j address : Nat} {c d : Cell} {span span' : Span},
      cells[i]? = some c → c.span? = some span →
      cells[j]? = some d → d.span? = some span' →
      span.Contains address → span'.Contains address → span = span'

/- Arguments are moved element by element, the rest as a whole. -/
inductive MovedArgument
    (mark mark' : Nat)
    (cells cells' : List Cell) : Nat → Nat → Prop where
| behind (k : Nat) :
    MovedArgument mark mark' cells cells' (mark + k) (mark' + k)
| lent
    {i base base' n k : Nat}
    (cell : cells[i]? = some (.array base n))
    (cell' : cells'[i]? = some (.array base' n))
    (within : k < n) :
    MovedArgument mark mark' cells cells' (base + k) (base' + k)

namespace MovedArgument

variable {mark mark' : Nat} {cells cells' : List Cell}

theorem symm
    {a a' : Nat}
    (h : MovedArgument mark mark' cells cells' a a') :
    MovedArgument mark' mark cells' cells a' a := by
  cases h with
  | behind k => exact .behind k
  | lent hCell hCell' hWithin => exact .lent hCell' hCell hWithin

/- An address in front of the mark is that of an argument. -/
theorem lt_of_lt
    {a a' : Nat}
    (h : MovedArgument mark mark' cells cells' a a')
    (hApart' : ApartBelow mark' cells')
    (hBelow : a < mark) :
    a' < mark' := by
  cases h with
  | behind k => omega
  | lent _ hCell' hWithin =>
      have hEnd := hApart'.below hCell'
      omega

/- No address is moved to two. -/
theorem functional
    {a b a' b' : Nat}
    (hApart : ApartBelow mark cells)
    (hAliases : ∀ i j : Nat, cells[i]? = cells[j]? →
      cells'[i]? = cells'[j]?)
    (ha : MovedArgument mark mark' cells cells' a a')
    (hb : MovedArgument mark mark' cells cells' b b')
    (h : a = b) :
    a' = b' := by
  cases ha with
  | behind k =>
      cases hb with
      | behind l => omega
      | lent hCell _ _ =>
          have hEnd := hApart.below hCell
          omega
  | @lent i base base' n k hCell hCell' hWithin =>
      cases hb with
      | behind l =>
          have hEnd := hApart.below hCell
          omega
      | @lent j base₁ base₁' n₁ l hOther hOther' hWithin' =>
          -- Both elements lie in one array, passed at both positions.
          have hIn : Span.Contains ⟨base, n⟩ (base + k) :=
            ⟨Nat.le_add_right _ _, Nat.add_lt_add_left hWithin _⟩
          have hIn' : Span.Contains ⟨base₁, n₁⟩ (base + k) := by
            rw [h]
            exact ⟨Nat.le_add_right _ _, Nat.add_lt_add_left hWithin' _⟩
          have hSpan : (⟨base, n⟩ : Span) = ⟨base₁, n₁⟩ :=
            hApart.same hCell rfl hOther rfl hIn hIn'
          cases hSpan
          have hSame := hAliases i j (hCell.trans hOther.symm)
          rw [hCell', hOther'] at hSame
          cases hSame
          omega

end MovedArgument

/- The way in which the arguments of two calls are moved. -/
def Relocation.ofArguments
    {mark mark' : Nat}
    {cells cells' : List ThreeAddress.Cell}
    (hApart : ApartBelow mark cells)
    (hApart' : ApartBelow mark' cells')
    (hAliases : ∀ i j : Nat, cells[i]? = cells[j]? ↔
      cells'[i]? = cells'[j]?) : Relocation where
  mark := mark
  mark' := mark'
  Moves := MovedArgument mark mark' cells cells'
  unique ha hb :=
    ⟨ha.functional hApart (fun i j => (hAliases i j).mp) hb,
      ha.symm.functional hApart' (fun i j => (hAliases i j).mpr) hb.symm⟩
  behind k := .behind k
  apart ha := by
    have hLeft := ha.lt_of_lt hApart'
    have hRight := ha.symm.lt_of_lt hApart
    omega

/- The memories of two calls hold the same arguments. -/
theorem SameArguments.memory
    {memory memory' : Array Value}
    {cells cells' : List Cell}
    (hSame : SameArguments memory memory' cells cells')
    (hApart : ApartBelow memory.size cells)
    (hApart' : ApartBelow memory'.size cells') :
    (Relocation.ofArguments hApart hApart' hSame.aliases).Memory
      memory memory' := by
  constructor
  · exact ⟨0, rfl, rfl⟩
  · intro a a' hMoves
    cases hMoves with
    | behind k =>
        rw [Array.getElem?_eq_none (Nat.le_add_right _ _),
          Array.getElem?_eq_none (Nat.le_add_right _ _)]
    | @lent i base base' n k hCell hCell' hWithin =>
        rcases Outcome.exists_right hSame.arguments hCell with
          ⟨c, hOther, hArgument⟩
        rw [hCell'] at hOther
        cases hOther
        cases hArgument with
        | array hElements => exact hElements k hWithin

------------------------------------------------------------
-- The Start of a Call
------------------------------------------------------------

/- The running frame is about to call a routine. -/
def Machine.Calls
    {ω : Type}
    (exe : Executable)
    (index : Nat)
    (cells : List Cell)
    (m : Machine ω) : Prop :=
  ∃ f rest r dest args line,
    m.frames = f :: rest ∧
      exe.routines[f.routine]? = some r ∧
      r.code[f.pc]? = some ⟨.call dest (.routine index) args, line⟩ ∧
      Context.arguments ⟨r, f, m.memory⟩ args = .ok cells

/- The cell holds zero, or an array of zeros. -/
inductive Cell.IsZero (memory : Array Value) : Shape → Cell → Prop where
| scalar (t : Scalar) : IsZero memory (.scalar t) (.scalar (.zero t))
| array
    {t : Scalar}
    {base n : Nat}
    (elements : ∀ k, k < n → memory[base + k]? = some (.zero t)) :
    IsZero memory (.array t n) (.array base n)

/- All but the parameters of the running frame are zero. -/
def Machine.LocalsZero
    {ω : Type}
    (exe : Executable)
    (m : Machine ω) : Prop :=
  ∃ f rest r,
    m.frames = f :: rest ∧
      exe.routines[f.routine]? = some r ∧
      ∀ (id : Nat) (s : Slot),
        r.slots[id]? = some s →
        s.param = false →
          ∃ c, f.cells[id]? = some c ∧ c.IsZero m.memory s.shape

/- Whatever the memory holds, new arrays are zero. -/
theorem bindCells_isZero
    (slots : List Slot)
    (args : List Cell)
    (memory : Array Value) :
    List.Forall₂
      (fun s c => s.param = false →
        Cell.IsZero (slots.foldl allocateSlot memory) s.shape c)
      slots (bindCells slots args memory.size) := by
  induction slots generalizing args memory with
  | nil => exact .nil
  | cons s slots ih =>
      rw [List.foldl_cons, bindCells.eq_def]
      dsimp only
      by_cases hParam : s.param = true
      · have hSame : allocateSlot memory s = memory :=
          allocateSlot_of_ownedCells_eq_zero memory
            (by simp [Slot.ownedCells, hParam])
        have hVoid : ∀ c, s.param = false →
            Cell.IsZero (slots.foldl allocateSlot memory) s.shape c := by
          intro c hLocal
          rw [hParam] at hLocal
          cases hLocal
        rw [if_pos hParam, hSame]
        cases args with
        | nil => exact .cons (hVoid _) (ih [] memory)
        | cons arg args => exact .cons (hVoid _) (ih args memory)
      · rw [if_neg hParam]
        cases hShape : s.shape with
        | scalar t =>
            have hSame : allocateSlot memory s = memory :=
              allocateSlot_of_ownedCells_eq_zero memory
                (by simp [Slot.ownedCells, hShape])
            rw [hSame]
            exact .cons (fun _ => hShape ▸ .scalar t) (ih args memory)
        | array t n =>
            have hOwned : s.ownedCells = n := by
              simp [Slot.ownedCells, hParam, hShape]
            have hSize : (allocateSlot memory s).size = memory.size + n := by
              simp [allocateSlot, hOwned]
            have hRest := ih args (allocateSlot memory s)
            rw [hSize] at hRest
            refine .cons (fun _ => ?_) hRest
            rw [hShape]
            refine .array ?_
            intro k hk
            have hInside :
                memory.size + k < (allocateSlot memory s).size := by
              omega
            have hFront := getElem?_allocate (allocateSlot memory s)
              slots.toArray hInside
            rw [allocate_eq_foldl] at hFront
            rw [hFront, allocateSlot,
              Array.getElem?_append_right (by omega), hOwned, hShape,
              Array.getElem?_replicate]
            simp [hk, Shape.element]

section Start

variable {ω : Type}
variable {exe : Executable} {cfg : Config}
variable {m : Machine ω} {index : Nat} {cells : List Cell}

/- The arrays that a call passes belong to frames. -/
theorem Machine.Calls.mem_ownedSpans
    {c : Cell}
    {span : Span}
    (hExe : exe.WellTyped)
    (hTyped : m.Typed false exe)
    (hLaidOut : m.LaidOut exe cfg)
    (h : m.Calls exe index cells)
    (hCell : c ∈ cells)
    (hSpan : c.span? = some span) :
    span ∈ exe.ownedSpans m.frames := by
  rcases h with ⟨f, rest, r, dest, args, line, hFrames, hRoutine,
    hCode, hArguments⟩
  have hLayout := hLaidOut.layout
  unfold Machine.Typed at hTyped
  rw [hFrames] at hLayout hTyped ⊢
  rcases List.mem_iff_getElem?.mp hCell with ⟨k, hGet⟩
  rcases Outcome.exists_left (Outcome.mapM_eq_ok.mp hArguments) hGet with
    ⟨arg, hArg, hBinds⟩
  have hAction := hExe.action f.routine r f.pc _ hRoutine hCode
  cases hAction with
  | call _ hPasses _ =>
      rcases Outcome.exists_right hPasses hArg with ⟨shape, _, hPass⟩
      cases hPass with
      | value _ _ =>
          rcases Outcome.map_eq_ok.mp hBinds with ⟨v, _, rfl⟩
          cases hSpan
      | array hSlot hShape =>
          rcases hLayout.exists_owner hTyped hRoutine hSlot hShape with
            ⟨base, hArray, g, hg, hOwner⟩
          rcases Outcome.map_eq_ok.mp hBinds with
            ⟨⟨base', n'⟩, hFound, rfl⟩
          have hSame := Context.slotArray_eq_ok_iff.mp hFound
          dsimp only at hSame
          rw [hArray] at hSame
          cases hSame
          cases hSpan
          exact hOwner.mem_ownedSpans hg

/- The arrays that a call passes are one array, or lie apart. -/
theorem Machine.Calls.apartBelow
    (hExe : exe.WellTyped)
    (hTyped : m.Typed false exe)
    (hLaidOut : m.LaidOut exe cfg)
    (h : m.Calls exe index cells) :
    ApartBelow m.memory.size cells := by
  have hTiles := hLaidOut.layout.tiles
  have hOwned : ∀ {i : Nat} {c : Cell} {span : Span},
      cells[i]? = some c → c.span? = some span →
        span ∈ exe.ownedSpans m.frames := by
    intro i c span hGet hSpan
    exact h.mem_ownedSpans hExe hTyped hLaidOut
      (List.mem_of_getElem? hGet) hSpan
  constructor
  · intro i base n hGet
    exact hTiles.end_le_of_mem (hOwned hGet rfl)
  · intro i j address c d span span' hGet hSpan hGet' hSpan' hIn hIn'
    exact hTiles.eq_of_contains (hOwned hGet hSpan)
      (hOwned hGet' hSpan') hIn hIn'

/- The call is not over before it starts. -/
theorem Machine.callEnd?_length
    (exe : Executable)
    (m : Machine ω) :
    m.callEnd? exe m.frames.length = none :=
  if_neg (Nat.ne_of_lt (Nat.lt_succ_self _))

variable [Sink ω]

/- The first step that is followed is the call itself. -/
theorem Machine.follow_succ
    {entered : Machine ω}
    (hStep : m.step exe cfg = .running entered)
    (k : Nat) :
    m.follow exe cfg m.frames.length (k + 1) =
      entered.follow exe cfg m.frames.length k := by
  rw [Machine.follow, callEnd?_length, hStep]

/- A call that is not stopped from outside enters its callee. -/
theorem Machine.Calls.exists_entered
    (hExe : exe.WellTyped)
    (hBudget : cfg.budget = none)
    (h : m.Calls exe index cells)
    {k : Nat}
    (hLimits : ∀ e,
      (m.follow exe cfg m.frames.length (k + 1)).1 = .failed e →
        e.cause.isFromOutside = false) :
    ∃ entered, m.step exe cfg = .running entered := by
  rcases h with ⟨f, rest, r, dest, args, line, hFrames, hRoutine,
    hCode, hArguments⟩
  have hNoLimit : m.outOfBudget cfg = none := by
    simp [Machine.outOfBudget, hBudget]
  have hTick : Context.arguments ⟨r, f, m.tick.memory⟩ args =
      .ok cells := hArguments
  have hAction := hExe.action f.routine r f.pc _ hRoutine hCode
  cases hAction with
  | call hSignature _ _ =>
      cases hSignature with
      | routine hCallee =>
          have hStep : m.step exe cfg =
              m.tick.enter exe cfg (some ⟨r.name, line⟩) index cells
                dest := by
            unfold Machine.step
            simp only [hFrames, hRoutine, hCode, hNoLimit,
              Machine.perform, hTick]
          unfold Machine.enter at hStep
          rcases admission_of_routine cfg m.tick.depth
            m.tick.memory.size (some ⟨r.name, line⟩) hCallee with
            hOk | ⟨e, hError, hOutside⟩
          · rw [hOk] at hStep
            exact ⟨_, hStep⟩
          · rw [hError] at hStep
            have hInside := hLimits e (by
              rw [Machine.follow, callEnd?_length, hStep])
            rw [hOutside] at hInside
            cases hInside

/- The callee starts with its locals at zero. -/
theorem Machine.Calls.localsZero
    {entered : Machine ω}
    (h : m.Calls exe index cells)
    (hStep : m.step exe cfg = .running entered) :
    entered.LocalsZero exe := by
  rcases h with ⟨f, rest, r, dest, args, line, hFrames, hRoutine,
    hCode, _⟩
  rcases Machine.exists_entered_of_call hFrames hRoutine hCode hStep
    with ⟨cells', q, _, hCallee, rfl⟩
  refine ⟨_, _, q, rfl, hCallee, ?_⟩
  have hZero := bindCells_isZero q.slots.toList cells' m.memory
  rw [← allocate_eq_foldl] at hZero
  intro id s hSlot hLocal
  have hGet : q.slots.toList[id]? = some s := by
    simpa using hSlot
  rcases Outcome.exists_right hZero hGet with ⟨c, hCell, hIsZero⟩
  exact ⟨c, by simpa [Frame.ofCall] using hCell, hIsZero hLocal⟩

end Start

/-
  What two calls have come to is the same: how far they are,
  what is left to read, what they have written and counted,
  and what the arrays among their arguments hold.
-/
structure SameCourse
    {ω ω' : Type}
    [Sink ω]
    [Sink ω']
    (m : Machine ω)
    (m' : Machine ω')
    (cells cells' : List Cell)
    (course : CallStatus × Machine ω)
    (course' : CallStatus × Machine ω') : Prop where
  status : course.1 = course'.1
  input : course.2.input.SameRest course'.2.input
  output :
    ∃ chunks,
      course.2.output = Sink.emit m.output chunks ∧
        course'.2.output = Sink.emit m'.output chunks
  steps :
    ∃ n,
      course.2.steps = m.steps + n ∧ course'.2.steps = m'.steps + n
  arguments :
    SameArguments course.2.memory course'.2.memory cells cells'

section Courses

variable {ω ω' : Type} [Sink ω] [Sink ω']
variable {exe : Executable} {cfg cfg' : Config}
variable {index : Nat} {cells cells' : List Cell}
variable {m entered : Machine ω} {m' entered' : Machine ω'}

/- Two calls with the same arguments start alike. -/
theorem SameArguments.alike
    (hSame : SameArguments m.memory m'.memory cells cells')
    (hApart : ApartBelow m.memory.size cells)
    (hApart' : ApartBelow m'.memory.size cells')
    (hInput : m.input.SameRest m'.input)
    (hCalls : m.Calls exe index cells)
    (hCalls' : m'.Calls exe index cells')
    (hStep : m.step exe cfg = .running entered)
    (hStep' : m'.step exe cfg' = .running entered') :
    (Relocation.ofArguments hApart hApart' hSame.aliases).Alike m m'
      entered entered' := by
  have hCells : List.Forall₂
      (Relocation.ofArguments hApart hApart' hSame.aliases).Cell
      cells cells' := by
    apply Outcome.forall₂_of_getElem? hSame.arguments
    intro i c c' hCell hCell' hArgument
    cases hArgument with
    | scalar v => exact .scalar v
    | array _ =>
        exact .array fun k hk => MovedArgument.lent hCell hCell' hk
  have hMemory := hSame.memory hApart hApart'
  rcases hCalls with ⟨f, rest, r, dest, args, line, hFrames, hRoutine,
    hCode, hArguments⟩
  rcases hCalls' with ⟨f', rest', r', dest', args', line', hFrames',
    hRoutine', hCode', hArguments'⟩
  rcases Machine.exists_entered_of_call hFrames hRoutine hCode hStep
    with ⟨bound, q, hBound, hCallee, rfl⟩
  rcases Machine.exists_entered_of_call hFrames' hRoutine' hCode' hStep'
    with ⟨bound', q', hBound', hCallee', rfl⟩
  rw [hArguments] at hBound
  cases hBound
  rw [hArguments'] at hBound'
  cases hBound'
  rw [hCallee] at hCallee'
  cases hCallee'
  have hNew := Relocation.Cells.of_forall₂
    (Relocation.forall₂_bindCells q.slots.toList hCells hMemory.length)
  refine ⟨?_, hMemory.allocate q.slots, hInput, ⟨[], rfl, rfl⟩,
    ⟨1, rfl, rfl⟩⟩
  rw [hFrames, hFrames']
  exact .callee ⟨rfl, rfl, hNew⟩

/- Like machines hold the same arguments. -/
theorem SameArguments.sameCourse
    {course : CallStatus × Machine ω}
    {course' : CallStatus × Machine ω'}
    (hSame : SameArguments m.memory m'.memory cells cells')
    (hApart : ApartBelow m.memory.size cells)
    (hApart' : ApartBelow m'.memory.size cells')
    (hStatus : course.1 = course'.1)
    (h : (Relocation.ofArguments hApart hApart' hSame.aliases).Alike m m'
      course.2 course'.2) :
    SameCourse m m' cells cells' course course' := by
  refine ⟨hStatus, h.input, h.output, h.steps, ?_, hSame.aliases⟩
  apply Outcome.forall₂_of_getElem? hSame.arguments
  intro i c c' hCell hCell' hArgument
  cases hArgument with
  | scalar v => exact .scalar v
  | array _ =>
      refine .array ?_
      intro k hk
      exact h.memory.value (MovedArgument.lent hCell hCell' hk)

end Courses

/-
  A call runs alike wherever it is made from. Take machines
  of runs of a verified program, without a budget, that are
  about to call the same routine with the same arguments and
  the same left to read. After any number of steps in which
  neither call is stopped from outside, by the limits on
  calls and memory or by an output that fails, both calls are
  in progress, or have failed with the same fault, or return
  with the same value; they have counted as many steps and
  written the same output, the same is left to read, and the
  arrays that were passed hold the same values. The callee
  starts with its locals at zero.
-/
theorem call_runs_alike_in_any_context
    {p : Program}
    {exe : Executable}
    (hVerify : verify p = .ok exe)
    {ω ω' : Type}
    [Sink ω]
    [Sink ω']
    {cfg cfg' : Config}
    {input input' : Input}
    {output : ω}
    {output' : ω'}
    {m : Machine ω}
    {m' : Machine ω'}
    {index : Nat}
    {cells cells' : List Cell}
    (hReachable : Machine.Reachable exe cfg input output m)
    (hReachable' : Machine.Reachable exe cfg' input' output' m')
    (hCalls : m.Calls exe index cells)
    (hCalls' : m'.Calls exe index cells')
    (hSame : SameArguments m.memory m'.memory cells cells')
    (hInput : m.input.SameRest m'.input)
    (hBudget : cfg.budget = none)
    (hBudget' : cfg'.budget = none) :
    (∀ entered, m.step exe cfg = .running entered →
        entered.LocalsZero exe) ∧
      (∀ entered, m'.step exe cfg' = .running entered →
        entered.LocalsZero exe) ∧
      ∀ k,
        (∀ e, (m.follow exe cfg m.frames.length k).1 = .failed e →
          e.cause.isFromOutside = false) →
        (∀ e, (m'.follow exe cfg' m'.frames.length k).1 = .failed e →
          e.cause.isFromOutside = false) →
          SameCourse m m' cells cells'
            (m.follow exe cfg m.frames.length k)
            (m'.follow exe cfg' m'.frames.length k) := by
  have hExe := Executable.wellTyped_of_verify hVerify
  have hApart := hCalls.apartBelow hExe
    (Machine.Typed.of_reachable hExe hReachable)
    (Machine.LaidOut.of_reachable hExe hReachable)
  have hApart' := hCalls'.apartBelow hExe
    (Machine.Typed.of_reachable hExe hReachable')
    (Machine.LaidOut.of_reachable hExe hReachable')
  refine ⟨fun _ hStep => hCalls.localsZero hStep,
    fun _ hStep => hCalls'.localsZero hStep, ?_⟩
  intro k hLimits hLimits'
  cases k with
  | zero =>
      exact ⟨rfl, hInput, ⟨[], rfl, rfl⟩, ⟨0, rfl, rfl⟩, hSame⟩
  | succ k =>
      rcases hCalls.exists_entered hExe hBudget hLimits with
        ⟨entered, hStep⟩
      rcases hCalls'.exists_entered hExe hBudget' hLimits' with
        ⟨entered', hStep'⟩
      have hAlike := hSame.alike hApart hApart' hInput hCalls hCalls'
        hStep hStep'
      rw [Machine.follow_succ hStep] at hLimits ⊢
      rw [Machine.follow_succ hStep'] at hLimits' ⊢
      rcases hAlike.follow hBudget hBudget' k hLimits hLimits' with
        ⟨hStatus, hLast⟩
      exact hSame.sameCourse hApart hApart' hStatus hLast

/-
  A program that calls a routine directly, and from another
  one that has arrays of its own.
-/
def relaying : Program :=
  { functions :=
      [{ name := "note"
         returns := .value .int
         params := [⟨"x", .array .int 2⟩, ⟨"n", .scalar .int⟩]
         ints := [⟨"own", .int, some 1, 3⟩]
         floats := []
         code :=
           [⟨.store, [.var "n", .var "x", .int 0], 4⟩,
            ⟨.ret, [.element "own" (.const 0)], 5⟩]
         labels := []
         line := 2 },
       { name := "relay"
         returns := .void
         params := []
         ints := [⟨"pad", .int, some 3, 9⟩, ⟨"d", .int, some 2, 9⟩]
         floats := []
         code := [⟨.call, [.function "note", .var "d", .int 4], 10⟩]
         labels := []
         line := 8 },
       { name := "main"
         returns := .void
         params := []
         ints := [⟨"a", .int, some 2, 14⟩, ⟨"i", .int, none, 14⟩]
         floats := []
         code :=
           [⟨.callr, [.var "i", .function "note", .var "a", .int 4], 15⟩,
            ⟨.call, [.function "relay"], 16⟩]
         labels := []
         line := 13 }] }

/- The executable of the program. -/
def relayingExecutable : Executable :=
  { routines :=
      #[{ name := "note"
          returns := .value .int
          params := [0, 1]
          slots :=
            #[⟨"x", .array .int 2, true⟩,
              ⟨"n", .scalar .int, true⟩,
              ⟨"own", .array .int 1, false⟩]
          code :=
            #[⟨.store (.place (.slot 1)) 0 (.int 0), 4⟩,
              ⟨.ret (some (.place (.element 2 (.const 0)))), 5⟩]
          labels := [] },
        { name := "relay"
          returns := .void
          params := []
          slots :=
            #[⟨"pad", .array .int 3, false⟩,
              ⟨"d", .array .int 2, false⟩]
          code :=
            #[⟨.call none (.routine 0) [.array 1, .value (.int 4)], 10⟩]
          labels := [] },
        { name := "main"
          returns := .void
          params := []
          slots :=
            #[⟨"a", .array .int 2, false⟩,
              ⟨"i", .scalar .int, false⟩]
          code :=
            #[⟨.call (some (.slot 1)) (.routine 0)
                [.array 0, .value (.int 4)], 15⟩,
              ⟨.call none (.routine 1) [], 16⟩]
          labels := [] }]
    entry := 2 }

/- The first call comes from the first frame. -/
def directMachine : Machine Buffer :=
  quietMachine
    [{ routine := 2
       pc := 0
       cells := #[.array 0 2, .scalar (.int 0)]
       returnTo := none
       mark := 0
       below := 0 }]
    [0, 0] 0

/- The second call comes from a frame above it. -/
def relayedMachine : Machine Buffer :=
  quietMachine
    [{ routine := 1
       pc := 0
       cells := #[.array 2 3, .array 5 2]
       returnTo := none
       mark := 2
       below := 1 },
     { routine := 2
       pc := 1
       cells := #[.array 0 2, .scalar (.int 0)]
       returnTo := none
       mark := 0
       below := 0 }]
    [4, 0, 0, 0, 0, 0, 0] 4

theorem directMachine_reachable :
    Machine.Reachable relayingExecutable {} (Input.ofString "")
      Buffer.empty directMachine :=
  .start rfl

theorem relayedMachine_reachable :
    Machine.Reachable relayingExecutable {} (Input.ofString "")
      Buffer.empty relayedMachine :=
  .step (.step (.step (.step directMachine_reachable rfl) rfl) rfl) rfl

theorem relaying_sameArguments :
    SameArguments directMachine.memory relayedMachine.memory
      [.array 0 2, .scalar (.int 4)] [.array 5 2, .scalar (.int 4)] := by
  constructor
  · refine .cons (.array ?_) (.cons (.scalar _) .nil)
    intro k hk
    match k with
    | 0 => rfl
    | 1 => rfl
    | k + 2 => omega
  · intro i j
    rcases i with _ | _ | i <;> rcases j with _ | _ | j <;> simp

theorem relaying_calls_run_alike :
    verify relaying = .ok relayingExecutable ∧
      directMachine.Calls relayingExecutable 0
          [.array 0 2, .scalar (.int 4)] ∧
      relayedMachine.Calls relayingExecutable 0
          [.array 5 2, .scalar (.int 4)] ∧
      (directMachine.follow relayingExecutable {} 1 3).1 =
        .returned (some (.int 0)) ∧
      ∀ k,
        SameCourse directMachine relayedMachine
          [.array 0 2, .scalar (.int 4)] [.array 5 2, .scalar (.int 4)]
          (directMachine.follow relayingExecutable {} 1 k)
          (relayedMachine.follow relayingExecutable {} 2 k) := by
  have hVerify : verify relaying = .ok relayingExecutable := rfl
  have hCalls : directMachine.Calls relayingExecutable 0
      [.array 0 2, .scalar (.int 4)] :=
    ⟨_, _, _, _, _, _, rfl, rfl, rfl, rfl⟩
  have hCalls' : relayedMachine.Calls relayingExecutable 0
      [.array 5 2, .scalar (.int 4)] :=
    ⟨_, _, _, _, _, _, rfl, rfl, rfl, rfl⟩
  have hInside : ∀ k e,
      (directMachine.follow relayingExecutable {} 1 k).1 ≠ .failed e ∧
        (relayedMachine.follow relayingExecutable {} 2 k).1 ≠
          .failed e := by
    intro k e
    match k with
    | 0 => exact ⟨nofun, nofun⟩
    | 1 => exact ⟨nofun, nofun⟩
    | 2 => exact ⟨nofun, nofun⟩
    | k + 3 => exact ⟨nofun, nofun⟩
  rcases call_runs_alike_in_any_context hVerify
    directMachine_reachable relayedMachine_reachable hCalls hCalls'
    relaying_sameArguments rfl rfl rfl with ⟨_, _, hCourse⟩
  refine ⟨hVerify, hCalls, hCalls', rfl, ?_⟩
  intro k
  apply hCourse k
  · intro e h
    exact absurd h (hInside k e).1
  · intro e h
    exact absurd h (hInside k e).2

end ThreeAddress
