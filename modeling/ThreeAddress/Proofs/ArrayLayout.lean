import ThreeAddress.Proofs.Preservation

/-
  This file describes how the frames of a run share the array
  memory. A frame owns the arrays that its routine declares,
  one behind the other from the frame's mark on, and borrows
  the arrays of its parameters from frames below it. Calls
  put the arrays of the callee behind all others and returns
  take them off again, so that the frames stay laid out in
  the memory one behind the other.

  Key definitions include:
    * `Span`, `Tiles`
    * `Frame.ownedSpans`, `Executable.ownedSpans`
    * `Executable.ownedCells`
    * `Frame.Declares`, `Frame.BorrowsFrom`
    * `StackLaidOut`

  Main statements:
    * `tiles_bindCells`
    * `forall_mem_bindCells`, `Context.forall_mem_arguments`
    * `StackLaidOut.exists_owner`
    * `StackLaidOut.of_transition`
-/

namespace ThreeAddress

------------------------------------------------------------
-- Spans of the Memory
------------------------------------------------------------

/- A stretch of the memory. -/
structure Span where
  base : Nat
  length : Nat
deriving DecidableEq

namespace Span

/- The address lies in the span. -/
def Contains (s : Span) (address : Nat) : Prop :=
  s.base ≤ address ∧ address < s.base + s.length

/- No address lies in both spans. -/
def Disjoint (s t : Span) : Prop :=
  ∀ address, s.Contains address → ¬ t.Contains address

end Span

/- The spans lie one behind the other between two addresses. -/
def Tiles : Nat → List Span → Nat → Prop
| start, [], stop => start = stop
| start, s :: spans, stop =>
    s.base = start ∧ Tiles (start + s.length) spans stop

namespace Tiles

variable {start middle stop : Nat} {spans more : List Span}

theorem le
    (h : Tiles start spans stop) :
    start ≤ stop := by
  induction spans generalizing start with
  | nil => exact Nat.le_of_eq h
  | cons s spans ih =>
      have hRest := ih h.2
      omega

theorem append
    (h : Tiles start spans middle)
    (hMore : Tiles middle more stop) :
    Tiles start (spans ++ more) stop := by
  induction spans generalizing start with
  | nil =>
      cases h
      exact hMore
  | cons s spans ih => exact ⟨h.1, ih h.2⟩

theorem end_le_of_mem
    {s : Span}
    (h : Tiles start spans stop)
    (hs : s ∈ spans) :
    s.base + s.length ≤ stop := by
  induction spans generalizing start with
  | nil => cases hs
  | cons u spans ih =>
      rcases h with ⟨hBase, hRest⟩
      rcases List.mem_cons.mp hs with rfl | hsRest
      · rw [hBase]
        exact hRest.le
      · exact ih hRest hsRest

/- The spans cover what lies between the two addresses. -/
theorem contains_iff
    (h : Tiles start spans stop)
    (address : Nat) :
    (start ≤ address ∧ address < stop) ↔
      ∃ s ∈ spans, s.Contains address := by
  induction spans generalizing start with
  | nil =>
      cases h
      constructor
      · omega
      · rintro ⟨s, hs, _⟩
        cases hs
  | cons s spans ih =>
      rcases h with ⟨hBase, hRest⟩
      have hLe := hRest.le
      have hCover := ih hRest
      rw [List.exists_mem_cons_iff, ← hCover]
      simp only [Span.Contains]
      omega

/- No two of the spans share an address. -/
theorem pairwise_disjoint
    (h : Tiles start spans stop) :
    spans.Pairwise Span.Disjoint := by
  induction spans generalizing start with
  | nil => exact .nil
  | cons s spans ih =>
      rcases h with ⟨hBase, hRest⟩
      refine .cons ?_ (ih hRest)
      intro t ht address hs hIn
      have hBehind := (hRest.contains_iff address).mpr ⟨t, ht, hIn⟩
      simp only [Span.Contains] at hs
      omega

/- Spans that share an address are the same. -/
theorem eq_of_contains
    {s u : Span}
    {address : Nat}
    (h : Tiles start spans stop)
    (hs : s ∈ spans)
    (hu : u ∈ spans)
    (hIn : s.Contains address)
    (hIn' : u.Contains address) :
    s = u := by
  induction spans generalizing start with
  | nil => cases hs
  | cons v spans ih =>
      rcases h with ⟨hBase, hRest⟩
      have hBehind := hRest.contains_iff address
      rcases List.mem_cons.mp hs with rfl | hsRest
      · rcases List.mem_cons.mp hu with rfl | huRest
        · rfl
        · have hAfter := hBehind.mpr ⟨u, huRest, hIn'⟩
          simp only [Span.Contains] at hIn
          omega
      · rcases List.mem_cons.mp hu with rfl | huRest
        · have hAfter := hBehind.mpr ⟨s, hsRest, hIn⟩
          simp only [Span.Contains] at hIn'
          omega
        · exact ih hRest hsRest huRest

end Tiles

------------------------------------------------------------
-- Arrays of Frames
------------------------------------------------------------

/- The span that a cell refers to, if it is an array. -/
def Cell.span? : Cell → Option Span
| .scalar _ => none
| .array base length => some ⟨base, length⟩

/- The span of a slot's cell, if the slot is no parameter. -/
def Slot.ownedSpan? (s : Slot) (c : Cell) : Option Span :=
  if s.param then none else c.span?

/- The spans of the arrays that a frame owns, slot by slot. -/
def Frame.ownedSpans (r : Routine) (f : Frame) : List Span :=
  (List.zipWith Slot.ownedSpan? r.slots.toList
    f.cells.toList).filterMap id

/- The frame owns an array of a type. -/
def Frame.Declares
    (exe : Executable)
    (t : Scalar)
    (span : Span)
    (f : Frame) : Prop :=
  ∃ (r : Routine) (id : Nat) (s : Slot),
    exe.routines[f.routine]? = some r ∧
      r.slots[id]? = some s ∧
      s.param = false ∧
      s.shape = .array t span.length ∧
      f.cells[id]? = some (.array span.base span.length)

/-
  The cell may be bound to a parameter: one that is an array
  takes an array of its type and length that a frame owns.
-/
def Cell.LentBy
    (exe : Executable)
    (frames : List Frame)
    (s : Slot)
    (c : Cell) : Prop :=
  ∀ t n, s.shape = .array t n →
    ∃ base,
      c = .array base n ∧
        ∃ g ∈ frames, g.Declares exe t ⟨base, n⟩

/- The array of each parameter is one that a frame below owns. -/
def Frame.BorrowsFrom
    (exe : Executable)
    (r : Routine)
    (below : List Frame)
    (f : Frame) : Prop :=
  ∀ (id : Nat) (s : Slot) (t : Scalar) (n : Nat),
    r.slots[id]? = some s →
    s.param = true →
    s.shape = .array t n →
      ∃ base,
        f.cells[id]? = some (.array base n) ∧
          ∃ g ∈ below, g.Declares exe t ⟨base, n⟩

namespace Executable

/- The cells of memory that a frame owns. -/
def frameCells (exe : Executable) (f : Frame) : Nat :=
  match exe.routines[f.routine]? with
  | some r => r.ownedCells
  | none => 0

/- The cells of memory that frames own together. -/
def ownedCells (exe : Executable) : List Frame → Nat
| [] => 0
| f :: below => exe.ownedCells below + exe.frameCells f

/- The spans of all arrays of the frames, the lowest first. -/
def ownedSpans (exe : Executable) : List Frame → List Span
| [] => []
| f :: below =>
    exe.ownedSpans below ++
      match exe.routines[f.routine]? with
      | some r => f.ownedSpans r
      | none => []

end Executable

/-
  The frames lie one behind the other in the memory up to a
  limit, each with its arrays from its mark on, and count the
  frames below them.
-/
def StackLaidOut (exe : Executable) : Nat → List Frame → Prop
| limit, [] => limit = 0
| limit, f :: below =>
    (∃ r,
      exe.routines[f.routine]? = some r ∧
        f.mark + r.ownedCells = limit ∧
        Tiles f.mark (f.ownedSpans r) limit ∧
        f.BorrowsFrom exe r below) ∧
    f.below = below.length ∧
    StackLaidOut exe f.mark below

namespace StackLaidOut

variable {exe : Executable} {limit : Nat} {frames : List Frame}

/- The limit is the number of the cells that are owned. -/
theorem limit_eq
    (h : StackLaidOut exe limit frames) :
    limit = exe.ownedCells frames := by
  induction frames generalizing limit with
  | nil => exact h
  | cons f below ih =>
      rcases h with ⟨⟨r, hRoutine, hSize, _, _⟩, _, hBelow⟩
      have hCells : exe.frameCells f = r.ownedCells := by
        simp [Executable.frameCells, hRoutine]
      rw [Executable.ownedCells, ← ih hBelow, hCells]
      exact hSize.symm

/- The arrays of the frames make up the memory. -/
theorem tiles
    (h : StackLaidOut exe limit frames) :
    Tiles 0 (exe.ownedSpans frames) limit := by
  induction frames generalizing limit with
  | nil => exact Eq.symm h
  | cons f below ih =>
      rcases h with ⟨⟨r, hRoutine, _, hTiles, _⟩, _, hBelow⟩
      simp only [Executable.ownedSpans, hRoutine]
      exact (ih hBelow).append hTiles

/- The frames from some frame on downwards are laid out. -/
theorem suffix
    {lower : List Frame}
    (h : StackLaidOut exe limit frames)
    (hLower : lower <:+ frames) :
    ∃ limit', StackLaidOut exe limit' lower := by
  induction frames generalizing limit with
  | nil =>
      rw [List.suffix_nil] at hLower
      subst hLower
      exact ⟨limit, h⟩
  | cons f below ih =>
      rcases List.suffix_cons_iff.mp hLower with rfl | hBelow
      · exact ⟨limit, h⟩
      · exact ih h.2.2 hBelow

end StackLaidOut

/- An array that some frame owns is among those of all. -/
theorem Frame.Declares.mem_ownedSpans
    {exe : Executable}
    {t : Scalar}
    {span : Span}
    {frames : List Frame}
    {f : Frame}
    (hf : f ∈ frames)
    (h : f.Declares exe t span) :
    span ∈ exe.ownedSpans frames := by
  induction frames with
  | nil => cases hf
  | cons g below ih =>
      rw [Executable.ownedSpans, List.mem_append]
      rcases List.mem_cons.mp hf with rfl | hBelow
      · refine .inr ?_
        rcases h with ⟨r, id, s, hRoutine, hSlot, hLocal, _, hCell⟩
        simp only [hRoutine]
        rw [Frame.ownedSpans, List.mem_filterMap]
        refine ⟨some span, List.mem_of_getElem? (i := id) ?_, rfl⟩
        simp [List.getElem?_zipWith, hSlot, hCell,
          Slot.ownedSpan?, hLocal, Cell.span?]
      · exact .inl (ih hBelow)

------------------------------------------------------------
-- Frames in the Same Call
------------------------------------------------------------

/- The frames belong to one call: only values may differ. -/
structure Frame.SameCall (f g : Frame) : Prop where
  routine : g.routine = f.routine
  mark : g.mark = f.mark
  below : g.below = f.below
  spans : g.cells.map Cell.span? = f.cells.map Cell.span?

namespace Frame.SameCall

variable {exe : Executable} {f g : Frame}

theorem move
    (f : Frame)
    (pc : Nat) :
    SameCall f { f with pc } :=
  ⟨rfl, rfl, rfl, rfl⟩

/- A write keeps a frame in its call. -/
theorem write
    {r : Routine}
    {memory : Array Value}
    {v w : Value}
    {t : Target}
    (h : Context.Locates ⟨r, f, memory⟩ v t w) :
    SameCall f (t.frame w f).next := by
  cases h with
  | memory _ _ _ _ _ => exact ⟨rfl, rfl, rfl, rfl⟩
  | @cell id s old w _ hCell _ =>
      refine ⟨rfl, rfl, rfl, ?_⟩
      have hSpan : (f.cells.map Cell.span?)[id]? = some none := by
        simp [hCell, Cell.span?]
      apply Array.ext_getElem?
      intro i
      simp only [Target.frame, Frame.next, Array.map_setIfInBounds]
      by_cases hSame : id = i
      · subst hSame
        rw [hSpan]
        have hBound := (Array.getElem?_eq_some_iff.mp hSpan).1
        rw [Array.getElem?_setIfInBounds_self_of_lt hBound]
        rfl
      · rw [Array.getElem?_setIfInBounds_ne hSame]

theorem getElem?_array_iff
    (h : SameCall f g)
    {id base n : Nat} :
    g.cells[id]? = some (.array base n) ↔
      f.cells[id]? = some (.array base n) := by
  have hSpan : ∀ k : Frame,
      k.cells[id]? = some (.array base n) ↔
        (k.cells.map Cell.span?)[id]? = some (some ⟨base, n⟩) := by
    intro k
    rw [Array.getElem?_map]
    cases k.cells[id]? with
    | none => simp
    | some c => cases c <;> simp [Cell.span?]
  rw [hSpan, hSpan, h.spans]

theorem ownedSpans
    (h : SameCall f g)
    (r : Routine) :
    g.ownedSpans r = f.ownedSpans r := by
  have hSpans : ∀ k : Frame,
      k.ownedSpans r =
        (List.zipWith
          (fun (s : Slot) span => if s.param then none else span)
          r.slots.toList (k.cells.map Cell.span?).toList).filterMap
          id := by
    intro k
    rw [Array.toList_map, List.zipWith_map_right]
    rfl
  rw [hSpans, hSpans, h.spans]

theorem borrowsFrom
    {r : Routine}
    {below : List Frame}
    (h : SameCall f g)
    (hBorrows : f.BorrowsFrom exe r below) :
    g.BorrowsFrom exe r below := by
  intro id s t n hSlot hParam hShape
  rcases hBorrows id s t n hSlot hParam hShape with
    ⟨base, hCell, hOwner⟩
  exact ⟨base, h.getElem?_array_iff.mpr hCell, hOwner⟩

end Frame.SameCall

/- A stack stays laid out while its first frame is in its call. -/
theorem StackLaidOut.sameCall
    {exe : Executable}
    {limit : Nat}
    {f g : Frame}
    {below : List Frame}
    (hLaidOut : StackLaidOut exe limit (f :: below))
    (h : f.SameCall g) :
    StackLaidOut exe limit (g :: below) := by
  rcases hLaidOut with
    ⟨⟨r, hRoutine, hSize, hTiles, hBorrows⟩, hCount, hBelow⟩
  refine ⟨⟨r, ?_, ?_, ?_, h.borrowsFrom hBorrows⟩, ?_, ?_⟩
  · rw [h.routine, hRoutine]
  · rw [h.mark, hSize]
  · rw [h.mark, h.ownedSpans]
    exact hTiles
  · rw [h.below, hCount]
  · rw [h.mark]
    exact hBelow

------------------------------------------------------------
-- New Frames
------------------------------------------------------------

/- The cells of memory that a frame needs for some slots. -/
def slotCells : List Slot → Nat
| [] => 0
| s :: slots => s.ownedCells + slotCells slots

theorem Routine.ownedCells_eq
    (r : Routine) :
    r.ownedCells = slotCells r.slots.toList := by
  have hFold : ∀ (slots : List Slot) (n : Nat),
      slots.foldl (fun n s => n + s.ownedCells) n =
        n + slotCells slots := by
    intro slots
    induction slots with
    | nil =>
        intro n
        rfl
    | cons s slots ih =>
        intro n
        rw [List.foldl_cons, ih, slotCells, Nat.add_assoc]
  rw [Routine.ownedCells, ← Array.foldl_toList, hFold, Nat.zero_add]

/- Allocation adds the cells that a routine owns. -/
theorem size_allocate
    (memory : Array Value)
    (r : Routine) :
    (allocate memory r.slots).size = memory.size + r.ownedCells := by
  have hFold : ∀ (slots : List Slot) (memory : Array Value),
      (slots.foldl allocateSlot memory).size =
        memory.size + slotCells slots := by
    intro slots
    induction slots with
    | nil =>
        intro memory
        rfl
    | cons s slots ih =>
        intro memory
        rw [List.foldl_cons, ih, slotCells, ← Nat.add_assoc]
        simp [allocateSlot]
  rw [allocate_eq_foldl, hFold, Routine.ownedCells_eq]

/- The arrays of a new frame lie one behind the other. -/
theorem tiles_bindCells
    (slots : List Slot)
    (args : List Cell)
    (base : Nat) :
    Tiles base
      ((List.zipWith Slot.ownedSpan? slots
        (bindCells slots args base)).filterMap id)
      (base + slotCells slots) := by
  induction slots generalizing args base with
  | nil => exact rfl
  | cons s slots ih =>
      rw [bindCells.eq_def, slotCells]
      dsimp only
      by_cases hParam : s.param = true
      · -- A parameter owns nothing, whatever it is bound to.
        have hNone : ∀ c, s.ownedSpan? c = none := by
          intro c
          simp [Slot.ownedSpan?, hParam]
        have hOwned : s.ownedCells = 0 := by
          simp [Slot.ownedCells, hParam]
        rw [if_pos hParam, hOwned, Nat.zero_add]
        cases args with
        | nil =>
            simp only [List.zipWith_cons_cons, hNone]
            exact ih [] base
        | cons arg args =>
            simp only [List.zipWith_cons_cons, hNone]
            exact ih args base
      · have hSpan : ∀ c, s.ownedSpan? c = c.span? := by
          intro c
          simp [Slot.ownedSpan?, hParam]
        rw [if_neg hParam]
        cases hShape : s.shape with
        | scalar t =>
            have hOwned : s.ownedCells = 0 := by
              simp [Slot.ownedCells, hShape]
            simp only [List.zipWith_cons_cons, hSpan]
            rw [hOwned, Nat.zero_add]
            exact ih args base
        | array t n =>
            have hOwned : s.ownedCells = n := by
              simp [Slot.ownedCells, hParam, hShape]
            simp only [List.zipWith_cons_cons, hSpan]
            rw [hOwned, ← Nat.add_assoc]
            exact ⟨rfl, ih args (base + n)⟩

/- A new frame has a cell for each slot. -/
theorem length_bindCells
    (slots : List Slot)
    (args : List Cell)
    (base : Nat) :
    (bindCells slots args base).length = slots.length := by
  induction slots generalizing args base with
  | nil => rfl
  | cons s slots ih =>
      rw [bindCells.eq_def]
      dsimp only
      split
      · cases args with
        | nil => exact congrArg (· + 1) (ih [] base)
        | cons arg args => exact congrArg (· + 1) (ih args base)
      · split
        · exact congrArg (· + 1) (ih args base)
        · exact congrArg (· + 1) (ih args _)

/-
  The cells of a new frame are values, its arguments, and
  arrays behind the base.
-/
theorem forall_mem_bindCells
    {P : Cell → Prop}
    {slots : List Slot}
    {args : List Cell}
    {base : Nat}
    (hValue : ∀ v, P (.scalar v))
    (hArgs : ∀ c ∈ args, P c)
    (hOwn : ∀ start n, base ≤ start →
      start + n ≤ base + slotCells slots → P (.array start n)) :
    ∀ c ∈ bindCells slots args base, P c := by
  induction slots generalizing args base with
  | nil => nofun
  | cons s slots ih =>
      rw [slotCells] at hOwn
      have hRest : ∀ start n, base + s.ownedCells ≤ start →
          start + n ≤ base + s.ownedCells + slotCells slots →
            P (.array start n) := by
        intro start n hStart hStop
        exact hOwn start n (by omega) (by omega)
      rw [bindCells.eq_def]
      dsimp only
      by_cases hParam : s.param = true
      · have hOwned : s.ownedCells = 0 := by
          simp [Slot.ownedCells, hParam]
        rw [hOwned] at hRest
        rw [if_pos hParam]
        cases args with
        | nil =>
            rw [List.forall_mem_cons]
            exact ⟨hValue _, ih hArgs hRest⟩
        | cons arg args =>
            rw [List.forall_mem_cons] at hArgs ⊢
            exact ⟨hArgs.1, ih hArgs.2 hRest⟩
      · rw [if_neg hParam]
        cases hShape : s.shape with
        | scalar t =>
            have hOwned : s.ownedCells = 0 := by
              simp [Slot.ownedCells, hShape]
            rw [hOwned] at hRest
            rw [List.forall_mem_cons]
            exact ⟨hValue _, ih hArgs hRest⟩
        | array t n =>
            have hOwned : s.ownedCells = n := by
              simp [Slot.ownedCells, hParam, hShape]
            rw [hOwned] at hOwn hRest
            rw [List.forall_mem_cons]
            exact ⟨hOwn base n (Nat.le_refl _) (by omega),
              ih hArgs hRest⟩

/- The arguments of a call are values, and arrays of its frame. -/
theorem Context.forall_mem_arguments
    {P : Cell → Prop}
    {x : Context}
    {args : List Argument}
    {cells : List Cell}
    (hValue : ∀ v, P (.scalar v))
    (hFrame : ∀ c ∈ x.frame.cells, P c)
    (h : x.arguments args = .ok cells) :
    ∀ c ∈ cells, P c := by
  have hCells := Outcome.mapM_eq_ok.mp h
  intro c hc
  rcases List.mem_iff_getElem?.mp hc with ⟨k, hGet⟩
  rcases Outcome.exists_left hCells hGet with ⟨arg, _, hArg⟩
  cases arg with
  | value src =>
      rcases Outcome.map_eq_ok.mp hArg with ⟨v, _, rfl⟩
      exact hValue v
  | array id =>
      rcases Outcome.map_eq_ok.mp hArg with
        ⟨⟨base, length⟩, hArray, rfl⟩
      exact hFrame _
        (Array.mem_of_getElem? (slotArray_eq_ok_iff.mp hArray))

/- What holds of the arguments holds of the parameters' cells. -/
theorem forall₂_bindCells
    {P : Slot → Cell → Prop}
    {slots : List Slot}
    {args : List Cell}
    (base : Nat)
    (hArgs :
      List.Forall₂ (fun c s => P s c) args
        (slots.filter Slot.param)) :
    List.Forall₂ (fun s c => s.param = true → P s c)
      slots (bindCells slots args base) := by
  induction slots generalizing args base with
  | nil => exact .nil
  | cons s slots ih =>
      rw [bindCells.eq_def]
      dsimp only
      by_cases hParam : s.param = true
      · rw [if_pos hParam]
        rw [List.filter_cons_of_pos hParam] at hArgs
        cases hArgs with
        | cons hHead hTail =>
            exact .cons (fun _ => hHead) (ih base hTail)
      · rw [if_neg hParam]
        rw [List.filter_cons_of_neg hParam] at hArgs
        have hVoid : ∀ c, s.param = true → P s c :=
          fun _ h => absurd h hParam
        cases s.shape with
        | scalar t => exact .cons (hVoid _) (ih base hArgs)
        | array t n => exact .cons (hVoid _) (ih (base + n) hArgs)

section Calls

variable {exe : Executable} {cfg : Config}
variable {r : Routine} {f : Frame} {rest : List Frame}
variable {memory : Array Value}

/- The cell of a typed frame's array is an array of its length. -/
theorem Frame.Typed.exists_array
    {strict : Bool}
    {limit id n : Nat}
    {s : Slot}
    {t : Scalar}
    (h : f.Typed strict memory limit r)
    (hSlot : r.slots[id]? = some s)
    (hShape : s.shape = .array t n) :
    ∃ base, f.cells[id]? = some (.array base n) := by
  rcases h.cell id s hSlot with ⟨c, hCell, hFits⟩
  cases hFits with
  | scalar hShape' _ =>
      rw [hShape] at hShape'
      cases hShape'
  | array hShape' _ _ =>
      rw [hShape] at hShape'
      cases hShape'
      exact ⟨_, hCell⟩

/- Each array of the first frame is one that some frame owns. -/
theorem StackLaidOut.exists_owner
    {strict : Bool}
    {limit id n : Nat}
    {s : Slot}
    {t : Scalar}
    (hLaidOut : StackLaidOut exe limit (f :: rest))
    (hTyped : StackTyped strict exe memory limit (f :: rest))
    (hRoutine : exe.routines[f.routine]? = some r)
    (hSlot : r.slots[id]? = some s)
    (hShape : s.shape = .array t n) :
    ∃ base,
      f.cells[id]? = some (.array base n) ∧
        ∃ g ∈ f :: rest, g.Declares exe t ⟨base, n⟩ := by
  by_cases hParam : s.param = true
  · -- An array that is passed on keeps its owner.
    rcases hLaidOut with ⟨⟨q, hRoutine', _, _, hBorrows⟩, _, _⟩
    rw [hRoutine] at hRoutine'
    cases hRoutine'
    rcases hBorrows id s t n hSlot hParam hShape with
      ⟨base, hCell, g, hg, hOwner⟩
    exact ⟨base, hCell, g, List.mem_cons_of_mem f hg, hOwner⟩
  · have hLocal : s.param = false := by simpa using hParam
    rcases hTyped with ⟨⟨q, hRoutine', hFrame, _⟩, _, _⟩
    rw [hRoutine] at hRoutine'
    cases hRoutine'
    rcases hFrame.exists_array hSlot hShape with ⟨base, hCell⟩
    exact ⟨base, hCell, f, List.mem_cons_self,
      r, id, s, hRoutine, hSlot, hLocal, hShape, hCell⟩

/- The arrays that a call passes are such arrays. -/
theorem StackLaidOut.lentBy
    {strict : Bool}
    {limit : Nat}
    {args : List Argument}
    {cells : List Cell}
    {params : List Slot}
    (hLaidOut : StackLaidOut exe limit (f :: rest))
    (hTyped : StackTyped strict exe memory limit (f :: rest))
    (hRoutine : exe.routines[f.routine]? = some r)
    (hPasses :
      List.Forall₂ (Argument.Passes r.slots) args
        (params.map Slot.shape))
    (hArguments : Context.arguments ⟨r, f, memory⟩ args = .ok cells) :
    List.Forall₂ (fun c s => Cell.LentBy exe (f :: rest) s c)
      cells params := by
  have hCells := Outcome.mapM_eq_ok.mp hArguments
  rw [List.forall₂_map_right_iff] at hPasses
  clear hArguments
  -- Arguments, cells and parameters run through their lists together.
  induction hCells generalizing params with
  | nil =>
      cases hPasses
      exact .nil
  | @cons arg c args cells hCell _ ih =>
      cases hPasses with
      | @cons _ s _ params hPass hPasses =>
          refine .cons ?_ (ih hPasses)
          intro t n hShape
          rw [hShape] at hPass
          cases hPass with
          | @array id s' _ _ hSlot hSame =>
              rcases hLaidOut.exists_owner hTyped hRoutine hSlot hSame
                with ⟨base, hArray, hOwner⟩
              have hFound : Context.slotArray ⟨r, f, memory⟩ id =
                  .ok (base, n) :=
                Context.slotArray_eq_ok_iff.mpr hArray
              simp only [Context.argument, hFound, Except.map] at hCell
              cases hCell
              exact ⟨base, rfl, hOwner⟩

/- A call puts the arrays of the callee behind all others. -/
theorem StackLaidOut.call
    {strict : Bool}
    {line index : Nat}
    {dest : Option Place}
    {args : List Argument}
    {cells : List Cell}
    {q : Routine}
    (hExe : exe.WellTyped)
    (hLaidOut : StackLaidOut exe memory.size (f :: rest))
    (hTyped : StackTyped strict exe memory memory.size (f :: rest))
    (hRoutine : exe.routines[f.routine]? = some r)
    (hStep : r.code[f.pc]? =
      some ⟨.call dest (.routine index) args, line⟩)
    (hArguments : Context.arguments ⟨r, f, memory⟩ args = .ok cells)
    (hCallee : exe.routines[index]? = some q) :
    StackLaidOut exe (allocate memory q.slots).size
      (Frame.ofCall index q cells dest memory.size (f.below + 1) ::
        f :: rest) := by
  have hLent :
      List.Forall₂ (fun c s => Cell.LentBy exe (f :: rest) s c)
        cells (q.slots.toList.filter Slot.param) := by
    have hAction := hExe.action f.routine r f.pc _ hRoutine hStep
    cases hAction with
    | call hSignature hPasses _ =>
        cases hSignature with
        | @routine _ q' hCallee' =>
            rw [hCallee] at hCallee'
            cases hCallee'
            exact hLaidOut.lentBy hTyped hRoutine hPasses hArguments
  have hCells := forall₂_bindCells memory.size hLent
  have hTiles := tiles_bindCells q.slots.toList cells memory.size
  rw [← Routine.ownedCells_eq] at hTiles
  rw [size_allocate]
  refine ⟨⟨q, hCallee, rfl, hTiles, ?_⟩, ?_, hLaidOut⟩
  · intro id s t n hSlot hParam hShape
    have hGet : q.slots.toList[id]? = some s := by
      simpa using hSlot
    rcases Outcome.exists_right hCells hGet with ⟨c, hCell, hBound⟩
    rcases hBound hParam t n hShape with ⟨base, rfl, hOwner⟩
    exact ⟨base, by simpa [Frame.ofCall] using hCell, hOwner⟩
  · have hCount := hLaidOut.2.1
    simp [Frame.ofCall, hCount]

theorem size_shrink_le
    (memory : Array Value)
    (mark : Nat) :
    (memory.shrink mark).size ≤ memory.size := by
  rw [Array.size_shrink]
  exact Nat.min_le_right _ _

/- The frames below a frame that ends stay laid out. -/
theorem StackLaidOut.shrink
    (hLaidOut : StackLaidOut exe memory.size (f :: rest)) :
    StackLaidOut exe (memory.shrink f.mark).size rest := by
  rcases hLaidOut with ⟨⟨_, _, hSize, _, _⟩, _, hBelow⟩
  have hShrunk : (memory.shrink f.mark).size = f.mark := by
    rw [Array.size_shrink]
    omega
  rw [hShrunk]
  exact hBelow

/- A transition keeps the stack laid out. -/
theorem StackLaidOut.of_transition
    {strict : Bool}
    {frames : List Frame}
    {memory' : Array Value}
    (hExe : exe.WellTyped)
    (hRoutine : exe.routines[f.routine]? = some r)
    (hLaidOut : StackLaidOut exe memory.size (f :: rest))
    (hTyped : StackTyped strict exe memory memory.size (f :: rest))
    (h : Transition exe cfg r f rest memory frames memory') :
    StackLaidOut exe memory'.size frames := by
  cases h with
  | moved _ _ => exact hLaidOut.sameCall (.move f _)
  | wrote _ hTarget =>
      rw [Target.size_store]
      exact hLaidOut.sameCall (.write hTarget)
  | ended hBelow =>
      subst hBelow
      exact hLaidOut.shrink
  | @returned g _ hBelow =>
      subst hBelow
      exact hLaidOut.shrink.sameCall (.move g _)
  | delivered _ _ hBelow _ _ hTarget =>
      subst hBelow
      rw [Target.size_store]
      exact hLaidOut.shrink.sameCall
        (.write (Context.locates_of_target hTarget))
  | called hStep hArguments hCallee _ _ =>
      exact hLaidOut.call hExe hTyped hRoutine hStep hArguments
        hCallee

end Calls

end ThreeAddress
