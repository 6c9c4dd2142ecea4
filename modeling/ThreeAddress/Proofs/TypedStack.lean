import ThreeAddress.Proofs.Transition
import ThreeAddress.Proofs.Typing

/-
  This file defines what the frames and the memory of a
  machine look like while a well-typed executable runs, and
  shows that writes, calls and returns keep them so.

  A cell has the shape of its slot, and an array lies below
  the arrays of the frames above it. A value has the type of
  its slot; only the value of a parameter may still be the
  integer that was passed where the parameter is a `float`.
  A strict stack excludes this too.

  Key definitions include:
    * `Value.Fits`, `Cell.Fits`
    * `Frame.Typed`
    * `StackTyped`

  Main statements:
    * `Frame.Typed.write`
    * `Frame.typed_ofCall`
    * `StackTyped.write`, `StackTyped.shrink`
-/

namespace ThreeAddress

------------------------------------------------------------
-- Values
------------------------------------------------------------

/-
  The value may stand where a type is declared: it has the
  type or, unless this is meant strictly, widens to it.
-/
def Value.Fits (strict : Bool) (t : Scalar) (v : Value) : Prop :=
  if strict then v.scalar = t else t.accepts v.scalar = true

namespace Value

variable {strict : Bool} {t : Scalar} {v : Value}

theorem fits_of_scalar_eq
    (h : v.scalar = t) :
    v.Fits strict t := by
  subst h
  cases strict
  · show v.scalar.accepts v.scalar = true
    cases v <;> rfl
  · exact rfl

theorem Fits.accepts
    (h : v.Fits strict t) :
    t.accepts v.scalar = true := by
  cases strict
  · exact h
  · have hType : v.scalar = t := h
    rw [hType]
    cases t <;> rfl

/- What fits an integer is an integer. -/
theorem Fits.exists_int
    (h : v.Fits strict .int) :
    ∃ n, v = .int n := by
  cases v with
  | int n => exact ⟨n, rfl⟩
  | float x =>
      have hAccepts : Scalar.int.accepts .float = true := h.accepts
      cases hAccepts

/- A value of the type that is declared can be stored. -/
theorem exists_coerce?_of_accepts
    (h : t.accepts v.scalar = true) :
    ∃ w, v.coerce? t = some w := by
  have hSome : (v.coerce? t).isSome = true := by
    rw [isSome_coerce?, h]
  exact Option.isSome_iff_exists.mp hSome

end Value

------------------------------------------------------------
-- Memories
------------------------------------------------------------

/- Two memories hold values of the same types up to a limit. -/
def SameTypes (limit : Nat) (a b : Array Value) : Prop :=
  ∀ i, i < limit →
    a[i]?.map Value.scalar = b[i]?.map Value.scalar

/- A stretch of the memory holds values of a type. -/
def HoldsType
    (memory : Array Value)
    (t : Scalar)
    (base length : Nat) : Prop :=
  ∀ k, k < length →
    ∃ v, memory[base + k]? = some v ∧ v.scalar = t

theorem HoldsType.of_sameTypes
    {a b : Array Value}
    {t : Scalar}
    {base length limit : Nat}
    (h : HoldsType a t base length)
    (hInside : base + length ≤ limit)
    (hTypes : SameTypes limit a b) :
    HoldsType b t base length := by
  intro k hk
  rcases h k hk with ⟨v, hGet, hType⟩
  have hSame := hTypes (base + k) (by omega)
  rw [hGet, Option.map_some, hType] at hSame
  rcases Option.map_eq_some_iff.mp hSame.symm with ⟨w, hw, hScalar⟩
  exact ⟨w, hw, hScalar⟩

theorem SameTypes.mono
    {a b : Array Value}
    {limit limit' : Nat}
    (h : SameTypes limit a b)
    (hLimit : limit' ≤ limit) :
    SameTypes limit' a b := by
  intro i hi
  exact h i (by omega)

/- A memory that only grows keeps its types. -/
theorem sameTypes_append
    (a b : Array Value) :
    SameTypes a.size a (a ++ b) := by
  intro i hi
  rw [Array.getElem?_append_left hi]

/- A memory that is cut off keeps its values below the cut. -/
theorem getElem?_shrink
    (memory : Array Value)
    {mark i : Nat}
    (h : i < mark) :
    (memory.shrink mark)[i]? = memory[i]? := by
  rw [← Array.getElem?_toList, Array.toList_shrink,
    List.getElem?_take_of_lt h, Array.getElem?_toList]

theorem sameTypes_shrink
    (memory : Array Value)
    (mark : Nat) :
    SameTypes mark memory (memory.shrink mark) := by
  intro i hi
  rw [getElem?_shrink memory hi]

------------------------------------------------------------
-- Cells and Frames
------------------------------------------------------------

/-
  The cell is one that a slot may have. An array lies below
  the limit, and its elements have their type.
-/
inductive Cell.Fits
    (strict : Bool)
    (memory : Array Value)
    (limit : Nat) : Slot → Cell → Prop where
| scalar
    {s : Slot}
    {t : Scalar}
    {v : Value}
    (shape : s.shape = .scalar t)
    (type : v.Fits (strict || !s.param) t) :
    Fits strict memory limit s (.scalar v)
| array
    {s : Slot}
    {t : Scalar}
    {base n : Nat}
    (shape : s.shape = .array t n)
    (inside : base + n ≤ limit)
    (elements : HoldsType memory t base n) :
    Fits strict memory limit s (.array base n)

/- Each slot of the routine has a cell that fits. -/
structure Frame.Typed
    (strict : Bool)
    (memory : Array Value)
    (limit : Nat)
    (r : Routine)
    (f : Frame) : Prop where
  size : f.cells.size = r.slots.size
  cell :
    ∀ (id : Nat) (s : Slot),
      r.slots[id]? = some s →
        ∃ c, f.cells[id]? = some c ∧ c.Fits strict memory limit s

/-
  The frame below takes what the routine of a frame hands
  back, if there is a place for it to go.
-/
def Frame.ReturnsTo
    (exe : Executable)
    (r : Routine)
    (rest : List Frame)
    (f : Frame) : Prop :=
  ∀ p, f.returnTo = some p →
    ∃ g gs q t,
      rest = g :: gs ∧
        exe.routines[g.routine]? = some q ∧
        p.HasType q.slots t ∧
        r.returns = .value t

/-
  The frames are typed, each with its arrays below the mark
  of the frame above it.
-/
def StackTyped
    (strict : Bool)
    (exe : Executable)
    (memory : Array Value) :
    Nat → List Frame → Prop
| _, [] => True
| limit, f :: rest =>
    (∃ r,
      exe.routines[f.routine]? = some r ∧
        f.Typed strict memory limit r ∧
        f.ReturnsTo exe r rest) ∧
    f.mark ≤ limit ∧
    StackTyped strict exe memory f.mark rest

theorem Cell.Fits.mono
    {strict : Bool}
    {a b : Array Value}
    {limit limit' : Nat}
    {s : Slot}
    {c : Cell}
    (h : c.Fits strict a limit s)
    (hLimit : limit ≤ limit')
    (hTypes : SameTypes limit a b) :
    c.Fits strict b limit' s := by
  cases h with
  | scalar hShape hType => exact .scalar hShape hType
  | array hShape hInside hElements =>
      exact .array hShape (by omega)
        (hElements.of_sameTypes hInside hTypes)

theorem Frame.Typed.mono
    {strict : Bool}
    {a b : Array Value}
    {limit limit' : Nat}
    {r : Routine}
    {f : Frame}
    (h : f.Typed strict a limit r)
    (hLimit : limit ≤ limit')
    (hTypes : SameTypes limit a b) :
    f.Typed strict b limit' r := by
  refine ⟨h.size, ?_⟩
  intro id s hSlot
  rcases h.cell id s hSlot with ⟨c, hCell, hFits⟩
  exact ⟨c, hCell, hFits.mono hLimit hTypes⟩

/- Frames stay typed in a memory of the same types. -/
theorem StackTyped.of_sameTypes
    {strict : Bool}
    {exe : Executable}
    {a b : Array Value}
    {limit : Nat}
    {frames : List Frame}
    (h : StackTyped strict exe a limit frames)
    (hTypes : SameTypes limit a b) :
    StackTyped strict exe b limit frames := by
  induction frames generalizing limit with
  | nil => trivial
  | cons f rest ih =>
      rcases h with ⟨⟨r, hRoutine, hTyped, hReturns⟩, hMark, hRest⟩
      exact ⟨⟨r, hRoutine, hTyped.mono (Nat.le_refl _) hTypes,
          hReturns⟩,
        hMark, ih hRest (hTypes.mono hMark)⟩

/- Each frame is typed, with its arrays below the limit. -/
theorem StackTyped.exists_typed
    {strict : Bool}
    {exe : Executable}
    {memory : Array Value}
    {limit : Nat}
    {frames : List Frame}
    (h : StackTyped strict exe memory limit frames) :
    ∀ f ∈ frames,
      ∃ r,
        exe.routines[f.routine]? = some r ∧
          f.Typed strict memory limit r := by
  induction frames generalizing limit with
  | nil => nofun
  | cons g gs ih =>
      intro f hf
      rcases h with ⟨⟨r, hRoutine, hFrame, _⟩, hMark, hRest⟩
      rcases List.mem_cons.mp hf with rfl | hf
      · exact ⟨r, hRoutine, hFrame⟩
      · rcases ih hRest f hf with ⟨q, hCaller, hBelow⟩
        exact ⟨q, hCaller, hBelow.mono hMark fun _ _ => rfl⟩

------------------------------------------------------------
-- Writes
------------------------------------------------------------

variable {strict : Bool} {exe : Executable} {cfg : Config}
variable {r : Routine} {f : Frame} {rest : List Frame}
variable {memory : Array Value}

/- A write leaves the memory as long as it is. -/
@[simp]
theorem Target.size_store
    (t : Target)
    (w : Value)
    (memory : Array Value) :
    (t.store w memory).size = memory.size := by
  cases t with
  | cell id => rfl
  | memory address => simp [Target.store]

/-
  A write changes no type in the memory: an element that is
  written had the type of its array before.
-/
theorem Context.Locates.sameTypes
    {v w : Value}
    {t : Target}
    (h : Context.Locates ⟨r, f, memory⟩ v t w)
    (hTyped : f.Typed strict memory memory.size r) :
    SameTypes memory.size memory (t.store w memory) := by
  cases h with
  | cell hSlot hCell hValue =>
      intro i hi
      rfl
  | @memory id base length k s w hSlot hCell hWithin hInside hValue =>
      rcases hTyped.cell id s hSlot with ⟨c, hCell', hFits⟩
      rw [hCell] at hCell'
      cases hCell'
      cases hFits with
      | array hShape _ hElements =>
          rcases hElements k hWithin with ⟨old, hOld, hType⟩
          have hNew : w.scalar = old.scalar := by
            rw [Value.scalar_of_coerce? hValue, hShape, hType]
            rfl
          intro i hi
          by_cases hAddress : base + k = i
          · subst hAddress
            simp only [Target.store]
            rw [Array.getElem?_setIfInBounds_self_of_lt hInside,
              hOld, Option.map_some, Option.map_some, hNew]
          · simp only [Target.store]
            rw [Array.getElem?_setIfInBounds_ne hAddress]

/- A frame stays typed when it writes. -/
theorem Frame.Typed.write
    {v w : Value}
    {t : Target}
    (hTyped : f.Typed strict memory memory.size r)
    (h : Context.Locates ⟨r, f, memory⟩ v t w) :
    (t.frame w f).next.Typed strict
      (t.store w memory) (t.store w memory).size r := by
  have hTypes := h.sameTypes hTyped
  rw [Target.size_store]
  cases h with
  | @cell id s old w hSlot hCell hValue =>
      constructor
      · simpa [Target.frame, Frame.next] using hTyped.size
      · intro id' s' hSlot'
        rcases hTyped.cell id' s' hSlot' with ⟨c, hCell', hFits⟩
        by_cases hSame : id = id'
        · subst hSame
          rw [hSlot] at hSlot'
          cases hSlot'
          rw [hCell] at hCell'
          cases hCell'
          have hBound : id < f.cells.size :=
            (Array.getElem?_eq_some_iff.mp hCell).1
          refine ⟨.scalar w, ?_, ?_⟩
          · simp [Target.frame, Frame.next, hBound]
          · cases hFits with
            | scalar hShape _ =>
                have hScalar := Value.scalar_of_coerce? hValue
                rw [hShape] at hScalar
                exact .scalar hShape
                  (Value.fits_of_scalar_eq hScalar)
        · refine ⟨c, ?_, hFits⟩
          simp only [Target.frame, Frame.next]
          rw [Array.getElem?_setIfInBounds_ne hSame]
          exact hCell'
  | memory hSlot hCell hWithin hInside hValue =>
      have hKept := hTyped.mono (Nat.le_refl _) hTypes
      exact ⟨hKept.size, hKept.cell⟩

/- The stack stays typed when its first frame writes. -/
theorem StackTyped.write
    {v w : Value}
    {t : Target}
    (hTyped : StackTyped strict exe memory memory.size (f :: rest))
    (hRoutine : exe.routines[f.routine]? = some r)
    (h : Context.Locates ⟨r, f, memory⟩ v t w) :
    StackTyped strict exe (t.store w memory)
      (t.store w memory).size ((t.frame w f).next :: rest) := by
  rcases hTyped with ⟨⟨q, hRoutine', hFrame, hReturns⟩, hMark, hRest⟩
  rw [hRoutine] at hRoutine'
  cases hRoutine'
  have hTypes := h.sameTypes hFrame
  have hKept :
      (t.frame w f).next.routine = f.routine ∧
        (t.frame w f).next.mark = f.mark ∧
        (t.frame w f).next.returnTo = f.returnTo := by
    cases t <;> exact ⟨rfl, rfl, rfl⟩
  rcases hKept with ⟨hSame, hSameMark, hSameReturn⟩
  refine ⟨⟨r, ?_, hFrame.write h, ?_⟩, ?_, ?_⟩
  · rw [hSame, hRoutine]
  · intro p hp
    rw [hSameReturn] at hp
    exact hReturns p hp
  · rw [hSameMark, Target.size_store]
    exact hMark
  · rw [hSameMark]
    exact hRest.of_sameTypes (hTypes.mono hMark)

/- The stack stays typed when its first frame goes on. -/
theorem StackTyped.move
    {limit : Nat}
    (hTyped : StackTyped strict exe memory limit (f :: rest))
    (pc : Nat) :
    StackTyped strict exe memory limit ({ f with pc } :: rest) := by
  rcases hTyped with ⟨⟨q, hRoutine, hFrame, hReturns⟩, hMark, hRest⟩
  exact ⟨⟨q, hRoutine, ⟨hFrame.size, hFrame.cell⟩, hReturns⟩,
    hMark, hRest⟩

/- The frames below a frame that ends stay typed. -/
theorem StackTyped.shrink
    (hTyped : StackTyped strict exe memory memory.size (f :: rest)) :
    StackTyped strict exe (memory.shrink f.mark)
      (memory.shrink f.mark).size rest := by
  rcases hTyped with ⟨_, hMark, hRest⟩
  have hSize : (memory.shrink f.mark).size = f.mark := by
    rw [Array.size_shrink]
    omega
  rw [hSize]
  exact hRest.of_sameTypes (sameTypes_shrink memory f.mark)

------------------------------------------------------------
-- Calls
------------------------------------------------------------

/- Allocation goes through the slots one by one. -/
theorem allocate_eq_foldl
    (memory : Array Value)
    (slots : Array Slot) :
    allocate memory slots = slots.toList.foldl allocateSlot memory := by
  rw [allocate, Array.foldl_toList]

/- The memory only grows by allocation. -/
theorem sameTypes_foldl_allocateSlot
    (slots : List Slot)
    (memory : Array Value) :
    memory.size ≤ (slots.foldl allocateSlot memory).size ∧
      SameTypes memory.size memory
        (slots.foldl allocateSlot memory) := by
  induction slots generalizing memory with
  | nil => exact ⟨Nat.le_refl _, fun _ _ => rfl⟩
  | cons s slots ih =>
      rw [List.foldl_cons]
      have hGrows : memory.size ≤ (allocateSlot memory s).size := by
        simp [allocateSlot]
      rcases ih (allocateSlot memory s) with ⟨hSize, hTypes⟩
      refine ⟨Nat.le_trans hGrows hSize, ?_⟩
      intro i hi
      rw [← hTypes i (by omega)]
      exact sameTypes_append memory _ i hi

/- The memory for an array holds values of its type. -/
theorem holdsType_allocateSlot
    {s : Slot}
    {t : Scalar}
    {n : Nat}
    (memory : Array Value)
    (hParam : s.param = false)
    (hShape : s.shape = .array t n) :
    (allocateSlot memory s).size = memory.size + n ∧
      HoldsType (allocateSlot memory s) t memory.size n := by
  have hOwned : s.ownedCells = n := by
    simp [Slot.ownedCells, hParam, hShape]
  constructor
  · simp [allocateSlot, hOwned]
  · intro k hk
    refine ⟨Value.zero t, ?_, by cases t <;> rfl⟩
    rw [allocateSlot, Array.getElem?_append_right (by omega),
      hOwned, hShape, Array.getElem?_replicate]
    simp [hk, Shape.element]

/- No memory is needed for a parameter or a single value. -/
theorem allocateSlot_of_ownedCells_eq_zero
    {s : Slot}
    (memory : Array Value)
    (h : s.ownedCells = 0) :
    allocateSlot memory s = memory := by
  simp [allocateSlot, h]

/-
  The cells of a new frame fit its slots, when the arguments
  fit the parameters among them.
-/
theorem bindCells_fits
    {slots : List Slot}
    {args : List Cell}
    {memory : Array Value}
    (hArgs :
      List.Forall₂
        (fun c s => Cell.Fits strict memory memory.size s c)
        args (slots.filter Slot.param)) :
    List.Forall₂
      (Cell.Fits strict (slots.foldl allocateSlot memory)
        (slots.foldl allocateSlot memory).size)
      slots (bindCells slots args memory.size) := by
  induction slots generalizing args memory with
  | nil => exact .nil
  | cons s slots ih =>
      rw [List.foldl_cons, bindCells.eq_def]
      dsimp only
      by_cases hParam : s.param = true
      · -- A parameter takes the next argument.
        have hSame : allocateSlot memory s = memory :=
          allocateSlot_of_ownedCells_eq_zero memory
            (by simp [Slot.ownedCells, hParam])
        rw [if_pos hParam, hSame]
        rw [List.filter_cons_of_pos hParam] at hArgs
        cases hArgs with
        | @cons c _ args _ hHead hTail =>
            rcases sameTypes_foldl_allocateSlot slots memory with
              ⟨hSize, hTypes⟩
            exact .cons (hHead.mono hSize hTypes) (ih hTail)
      · -- Any other slot starts at zero, an array behind the memory.
        have hLocal : s.param = false := by simpa using hParam
        rw [if_neg hParam]
        rw [List.filter_cons_of_neg hParam] at hArgs
        cases hShape : s.shape with
        | scalar t =>
            have hSame : allocateSlot memory s = memory :=
              allocateSlot_of_ownedCells_eq_zero memory
                (by simp [Slot.ownedCells, hShape])
            rw [hSame]
            refine .cons (.scalar hShape ?_) (ih hArgs)
            exact Value.fits_of_scalar_eq (by cases t <;> rfl)
        | array t n =>
            rcases holdsType_allocateSlot memory hLocal hShape with
              ⟨hSize, hHolds⟩
            rcases sameTypes_foldl_allocateSlot slots
              (allocateSlot memory s) with ⟨hGrows, hTypes⟩
            have hInside :
                memory.size + n ≤ (allocateSlot memory s).size := by
              omega
            refine .cons (.array hShape (by omega)
              (hHolds.of_sameTypes hInside hTypes)) ?_
            rw [← hSize]
            apply ih
            exact hArgs.imp fun c q hFits =>
              hFits.mono (by omega) (sameTypes_append memory _)

/- The frame of a call is typed when its arguments fit. -/
theorem Frame.typed_ofCall
    {args : List Cell}
    (index : Nat)
    (returnTo : Option Place)
    (below : Nat)
    (hArgs :
      List.Forall₂
        (fun c s => Cell.Fits strict memory memory.size s c)
        args (r.slots.toList.filter Slot.param)) :
    (Frame.ofCall index r args returnTo memory.size below).Typed
      strict (allocate memory r.slots)
      (allocate memory r.slots).size r := by
  have hFits := bindCells_fits hArgs
  rw [← allocate_eq_foldl] at hFits
  constructor
  · have hLength := hFits.length_eq
    simpa [Frame.ofCall] using hLength.symm
  · intro id s hSlot
    have hGet : r.slots.toList[id]? = some s := by
      simpa using hSlot
    rcases Outcome.exists_right hFits hGet with ⟨c, hCell, hFit⟩
    exact ⟨c, by simpa [Frame.ofCall] using hCell, hFit⟩

end ThreeAddress
