import ThreeAddress.Proofs.TypedStack

/-
  This file shows that the operands of well-typed actions can
  be read and their destinations found in a typed frame: what
  is read fits the type of the operand, and the only fault is
  an index out of bounds.

  Key definitions include:
    * `FaultCause.isExpected`
    * `Gives`
    * `Context.Typed`

  Main statements:
    * `Context.read_gives`
    * `Context.arguments_gives`
    * `Context.target_gives`
-/

namespace ThreeAddress

------------------------------------------------------------
-- Expected Faults
------------------------------------------------------------

/-
  The causes that depend on the values, the input and the
  limits of a run. The others are flaws of the executable.
-/
def FaultCause.isExpected : FaultCause → Bool
| .divisionByZero => true
| .indexOutOfBounds _ _ _ => true
| .stackOverflow _ => true
| .memoryExhausted _ _ => true
| .budgetExhausted _ => true
| .invalidCharCode _ => true
| .console _ => true
| .unknownRoutine _ => false
| .invalidSlot _ => false
| .type _ => false
| .dangling => false

/-
  The result has a property, unless there is none for a cause
  that can be expected.
-/
def Gives {α : Type} (P : α → Prop) : Except FaultCause α → Prop
| .ok a => P a
| .error cause => cause.isExpected = true

namespace Gives

variable {α β : Type} {P : α → Prop} {Q : β → Prop}

theorem bind
    {x : Except FaultCause α}
    {f : α → Except FaultCause β}
    (hx : Gives P x)
    (hf : ∀ a, P a → Gives Q (f a)) :
    Gives Q (x >>= f) := by
  cases x with
  | error cause => exact hx
  | ok a => exact hf a hx

theorem map
    {x : Except FaultCause α}
    {f : α → β}
    (hx : Gives P x)
    (hf : ∀ a, P a → Q (f a)) :
    Gives Q (x.map f) := by
  cases x with
  | error cause => exact hx
  | ok a => exact hf a hx

theorem imp
    {Q : α → Prop}
    {x : Except FaultCause α}
    (hx : Gives P x)
    (h : ∀ a, P a → Q a) :
    Gives Q x := by
  cases x with
  | error cause => exact hx
  | ok a => exact h a hx

theorem isExpected
    {x : Except FaultCause α}
    {cause : FaultCause}
    (hx : Gives P x)
    (h : x = .error cause) :
    cause.isExpected = true := by
  subst h
  exact hx

theorem of_ok
    {x : Except FaultCause α}
    {a : α}
    (hx : Gives P x)
    (h : x = .ok a) :
    P a := by
  subst h
  exact hx

end Gives

------------------------------------------------------------
-- Reading
------------------------------------------------------------

/- The running frame is typed, and nothing is above it. -/
def Context.Typed (strict : Bool) (x : Context) : Prop :=
  x.frame.Typed strict x.memory x.memory.size x.routine

/- What fits strictly or in part also fits in part. -/
theorem Value.Fits.of_or
    {strict other : Bool}
    {t : Scalar}
    {v : Value}
    (h : v.Fits (strict || other) t) :
    v.Fits strict t := by
  cases strict with
  | false => exact h.accepts
  | true => exact h

/- A type accepts what a type that it accepts accepts. -/
theorem Scalar.accepts_trans
    {t u v : Scalar}
    (htu : t.accepts u = true)
    (huv : u.accepts v = true) :
    t.accepts v = true := by
  cases t <;> cases u <;> cases v <;> simp_all [Scalar.accepts]

namespace Context

variable {strict : Bool} {x : Context}

theorem slotValue_gives
    {id : Nat}
    {s : Slot}
    {t : Scalar}
    (hTyped : x.Typed strict)
    (hSlot : x.routine.slots[id]? = some s)
    (hShape : s.shape = .scalar t) :
    Gives (Value.Fits strict t) (x.slotValue id) := by
  rcases hTyped.cell id s hSlot with ⟨c, hCell, hFits⟩
  cases hFits with
  | scalar hShape' hType =>
      rw [hShape] at hShape'
      cases hShape'
      rw [slotValue_eq_ok_iff.mpr hCell]
      exact hType.of_or
  | array hShape' _ _ =>
      rw [hShape] at hShape'
      cases hShape'

/- An array slot refers to a stretch of its elements' type. -/
theorem exists_slotArray
    {id n : Nat}
    {s : Slot}
    {t : Scalar}
    (hTyped : x.Typed strict)
    (hSlot : x.routine.slots[id]? = some s)
    (hShape : s.shape = .array t n) :
    ∃ base,
      x.slotArray id = .ok (base, n) ∧
        base + n ≤ x.memory.size ∧
        HoldsType x.memory t base n := by
  rcases hTyped.cell id s hSlot with ⟨c, hCell, hFits⟩
  cases hFits with
  | scalar hShape' _ =>
      rw [hShape] at hShape'
      cases hShape'
  | @array u base m hShape' hInside hElements =>
      rw [hShape] at hShape'
      cases hShape'
      exact ⟨base, slotArray_eq_ok_iff.mpr hCell, hInside, hElements⟩

/- The address of an element holds a value of its type. -/
theorem address_gives
    {id n : Nat}
    {s : Slot}
    {t : Scalar}
    {i : Value}
    (hTyped : x.Typed strict)
    (hSlot : x.routine.slots[id]? = some s)
    (hShape : s.shape = .array t n)
    (hIndex : i.Fits strict .int) :
    Gives
      (fun address =>
        ∃ v, x.memory[address]? = some v ∧ v.scalar = t)
      (x.address id i) := by
  rcases hIndex.exists_int with ⟨k, rfl⟩
  rcases exists_slotArray hTyped hSlot hShape with
    ⟨base, hArray, _, hHolds⟩
  simp only [address, hArray]
  split
  · next hBounds => exact hHolds k.toInt.toNat (by omega)
  · simp [Gives, blame, hSlot, FaultCause.isExpected]

theorem indexValue_gives
    {i : Index Nat}
    (hTyped : x.Typed strict)
    (hInt : i.IsInt x.routine.slots) :
    Gives (Value.Fits strict .int) (x.indexValue i) := by
  cases hInt with
  | const n => exact Value.fits_of_scalar_eq rfl
  | var hSlot hShape => exact slotValue_gives hTyped hSlot hShape

theorem elementAddress_gives
    {id n : Nat}
    {s : Slot}
    {t : Scalar}
    {i : Index Nat}
    (hTyped : x.Typed strict)
    (hSlot : x.routine.slots[id]? = some s)
    (hShape : s.shape = .array t n)
    (hInt : i.IsInt x.routine.slots) :
    Gives
      (fun address =>
        ∃ v, x.memory[address]? = some v ∧ v.scalar = t)
      (x.elementAddress id i) := by
  have hIndex := indexValue_gives hTyped hInt
  unfold elementAddress
  split
  · next cause hCause => exact hIndex.isExpected hCause
  · next v hValue =>
      exact address_gives hTyped hSlot hShape (hIndex.of_ok hValue)

theorem fetch_gives
    {address : Nat}
    {t : Scalar}
    (h : ∃ v, x.memory[address]? = some v ∧ v.scalar = t) :
    Gives (fun v => v.scalar = t) (x.fetch address) := by
  rcases h with ⟨v, hGet, hType⟩
  simp [fetch, hGet, Gives, hType]

theorem readPlace_gives
    {p : Place}
    {t : Scalar}
    (hTyped : x.Typed strict)
    (hPlace : p.HasType x.routine.slots t) :
    Gives (Value.Fits strict t) (x.readPlace p) := by
  cases hPlace with
  | slot hSlot hShape => exact slotValue_gives hTyped hSlot hShape
  | element hSlot hShape hInt =>
      have hAddress := elementAddress_gives hTyped hSlot hShape hInt
      simp only [readPlace]
      split
      · next cause hCause => exact hAddress.isExpected hCause
      · next address hFound =>
          have hFetch := fetch_gives (hAddress.of_ok hFound)
          cases hGet : x.fetch address with
          | error cause => exact hFetch.isExpected hGet
          | ok v =>
              exact Value.fits_of_scalar_eq (hFetch.of_ok hGet)

/- What an operand yields fits its type. -/
theorem read_gives
    {src : Source}
    {t : Scalar}
    (hTyped : x.Typed strict)
    (hSource : src.HasType x.routine.slots t) :
    Gives (Value.Fits strict t) (x.read src) := by
  cases hSource with
  | int n => exact Value.fits_of_scalar_eq rfl
  | float r => exact Value.fits_of_scalar_eq rfl
  | place hPlace => exact readPlace_gives hTyped hPlace

------------------------------------------------------------
-- Passing Arguments
------------------------------------------------------------

/- The cell of an argument fits a parameter of its shape. -/
theorem argument_gives
    {arg : Argument}
    {shape : Shape}
    (hTyped : x.Typed strict)
    (hPasses : arg.Passes x.routine.slots shape) :
    Gives
      (fun c =>
        ∀ s : Slot, s.shape = shape → s.param = true →
          c.Fits false x.memory x.memory.size s)
      (x.argument arg) := by
  cases hPasses with
  | value hSource hAccepts =>
      refine (read_gives hTyped hSource).map ?_
      intro v hFits s hShape hParam
      refine .scalar hShape ?_
      rw [hParam]
      exact Scalar.accepts_trans hAccepts hFits.accepts
  | array hSlot hShape =>
      rcases exists_slotArray hTyped hSlot hShape with
        ⟨base, hArray, hInside, hHolds⟩
      simp only [argument, hArray]
      intro s hs _
      exact .array hs hInside hHolds

/- The cells of the arguments fit parameters of their shapes. -/
theorem arguments_gives
    {args : List Argument}
    {params : List Slot}
    (hTyped : x.Typed strict)
    (hParams : ∀ s ∈ params, s.param = true)
    (hPasses :
      List.Forall₂ (Argument.Passes x.routine.slots)
        args (params.map Slot.shape)) :
    Gives
      (fun cells =>
        List.Forall₂
          (fun c s => Cell.Fits false x.memory x.memory.size s c)
          cells params)
      (x.arguments args) := by
  unfold arguments
  induction args generalizing params with
  | nil =>
      cases params with
      | nil => exact .nil
      | cons s params => cases hPasses
  | cons arg args ih =>
      cases params with
      | nil => cases hPasses
      | cons s params =>
          rw [List.forall_mem_cons] at hParams
          rw [List.map_cons, List.forall₂_cons] at hPasses
          rw [List.mapM_cons]
          apply (argument_gives hTyped hPasses.1).bind
          intro c hFits
          apply (ih hParams.2 hPasses.2).bind
          intro cells hCells
          exact .cons (hFits s rfl hParams.1) hCells

------------------------------------------------------------
-- Writing
------------------------------------------------------------

/- A value that a slot accepts can be converted to its type. -/
theorem exists_coerce
    {id : Nat}
    {s : Slot}
    {v : Value}
    (hSlot : x.routine.slots[id]? = some s)
    (hAccepts : s.shape.element.accepts v.scalar = true) :
    ∃ w, x.coerce id v = .ok w := by
  rcases Value.exists_coerce?_of_accepts hAccepts with ⟨w, hValue⟩
  exact ⟨w, by simp [coerce, hSlot, hValue]⟩

theorem storeTarget_gives
    {id n address : Nat}
    {s : Slot}
    {t : Scalar}
    {v : Value}
    (hSlot : x.routine.slots[id]? = some s)
    (hShape : s.shape = .array t n)
    (hAddress : ∃ v, x.memory[address]? = some v ∧ v.scalar = t)
    (hAccepts : t.accepts v.scalar = true) :
    Gives (fun _ => True) (x.storeTarget id address v) := by
  have hElement : s.shape.element.accepts v.scalar = true := by
    rw [hShape]
    exact hAccepts
  rcases exists_coerce hSlot hElement with ⟨w, hCoerce⟩
  rcases hAddress with ⟨old, hGet, _⟩
  have hInside : address < x.memory.size :=
    (Array.getElem?_eq_some_iff.mp hGet).1
  simp [storeTarget, hCoerce, hInside, Gives]

/- A value that a place accepts can be written to it. -/
theorem target_gives
    {p : Place}
    {t : Scalar}
    {v : Value}
    (hTyped : x.Typed strict)
    (hPlace : p.HasType x.routine.slots t)
    (hAccepts : t.accepts v.scalar = true) :
    Gives (fun _ => True) (x.target p v) := by
  cases hPlace with
  | @slot id s _ hSlot hShape =>
      have hElement : s.shape.element.accepts v.scalar = true := by
        rw [hShape]
        exact hAccepts
      rcases exists_coerce hSlot hElement with ⟨w, hCoerce⟩
      rcases hTyped.cell id s hSlot with ⟨c, hCell, hFits⟩
      cases hFits with
      | scalar _ _ => simp [target, hCoerce, hCell, Gives]
      | array hShape' _ _ =>
          rw [hShape] at hShape'
          cases hShape'
  | element hSlot hShape hInt =>
      have hAddress := elementAddress_gives hTyped hSlot hShape hInt
      simp only [target]
      split
      · next cause hCause => exact hAddress.isExpected hCause
      · next address hFound =>
          exact storeTarget_gives hSlot hShape
            (hAddress.of_ok hFound) hAccepts

end Context

end ThreeAddress
