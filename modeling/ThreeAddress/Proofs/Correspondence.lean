import ThreeAddress.Proofs.Transition

/-
  This file compares what two frames see whose variables have
  other numbers and whose arrays lie in other places. Slots of
  one frame correspond to slots of the other, and addresses to
  addresses, one to one. Operands on corresponding slots then
  have the same values, and destinations correspond as well.

  A refusal may name the number of a slot, so refusals are
  compared only up to a relation that allows for this.

  Key definitions include:
    * `Index.Via`, `Place.Via`, `Source.Via`, `Argument.Via`
    * `Cell.Moved`
    * `Correspondence`, `Correspondence.Context`

  Main statements:
    * `Correspondence.Cells.write`, `Correspondence.Memory.store`
    * `Correspondence.Context.read_agree`
    * `Correspondence.Context.arguments_agree`
    * `Correspondence.Context.target_agree`
-/

namespace ThreeAddress

------------------------------------------------------------
-- Operands on Corresponding Slots
------------------------------------------------------------

/- The indices are one number, or corresponding slots. -/
inductive Index.Via (S : Nat → Nat → Prop) :
    Index Nat → Index Nat → Prop where
| const (n : Int32) : Via S (.const n) (.const n)
| var
    {id id' : Nat}
    (slot : S id id') :
    Via S (.var id) (.var id')

/- The places are corresponding slots, or elements of them. -/
inductive Place.Via (S : Nat → Nat → Prop) : Place → Place → Prop where
| slot
    {id id' : Nat}
    (slot : S id id') :
    Via S (.slot id) (.slot id')
| element
    {id id' : Nat}
    {i i' : Index Nat}
    (array : S id id')
    (index : Index.Via S i i') :
    Via S (.element id i) (.element id' i')

/- The operands are one number, or corresponding places. -/
inductive Source.Via (S : Nat → Nat → Prop) : Source → Source → Prop where
| int (n : Int32) : Via S (.int n) (.int n)
| float (x : Single) : Via S (.float x) (.float x)
| place
    {p p' : Place}
    (place : Place.Via S p p') :
    Via S (.place p) (.place p')

/- The arguments are corresponding operands or arrays. -/
inductive Argument.Via (S : Nat → Nat → Prop) :
    Argument → Argument → Prop where
| value
    {src src' : Source}
    (source : Source.Via S src src') :
    Via S (.value src) (.value src')
| array
    {id id' : Nat}
    (slot : S id id') :
    Via S (.array id) (.array id')

/- An index corresponds to itself when every slot does. -/
theorem Index.Via.self
    (i : Index Nat) :
    Index.Via Eq i i := by
  cases i with
  | const n => exact .const n
  | var id => exact .var rfl

theorem Place.Via.self
    (p : Place) :
    Place.Via Eq p p := by
  cases p with
  | slot id => exact .slot rfl
  | element id i => exact .element rfl (.self i)

theorem Source.Via.self
    (src : Source) :
    Source.Via Eq src src := by
  cases src with
  | int n => exact .int n
  | float x => exact .float x
  | place p => exact .place (.self p)

theorem Argument.Via.self
    (arg : Argument) :
    Argument.Via Eq arg arg := by
  cases arg with
  | value src => exact .value (.self src)
  | array id => exact .array rfl

/- The cells hold the same value, or arrays that are moved. -/
inductive Cell.Moved (moves : Nat → Nat → Prop) : Cell → Cell → Prop where
| scalar (v : Value) : Moved moves (.scalar v) (.scalar v)
| array
    {base base' n : Nat}
    (elements : ∀ k, k < n → moves (base + k) (base' + k)) :
    Moved moves (.array base n) (.array base' n)

/- Related lists are related at each position. -/
theorem rel_getElem?
    {α β : Type}
    {R : α → β → Prop}
    {xs : List α}
    {ys : List β}
    (h : List.Forall₂ R xs ys)
    (i : Nat) :
    Option.Rel R xs[i]? ys[i]? := by
  induction h generalizing i with
  | nil => exact .none
  | cons hHead _ ih =>
      cases i with
      | zero => exact .some hHead
      | succ i => exact ih i

------------------------------------------------------------
-- Correspondences
------------------------------------------------------------

/-
  Which slots of two frames and which addresses of two
  memories correspond, each one to one, and which refusals are
  told apart.
-/
structure Correspondence where
  Slot : Nat → Nat → Prop
  Moves : Nat → Nat → Prop
  Refuses : FaultCause → FaultCause → Prop
  slot_unique :
    ∀ {i j i' j'}, Slot i i' → Slot j j' → (i = j ↔ i' = j')
  moves_unique :
    ∀ {a b a' b'}, Moves a a' → Moves b b' → (a = b ↔ a' = b')
  refuses_refl : ∀ cause, Refuses cause cause
  refuses_slot :
    ∀ {i i'}, Slot i i' → Refuses (.invalidSlot i) (.invalidSlot i')

namespace Correspondence

variable {κ : Correspondence}

/- Corresponding slots have such cells, or none. -/
def Cells
    (κ : Correspondence)
    (cells cells' : Array ThreeAddress.Cell) : Prop :=
  ∀ id id', κ.Slot id id' →
    Option.Rel (Cell.Moved κ.Moves) cells[id]? cells'[id']?

/- Corresponding addresses have the same value, or none. -/
def Memory
    (κ : Correspondence)
    (memory memory' : Array Value) : Prop :=
  ∀ a a', κ.Moves a a' → memory[a]? = memory'[a']?

/- The targets are corresponding cells or addresses. -/
inductive Target (κ : Correspondence) :
    ThreeAddress.Target → ThreeAddress.Target → Prop where
| cell
    {id id' : Nat}
    (slot : κ.Slot id id') :
    Target κ (.cell id) (.cell id')
| memory
    {a a' : Nat}
    (moves : κ.Moves a a') :
    Target κ (.memory a) (.memory a')

/- Two steps see the same at what corresponds. -/
structure Context
    (κ : Correspondence)
    (x x' : ThreeAddress.Context) : Prop where
  slots :
    ∀ {id id'}, κ.Slot id id' →
      x.routine.slots[id]? = x'.routine.slots[id']?
  cells : κ.Cells x.frame.cells x'.frame.cells
  memory : κ.Memory x.memory x'.memory

------------------------------------------------------------
-- Writes
------------------------------------------------------------

/- Arrays that correspond in one entry are both that long. -/
theorem lt_size_iff
    {α β : Type}
    {R : α → β → Prop}
    {xs : Array α}
    {ys : Array β}
    {i j : Nat}
    (h : Option.Rel R xs[i]? ys[j]?) :
    i < xs.size ↔ j < ys.size := by
  generalize hx : xs[i]? = x at h
  generalize hy : ys[j]? = y at h
  cases h with
  | some _ =>
      exact iff_of_true (Array.getElem?_eq_some_iff.mp hx).1
        (Array.getElem?_eq_some_iff.mp hy).1
  | none =>
      rw [Array.getElem?_eq_none_iff] at hx hy
      omega

/- The same value is written to corresponding slots. -/
theorem Cells.write
    {cells cells' : Array ThreeAddress.Cell}
    {id id' : Nat}
    (h : κ.Cells cells cells')
    (hSlot : κ.Slot id id')
    (w : Value) :
    κ.Cells (cells.setIfInBounds id (.scalar w))
      (cells'.setIfInBounds id' (.scalar w)) := by
  intro i i' hOther
  have hSame := κ.slot_unique hSlot hOther
  have hInside := lt_size_iff (h id id' hSlot)
  rw [Array.getElem?_setIfInBounds, Array.getElem?_setIfInBounds]
  by_cases hId : id = i
  · rw [if_pos hId, if_pos (hSame.mp hId)]
    by_cases hBound : id < cells.size
    · rw [if_pos hBound, if_pos (hInside.mp hBound)]
      exact .some (.scalar w)
    · rw [if_neg hBound, if_neg (hInside.not.mp hBound)]
      exact .none
  · rw [if_neg hId, if_neg (hSame.not.mp hId)]
    exact h i i' hOther

namespace Memory

variable {memory memory' : Array Value}

theorem lt_size_iff
    {a a' : Nat}
    (h : κ.Memory memory memory')
    (hMoves : κ.Moves a a') :
    a < memory.size ↔ a' < memory'.size := by
  have hValue := h a a' hMoves
  rw [← not_iff_not, Nat.not_lt, Nat.not_lt,
    ← Array.getElem?_eq_none_iff, ← Array.getElem?_eq_none_iff, hValue]

/- The same value is stored at corresponding addresses. -/
theorem store
    {t t' : ThreeAddress.Target}
    (h : κ.Memory memory memory')
    (hTarget : κ.Target t t')
    (w : Value) :
    κ.Memory (t.store w memory) (t'.store w memory') := by
  cases hTarget with
  | cell _ => exact h
  | @memory a a' hMoves =>
      intro b b' hOther
      have hSame := κ.moves_unique hMoves hOther
      have hInside := h.lt_size_iff hMoves
      simp only [Target.store, Array.getElem?_setIfInBounds]
      by_cases hAddress : a = b
      · rw [if_pos hAddress, if_pos (hSame.mp hAddress)]
        by_cases hBound : a < memory.size
        · rw [if_pos hBound, if_pos (hInside.mp hBound)]
        · rw [if_neg hBound, if_neg (hInside.not.mp hBound)]
      · rw [if_neg hAddress, if_neg (hSame.not.mp hAddress)]
        exact h b b' hOther

end Memory

------------------------------------------------------------
-- Reading
------------------------------------------------------------

namespace Context

open Outcome (AgreeUpTo)

variable {x x' : ThreeAddress.Context}

theorem slotValue_agree
    {id id' : Nat}
    (h : κ.Context x x')
    (hSlot : κ.Slot id id') :
    AgreeUpTo κ.Refuses Eq (x.slotValue id) (x'.slotValue id') := by
  have hCell := h.cells id id' hSlot
  unfold ThreeAddress.Context.slotValue
  generalize x.frame.cells[id]? = c at hCell
  generalize x'.frame.cells[id']? = c' at hCell
  cases hCell with
  | none => exact .error (κ.refuses_slot hSlot)
  | some hCell =>
      cases hCell with
      | scalar v => exact .ok rfl
      | array _ => exact .error (κ.refuses_slot hSlot)

theorem slotArray_agree
    {id id' : Nat}
    (h : κ.Context x x')
    (hSlot : κ.Slot id id') :
    AgreeUpTo κ.Refuses
      (fun span span' =>
        Cell.Moved κ.Moves (.array span.1 span.2)
          (.array span'.1 span'.2))
      (x.slotArray id) (x'.slotArray id') := by
  have hCell := h.cells id id' hSlot
  unfold ThreeAddress.Context.slotArray
  generalize x.frame.cells[id]? = c at hCell
  generalize x'.frame.cells[id']? = c' at hCell
  cases hCell with
  | none => exact .error (κ.refuses_slot hSlot)
  | some hCell =>
      cases hCell with
      | scalar v => exact .error (κ.refuses_slot hSlot)
      | array hElements => exact .ok (.array hElements)

theorem blame_eq
    {id id' : Nat}
    (h : κ.Context x x')
    (hSlot : κ.Slot id id')
    (cause : ThreeAddress.Slot → FaultCause) :
    x.blame id cause = x'.blame id' cause := by
  unfold ThreeAddress.Context.blame
  rw [h.slots hSlot]

/- An element is out of bounds in both, or its address is moved. -/
theorem address_agree
    {id id' : Nat}
    (h : κ.Context x x')
    (hSlot : κ.Slot id id')
    (i : Value) :
    AgreeUpTo κ.Refuses κ.Moves (x.address id i) (x'.address id' i) := by
  cases i with
  | float y =>
      simp only [ThreeAddress.Context.address]
      rw [h.blame_eq hSlot]
      exact .error (κ.refuses_refl _)
  | int n =>
      have hArray := h.slotArray_agree hSlot
      simp only [ThreeAddress.Context.address]
      generalize x.slotArray id = found at hArray
      generalize x'.slotArray id' = found' at hArray
      cases hArray with
      | error hRefusal => exact .error hRefusal
      | @ok span span' hCell =>
          rcases span with ⟨base, length⟩
          rcases span' with ⟨base', length'⟩
          cases hCell with
          | array hElements =>
              dsimp only
              split
              · next hBounds => exact .ok (hElements _ (by omega))
              · rw [h.blame_eq hSlot]
                exact .error (κ.refuses_refl _)

theorem fetch_eq
    {a a' : Nat}
    (h : κ.Context x x')
    (hMoves : κ.Moves a a') :
    x.fetch a = x'.fetch a' := by
  unfold ThreeAddress.Context.fetch
  rw [h.memory a a' hMoves]

theorem indexValue_agree
    {i i' : Index Nat}
    (h : κ.Context x x')
    (hIndex : Index.Via κ.Slot i i') :
    AgreeUpTo κ.Refuses Eq (x.indexValue i) (x'.indexValue i') := by
  cases hIndex with
  | const n => exact .ok rfl
  | var hSlot => exact h.slotValue_agree hSlot

theorem elementAddress_agree
    {id id' : Nat}
    {i i' : Index Nat}
    (h : κ.Context x x')
    (hSlot : κ.Slot id id')
    (hIndex : Index.Via κ.Slot i i') :
    AgreeUpTo κ.Refuses κ.Moves (x.elementAddress id i)
      (x'.elementAddress id' i') := by
  have hValue := h.indexValue_agree hIndex
  unfold ThreeAddress.Context.elementAddress
  generalize x.indexValue i = found at hValue
  generalize x'.indexValue i' = found' at hValue
  cases hValue with
  | error hRefusal => exact .error hRefusal
  | ok hSame =>
      subst hSame
      exact h.address_agree hSlot _

theorem readPlace_agree
    {p p' : Place}
    (h : κ.Context x x')
    (hPlace : Place.Via κ.Slot p p') :
    AgreeUpTo κ.Refuses Eq (x.readPlace p) (x'.readPlace p') := by
  cases hPlace with
  | slot hSlot => exact h.slotValue_agree hSlot
  | @element id id' i i' hSlot hIndex =>
      have hAddress := h.elementAddress_agree hSlot hIndex
      simp only [ThreeAddress.Context.readPlace]
      generalize x.elementAddress id i = found at hAddress
      generalize x'.elementAddress id' i' = found' at hAddress
      cases hAddress with
      | error hRefusal => exact .error hRefusal
      | ok hMoves => exact .of_eq κ.refuses_refl (h.fetch_eq hMoves)

/- Corresponding operands have the same value. -/
theorem read_agree
    {src src' : Source}
    (h : κ.Context x x')
    (hSource : Source.Via κ.Slot src src') :
    AgreeUpTo κ.Refuses Eq (x.read src) (x'.read src') := by
  cases hSource with
  | int n => exact .ok rfl
  | float y => exact .ok rfl
  | place hPlace => exact h.readPlace_agree hPlace

theorem condition_agree
    {lhs lhs' rhs rhs' : Source}
    (h : κ.Context x x')
    (cond : Cond)
    (hLeft : Source.Via κ.Slot lhs lhs')
    (hRight : Source.Via κ.Slot rhs rhs') :
    AgreeUpTo κ.Refuses Eq (x.condition cond lhs rhs)
      (x'.condition cond lhs' rhs') := by
  unfold ThreeAddress.Context.condition
  apply (h.read_agree hLeft).bind_eq
  intro a
  apply (h.read_agree hRight).bind_eq
  intro b
  exact .ok rfl

/- Corresponding arguments bind values and moved arrays. -/
theorem arguments_agree
    {args args' : List Argument}
    (h : κ.Context x x')
    (hArgs : List.Forall₂ (Argument.Via κ.Slot) args args') :
    AgreeUpTo κ.Refuses (List.Forall₂ (Cell.Moved κ.Moves))
      (x.arguments args) (x'.arguments args') := by
  apply AgreeUpTo.mapM hArgs
  intro arg arg' hArg
  cases hArg with
  | value hSource =>
      apply (h.read_agree hSource).map
      intro v v' hSame
      subst hSame
      exact .scalar v
  | array hSlot =>
      apply (h.slotArray_agree hSlot).map
      intro span span' hCell
      exact hCell

------------------------------------------------------------
-- Finding Targets
------------------------------------------------------------

/- Two writes store the same value at corresponding targets. -/
def Stores
    (κ : Correspondence)
    (found found' : ThreeAddress.Target × Value) : Prop :=
  κ.Target found.1 found'.1 ∧ found.2 = found'.2

theorem coerce_eq
    {id id' : Nat}
    (h : κ.Context x x')
    (hSlot : κ.Slot id id')
    (v : Value) :
    x.coerce id v = x'.coerce id' v := by
  unfold ThreeAddress.Context.coerce
  rw [h.slots hSlot]

theorem storeTarget_agree
    {id id' a a' : Nat}
    (h : κ.Context x x')
    (hSlot : κ.Slot id id')
    (hMoves : κ.Moves a a')
    (v : Value) :
    AgreeUpTo κ.Refuses (Stores κ) (x.storeTarget id a v)
      (x'.storeTarget id' a' v) := by
  have hInside := h.memory.lt_size_iff hMoves
  unfold ThreeAddress.Context.storeTarget
  rw [h.coerce_eq hSlot v]
  cases x'.coerce id' v with
  | error cause => exact .error (κ.refuses_refl cause)
  | ok w =>
      dsimp only
      by_cases hBound : a < x.memory.size
      · rw [if_pos hBound, if_pos (hInside.mp hBound)]
        exact .ok ⟨.memory hMoves, rfl⟩
      · rw [if_neg hBound, if_neg (hInside.not.mp hBound)]
        exact .error (κ.refuses_refl _)

/- Corresponding destinations are found at such targets. -/
theorem target_agree
    {p p' : Place}
    (h : κ.Context x x')
    (hPlace : Place.Via κ.Slot p p')
    (v : Value) :
    AgreeUpTo κ.Refuses (Stores κ) (x.target p v) (x'.target p' v) := by
  cases hPlace with
  | @slot id id' hSlot =>
      have hCell := h.cells id id' hSlot
      simp only [ThreeAddress.Context.target]
      rw [h.coerce_eq hSlot v]
      cases x'.coerce id' v with
      | error cause => exact .error (κ.refuses_refl cause)
      | ok w =>
          generalize x.frame.cells[id]? = c at hCell
          generalize x'.frame.cells[id']? = c' at hCell
          cases hCell with
          | none => exact .error (κ.refuses_slot hSlot)
          | some hCell =>
              cases hCell with
              | scalar old => exact .ok ⟨.cell hSlot, rfl⟩
              | array _ => exact .error (κ.refuses_slot hSlot)
  | @element id id' i i' hSlot hIndex =>
      have hAddress := h.elementAddress_agree hSlot hIndex
      simp only [ThreeAddress.Context.target]
      generalize x.elementAddress id i = found at hAddress
      generalize x'.elementAddress id' i' = found' at hAddress
      cases hAddress with
      | error hRefusal => exact .error hRefusal
      | ok hMoves => exact h.storeTarget_agree hSlot hMoves v

theorem copied_agree
    {dest dest' : Place}
    {src src' : Source}
    (h : κ.Context x x')
    (hDest : Place.Via κ.Slot dest dest')
    (hSource : Source.Via κ.Slot src src') :
    AgreeUpTo κ.Refuses (Stores κ) (x.copied dest src)
      (x'.copied dest' src') := by
  unfold ThreeAddress.Context.copied
  apply (h.read_agree hSource).bind_eq
  intro v
  exact h.target_agree hDest v

theorem computed_agree
    {dest dest' : Place}
    {lhs lhs' rhs rhs' : Source}
    (h : κ.Context x x')
    (op : Value → Value → Except FaultCause Value)
    (hDest : Place.Via κ.Slot dest dest')
    (hLeft : Source.Via κ.Slot lhs lhs')
    (hRight : Source.Via κ.Slot rhs rhs') :
    AgreeUpTo κ.Refuses (Stores κ) (x.computed op dest lhs rhs)
      (x'.computed op dest' lhs' rhs') := by
  unfold ThreeAddress.Context.computed
  apply (h.read_agree hLeft).bind_eq
  intro a
  apply (h.read_agree hRight).bind_eq
  intro b
  apply (AgreeUpTo.of_eq κ.refuses_refl (rfl : op a b = op a b)).bind_eq
  intro v
  exact h.target_agree hDest v

theorem loaded_agree
    {dest dest' : Place}
    {id id' : Nat}
    {index index' : Source}
    (h : κ.Context x x')
    (hDest : Place.Via κ.Slot dest dest')
    (hSlot : κ.Slot id id')
    (hIndex : Source.Via κ.Slot index index') :
    AgreeUpTo κ.Refuses (Stores κ) (x.loaded dest id index)
      (x'.loaded dest' id' index') := by
  unfold ThreeAddress.Context.loaded
  apply (h.read_agree hIndex).bind_eq
  intro i
  apply (h.address_agree hSlot i).bind
  intro a a' hMoves
  apply (AgreeUpTo.of_eq κ.refuses_refl (h.fetch_eq hMoves)).bind_eq
  intro v
  exact h.target_agree hDest v

theorem stored_agree
    {value value' : Source}
    {id id' : Nat}
    {index index' : Source}
    (h : κ.Context x x')
    (hValue : Source.Via κ.Slot value value')
    (hSlot : κ.Slot id id')
    (hIndex : Source.Via κ.Slot index index') :
    AgreeUpTo κ.Refuses (Stores κ) (x.stored value id index)
      (x'.stored value' id' index') := by
  unfold ThreeAddress.Context.stored
  apply (h.read_agree hValue).bind_eq
  intro v
  apply (h.read_agree hIndex).bind_eq
  intro i
  apply (h.address_agree hSlot i).bind
  intro a a' hMoves
  exact h.storeTarget_agree hSlot hMoves v

end Context

end Correspondence

end ThreeAddress
