import ThreeAddress.Proofs.CallsInProgress
import ThreeAddress.Proofs.Correspondence

/-
  This file compares what two machines see that run the same
  routine with their arrays in different places. Addresses of
  one memory are moved to addresses of the other, one to one.
  Arrays that are moved element by element and hold the same
  values cannot be told apart: every operand has the same
  value or fails with the same cause, and every destination
  is moved like the arrays.

  A relocation is a correspondence in which every slot stands
  for itself and refusals are the same.

  Key definitions include:
    * `Relocation`
    * `Relocation.Memory`, `Relocation.Cell`
    * `Relocation.Context`
    * `Relocation.correspondence`

  Main statements:
    * `Relocation.Context.read_eq`
    * `Relocation.Context.arguments_agree`
    * `Relocation.Context.target_agree`
    * `Relocation.Memory.store`, `Relocation.Memory.allocate`
-/

namespace ThreeAddress

------------------------------------------------------------
-- Moved Addresses
------------------------------------------------------------

/-
  A way to move addresses of one memory to another, one to
  one. What lies behind a mark in each is moved as a whole.
-/
structure Relocation where
  mark : Nat
  mark' : Nat
  Moves : Nat → Nat → Prop
  unique :
    ∀ {a b a' b'}, Moves a a' → Moves b b' → (a = b ↔ a' = b')
  behind : ∀ k, Moves (mark + k) (mark' + k)
  apart : ∀ {a a'}, Moves a a' → (mark ≤ a ↔ mark' ≤ a')

namespace Relocation

variable {ρ : Relocation}

/- Addresses behind the marks keep their distance to them. -/
theorem exists_behind
    {a a' : Nat}
    (h : ρ.Moves a a')
    (hBehind : ρ.mark ≤ a) :
    ∃ k, a = ρ.mark + k ∧ a' = ρ.mark' + k := by
  refine ⟨a - ρ.mark, by omega, ?_⟩
  exact (ρ.unique h (ρ.behind (a - ρ.mark))).mp (by omega)

theorem lt_iff
    {a a' k : Nat}
    (h : ρ.Moves a a') :
    a < ρ.mark + k ↔ a' < ρ.mark' + k := by
  by_cases hBehind : ρ.mark ≤ a
  · rcases exists_behind h hBehind with ⟨j, rfl, rfl⟩
    omega
  · have hBelow := (ρ.apart h).not.mp hBehind
    omega

/- The lengths are equally far behind the marks. -/
def Length (ρ : Relocation) (n n' : Nat) : Prop :=
  ∃ k, n = ρ.mark + k ∧ n' = ρ.mark' + k

/-
  The memories are equally long behind the marks, and hold
  the same values at addresses that are moved.
-/
structure Memory
    (ρ : Relocation)
    (memory memory' : Array Value) : Prop where
  length : ρ.Length memory.size memory'.size
  value :
    ∀ {a a'}, ρ.Moves a a' → memory[a]? = memory'[a']?

/- The cells hold the same value, or arrays that are moved. -/
inductive Cell (ρ : Relocation) :
    ThreeAddress.Cell → ThreeAddress.Cell → Prop where
| scalar (v : Value) : Cell ρ (.scalar v) (.scalar v)
| array
    {base base' n : Nat}
    (elements : ∀ k, k < n → ρ.Moves (base + k) (base' + k)) :
    Cell ρ (.array base n) (.array base' n)

/- Slot by slot the frames have such cells. -/
def Cells
    (ρ : Relocation)
    (cells cells' : Array ThreeAddress.Cell) : Prop :=
  ∀ id : Nat, Option.Rel ρ.Cell cells[id]? cells'[id]?

/- The targets are one cell, or addresses that are moved. -/
inductive Target (ρ : Relocation) :
    ThreeAddress.Target → ThreeAddress.Target → Prop where
| cell (id : Nat) : Target ρ (.cell id) (.cell id)
| memory
    {a a' : Nat}
    (moves : ρ.Moves a a') :
    Target ρ (.memory a) (.memory a')

/- Two steps of one routine see the same, up to moving. -/
structure Context
    (ρ : Relocation)
    (x x' : ThreeAddress.Context) : Prop where
  routine : x.routine = x'.routine
  cells : ρ.Cells x.frame.cells x'.frame.cells
  memory : ρ.Memory x.memory x'.memory

------------------------------------------------------------
-- Relocations as Correspondences
------------------------------------------------------------

/- Every slot and every refusal corresponds to itself. -/
def correspondence (ρ : Relocation) : Correspondence where
  Slot := Eq
  Moves := ρ.Moves
  Refuses := Eq
  slot_unique := by
    rintro i j i' j' rfl rfl
    exact Iff.rfl
  moves_unique := ρ.unique
  refuses_refl := by
    intro cause
    rfl
  refuses_slot := by
    rintro i i' rfl
    rfl

theorem cell_eq_moved
    (ρ : Relocation) :
    ρ.Cell = Cell.Moved ρ.Moves := by
  funext c c'
  apply propext
  constructor
  · intro h
    cases h with
    | scalar v => exact .scalar v
    | array hElements => exact .array hElements
  · intro h
    cases h with
    | scalar v => exact .scalar v
    | array hElements => exact .array hElements

theorem target_eq
    (ρ : Relocation) :
    ρ.Target = ρ.correspondence.Target := by
  funext t t'
  apply propext
  constructor
  · intro h
    cases h with
    | cell id => exact .cell rfl
    | memory hMoves => exact .memory hMoves
  · intro h
    cases h with
    | @cell id id' hSlot =>
        have hSame : id = id' := hSlot
        subst hSame
        exact .cell id
    | memory hMoves => exact .memory hMoves

theorem cells_iff
    {cells cells' : Array ThreeAddress.Cell} :
    ρ.Cells cells cells' ↔ ρ.correspondence.Cells cells cells' := by
  unfold Cells
  rw [cell_eq_moved]
  constructor
  · intro h id id' hSlot
    have hSame : id = id' := hSlot
    subst hSame
    exact h id
  · intro h id
    exact h id id rfl

theorem Memory.correspondence
    {memory memory' : Array Value}
    (h : ρ.Memory memory memory') :
    ρ.correspondence.Memory memory memory' := by
  intro a a' hMoves
  exact h.value hMoves

------------------------------------------------------------
-- Changes of the Memory
------------------------------------------------------------

namespace Memory

variable {memory memory' : Array Value}

theorem lt_size_iff
    {a a' : Nat}
    (h : ρ.Memory memory memory')
    (hMoves : ρ.Moves a a') :
    a < memory.size ↔ a' < memory'.size := by
  rcases h.length with ⟨k, hSize, hSize'⟩
  rw [hSize, hSize']
  exact lt_iff hMoves

/- The same value is stored at addresses that are moved. -/
theorem store
    {t t' : ThreeAddress.Target}
    (h : ρ.Memory memory memory')
    (hTarget : ρ.Target t t')
    (w : Value) :
    ρ.Memory (t.store w memory) (t'.store w memory') := by
  rw [target_eq] at hTarget
  constructor
  · rw [Target.size_store, Target.size_store]
    exact h.length
  · intro a a' hMoves
    exact h.correspondence.store hTarget w a a' hMoves

/- The memories are cut off equally far behind the marks. -/
theorem shrink
    {mark mark' : Nat}
    (h : ρ.Memory memory memory')
    (hMarks : ρ.Length mark mark') :
    ρ.Memory (memory.shrink mark) (memory'.shrink mark') := by
  rcases h.length with ⟨k, hSize, hSize'⟩
  rcases hMarks with ⟨j, rfl, rfl⟩
  constructor
  · refine ⟨min j k, ?_, ?_⟩
    · rw [Array.size_shrink]
      omega
    · rw [Array.size_shrink]
      omega
  · intro a a' hMoves
    have hLt := lt_iff (k := j) hMoves
    by_cases hInside : a < ρ.mark + j
    · rw [getElem?_shrink memory hInside,
        getElem?_shrink memory' (hLt.mp hInside)]
      exact h.value hMoves
    · have hOutside : ¬ a' < ρ.mark' + j := hLt.not.mp hInside
      rw [Array.getElem?_eq_none, Array.getElem?_eq_none]
      · rw [Array.size_shrink]
        omega
      · rw [Array.size_shrink]
        omega

/- New arrays come behind the memories, all zero. -/
theorem allocate
    (h : ρ.Memory memory memory')
    (slots : Array Slot) :
    ρ.Memory (allocate memory slots)
      (ThreeAddress.allocate memory' slots) := by
  rcases h.length with ⟨k, hSize, hSize'⟩
  rw [allocate_eq_append memory, allocate_eq_append memory']
  constructor
  · refine ⟨k + (ThreeAddress.allocate #[] slots).size, ?_, ?_⟩
    · rw [Array.size_append]
      omega
    · rw [Array.size_append]
      omega
  · intro a a' hMoves
    have hInside := h.lt_size_iff hMoves
    rw [Array.getElem?_append, Array.getElem?_append]
    by_cases hBound : a < memory.size
    · rw [if_pos hBound, if_pos (hInside.mp hBound)]
      exact h.value hMoves
    · rw [if_neg hBound, if_neg (hInside.not.mp hBound)]
      rcases exists_behind hMoves (by omega) with ⟨j, rfl, rfl⟩
      have hOffset : ρ.mark + j - memory.size =
          ρ.mark' + j - memory'.size := by omega
      rw [hOffset]

end Memory

------------------------------------------------------------
-- Cells
------------------------------------------------------------

namespace Cells

variable {cells cells' : Array ThreeAddress.Cell}

/- The same value is written to the same slot. -/
theorem write
    (h : ρ.Cells cells cells')
    (id : Nat)
    (w : Value) :
    ρ.Cells (cells.setIfInBounds id (.scalar w))
      (cells'.setIfInBounds id (.scalar w)) := by
  rw [cells_iff] at h ⊢
  exact h.write rfl w

theorem of_forall₂
    {args args' : List ThreeAddress.Cell}
    (h : List.Forall₂ ρ.Cell args args') :
    ρ.Cells args.toArray args'.toArray := by
  intro id
  rw [List.getElem?_toArray, List.getElem?_toArray]
  exact rel_getElem? h id

end Cells

/- New frames have the same cells when their arguments are. -/
theorem forall₂_bindCells
    {args args' : List ThreeAddress.Cell}
    {base base' : Nat}
    (slots : List Slot)
    (hArgs : List.Forall₂ ρ.Cell args args')
    (hBase : ρ.Length base base') :
    List.Forall₂ ρ.Cell (bindCells slots args base)
      (bindCells slots args' base') := by
  induction slots generalizing args args' base base' with
  | nil => exact .nil
  | cons s slots ih =>
      rw [bindCells.eq_def, bindCells.eq_def (s :: slots)]
      dsimp only
      by_cases hParam : s.param = true
      · rw [if_pos hParam, if_pos hParam]
        cases hArgs with
        | nil => exact .cons (.scalar _) (ih .nil hBase)
        | cons hHead hTail => exact .cons hHead (ih hTail hBase)
      · rw [if_neg hParam, if_neg hParam]
        cases s.shape with
        | scalar t => exact .cons (.scalar _) (ih hArgs hBase)
        | array t n =>
            rcases hBase with ⟨k, rfl, rfl⟩
            refine .cons (.array ?_) (ih hArgs ⟨k + n, ?_, ?_⟩)
            · intro j _
              rw [Nat.add_assoc, Nat.add_assoc]
              exact ρ.behind (k + j)
            · rw [Nat.add_assoc]
            · rw [Nat.add_assoc]

------------------------------------------------------------
-- Reading and Writing
------------------------------------------------------------

namespace Context

open Outcome (Agree)

variable {x x' : ThreeAddress.Context}

theorem correspondence
    (h : ρ.Context x x') :
    ρ.correspondence.Context x x' where
  slots := by
    rintro id id' rfl
    rw [h.routine]
  cells := cells_iff.mp h.cells
  memory := h.memory.correspondence

/- An operand has the same value in both. -/
theorem read_eq
    (h : ρ.Context x x')
    (src : Source) :
    x.read src = x'.read src :=
  (h.correspondence.read_agree (.self src)).eq

theorem condition_eq
    (h : ρ.Context x x')
    (cond : Cond)
    (lhs rhs : Source) :
    x.condition cond lhs rhs = x'.condition cond lhs rhs :=
  (h.correspondence.condition_agree cond (.self lhs) (.self rhs)).eq

/- The arguments of a call bind values and moved arrays. -/
theorem arguments_agree
    (h : ρ.Context x x')
    (args : List Argument) :
    Agree (List.Forall₂ ρ.Cell) (x.arguments args)
      (x'.arguments args) := by
  rw [cell_eq_moved]
  apply Outcome.AgreeUpTo.agree
  apply h.correspondence.arguments_agree
  rw [List.forall₂_same]
  intro arg _
  exact .self arg

/- Two writes store the same value where the other does. -/
def Stores
    (ρ : Relocation)
    (found found' : ThreeAddress.Target × Value) : Prop :=
  ρ.Target found.1 found'.1 ∧ found.2 = found'.2

/- Writes that correspond store where the other does. -/
theorem agree_stores
    {result result' : Except FaultCause (ThreeAddress.Target × Value)}
    (h : Outcome.AgreeUpTo ρ.correspondence.Refuses
      (Correspondence.Context.Stores ρ.correspondence) result result') :
    Agree (Stores ρ) result result' := by
  have hStores :
      Stores ρ = Correspondence.Context.Stores ρ.correspondence := by
    funext found found'
    rw [Stores, Correspondence.Context.Stores, target_eq]
  rw [hStores]
  exact Outcome.AgreeUpTo.agree h

/- A destination is found in both, at moved addresses. -/
theorem target_agree
    (h : ρ.Context x x')
    (p : Place)
    (v : Value) :
    Agree (Stores ρ) (x.target p v) (x'.target p v) :=
  agree_stores (h.correspondence.target_agree (.self p) v)

theorem copied_agree
    (h : ρ.Context x x')
    (dest : Place)
    (src : Source) :
    Agree (Stores ρ) (x.copied dest src) (x'.copied dest src) :=
  agree_stores (h.correspondence.copied_agree (.self dest) (.self src))

theorem computed_agree
    (h : ρ.Context x x')
    (op : Value → Value → Except FaultCause Value)
    (dest : Place)
    (lhs rhs : Source) :
    Agree (Stores ρ) (x.computed op dest lhs rhs)
      (x'.computed op dest lhs rhs) :=
  agree_stores (h.correspondence.computed_agree op (.self dest)
    (.self lhs) (.self rhs))

theorem loaded_agree
    (h : ρ.Context x x')
    (dest : Place)
    (array : Nat)
    (index : Source) :
    Agree (Stores ρ) (x.loaded dest array index)
      (x'.loaded dest array index) :=
  agree_stores (h.correspondence.loaded_agree (.self dest) rfl
    (.self index))

theorem stored_agree
    (h : ρ.Context x x')
    (value : Source)
    (array : Nat)
    (index : Source) :
    Agree (Stores ρ) (x.stored value array index)
      (x'.stored value array index) :=
  agree_stores (h.correspondence.stored_agree (.self value) rfl
    (.self index))

end Context

end Relocation

end ThreeAddress
