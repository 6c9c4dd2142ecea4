import ThreeAddress.Proofs.ArrayLayout
import ThreeAddress.Proofs.CallsInProgress
import ThreeAddress.Proofs.Renumbering

/-
  This file compares the new frames of two routines that are
  the same up to the order of their local variables. Each
  array lies behind those of the slots before it, so the order
  decides where it lies. The arrays of one variable correspond
  element by element, and one to one, since no two arrays of a
  frame overlap.

  Key definitions include:
    * `slotOffset`
    * `Slot.localCell`
    * `NewElement`, `Extended`

  Main statements:
    * `eq_of_slotOffset`
    * `getElem?_bindCells_local`, `getElem?_bindCells_param`
    * `Routine.Renumbers.newElement_unique`
    * `Routine.Renumbers.bindCells_moved`
-/

namespace ThreeAddress

------------------------------------------------------------
-- Offsets of Arrays
------------------------------------------------------------

/- Where a slot's array lies among the arrays of a frame. -/
def slotOffset (slots : List Slot) (id : Nat) : Nat :=
  slotCells (slots.take id)

theorem slotOffset_add_le
    {slots : List Slot}
    {id jd : Nat}
    {s : Slot}
    (h : slots[id]? = some s)
    (hBefore : id < jd) :
    slotOffset slots id + s.ownedCells ≤ slotOffset slots jd := by
  induction slots generalizing id jd with
  | nil => cases h
  | cons t slots ih =>
      cases jd with
      | zero => omega
      | succ jd =>
          cases id with
          | zero =>
              cases h
              simp only [slotOffset, List.take_zero, slotCells,
                List.take_succ_cons]
              omega
          | succ id =>
              have hRest := ih h (Nat.lt_of_succ_lt_succ hBefore)
              simp only [slotOffset, slotCells,
                List.take_succ_cons] at hRest ⊢
              omega

/- Each array lies within the cells that the slots need. -/
theorem slotOffset_add_le_slotCells
    {slots : List Slot}
    {id : Nat}
    {s : Slot}
    (h : slots[id]? = some s) :
    slotOffset slots id + s.ownedCells ≤ slotCells slots := by
  have hBound := (List.getElem?_eq_some_iff.mp h).1
  have hEnd := slotOffset_add_le h hBound
  rwa [slotOffset, slotOffset, List.take_length] at hEnd

/- No two arrays of a frame overlap. -/
theorem eq_of_slotOffset
    {slots : List Slot}
    {id jd k l : Nat}
    {s t : Slot}
    (hs : slots[id]? = some s)
    (ht : slots[jd]? = some t)
    (hk : k < s.ownedCells)
    (hl : l < t.ownedCells)
    (h : slotOffset slots id + k = slotOffset slots jd + l) :
    id = jd ∧ k = l := by
  rcases Nat.lt_trichotomy id jd with hLess | hSame | hMore
  · have hApart := slotOffset_add_le hs hLess
    omega
  · subst hSame
    omega
  · have hApart := slotOffset_add_le ht hMore
    omega

/- The order of the slots does not matter to their size. -/
theorem slotCells_of_perm
    {slots slots' : List Slot}
    (h : slots.Perm slots') :
    slotCells slots = slotCells slots' := by
  induction h with
  | nil => rfl
  | cons s _ ih => rw [slotCells, slotCells, ih]
  | swap s t slots =>
      simp only [slotCells]
      omega
  | trans _ _ ih ih' => rw [ih, ih']

------------------------------------------------------------
-- Cells and Memory of a New Frame
------------------------------------------------------------

/- What a local variable holds at first. -/
def Slot.localCell (s : Slot) (base : Nat) : Cell :=
  match s.shape with
  | .scalar t => .scalar (.zero t)
  | .array _ n => .array base n

/- A local variable starts at zero, whatever the arguments. -/
theorem getElem?_bindCells_local
    {slots : List Slot}
    {id : Nat}
    {s : Slot}
    (h : slots[id]? = some s)
    (hLocal : s.param = false)
    (args : List Cell)
    (base : Nat) :
    (bindCells slots args base)[id]? =
      some (s.localCell (base + slotOffset slots id)) := by
  induction slots generalizing id args base with
  | nil => cases h
  | cons t slots ih =>
      rw [bindCells.eq_def]
      dsimp only
      cases id with
      | zero =>
          cases h
          rw [if_neg (by simp [hLocal])]
          cases hShape : s.shape with
          | scalar u => simp [Slot.localCell, hShape]
          | array u n =>
              simp [Slot.localCell, hShape, slotOffset, slotCells]
      | succ id =>
          have hOffset :
              slotOffset (t :: slots) (id + 1) =
                t.ownedCells + slotOffset slots id := rfl
          rw [hOffset]
          by_cases hParam : t.param = true
          · have hOwned : t.ownedCells = 0 := by
              simp [Slot.ownedCells, hParam]
            rw [if_pos hParam, hOwned, Nat.zero_add]
            cases args with
            | nil => exact ih h [] base
            | cons arg args => exact ih h args base
          · rw [if_neg hParam]
            cases hShape : t.shape with
            | scalar u =>
                have hOwned : t.ownedCells = 0 := by
                  simp [Slot.ownedCells, hShape]
                rw [hOwned, Nat.zero_add]
                exact ih h args base
            | array u n =>
                have hOwned : t.ownedCells = n := by
                  simp [Slot.ownedCells, hParam, hShape]
                rw [hOwned, ← Nat.add_assoc]
                exact ih h args (base + n)

/- A parameter takes its argument, or zero without one. -/
theorem getElem?_bindCells_param
    {params : List Slot}
    (hParams : ∀ s ∈ params, s.param = true)
    {id : Nat}
    {s : Slot}
    (h : params[id]? = some s)
    (locals : List Slot)
    (args : List Cell)
    (base : Nat) :
    (bindCells (params ++ locals) args base)[id]? =
      some (args[id]?.getD (.scalar (.zero s.shape.element))) := by
  induction params generalizing id args with
  | nil => cases h
  | cons t params ih =>
      rw [List.forall_mem_cons] at hParams
      rw [List.cons_append, bindCells.eq_def]
      dsimp only
      rw [if_pos hParams.1]
      cases id with
      | zero =>
          cases h
          cases args with
          | nil => rfl
          | cons arg args => rfl
      | succ id =>
          cases args with
          | nil => exact ih hParams.2 h []
          | cons arg args => exact ih hParams.2 h args

/- The elements of a new array are zero. -/
theorem getElem?_allocate_local
    {slots : Array Slot}
    {id k : Nat}
    {s : Slot}
    (h : slots.toList[id]? = some s)
    (hk : k < s.ownedCells)
    (memory : Array Value) :
    (allocate memory slots)[memory.size + slotOffset slots.toList id + k]? =
      some (.zero s.shape.element) := by
  rcases slots with ⟨slots⟩
  rw [allocate_eq_foldl]
  dsimp only at h ⊢
  induction slots generalizing id memory with
  | nil => cases h
  | cons t slots ih =>
      rw [List.foldl_cons]
      cases id with
      | zero =>
          cases h
          have hInside :
              memory.size + k < (allocateSlot memory s).size := by
            simp [allocateSlot, hk]
          have hKept := getElem?_allocate (allocateSlot memory s)
            slots.toArray hInside
          rw [allocate_eq_foldl] at hKept
          rw [slotOffset, List.take_zero, slotCells, Nat.add_zero, hKept]
          simp [allocateSlot, hk]
      | succ id =>
          have hSize : (allocateSlot memory t).size =
              memory.size + t.ownedCells := by
            simp [allocateSlot]
          have hRest := ih (allocateSlot memory t) h
          rw [hSize] at hRest
          rw [slotOffset, List.take_succ_cons, slotCells,
            ← Nat.add_assoc]
          exact hRest

------------------------------------------------------------
-- Variables That Correspond
------------------------------------------------------------

/-
  Addresses of one element in new frames whose arrays lie from
  a base on: of one variable, and equally far from its start.
-/
def NewElement
    (base : Nat)
    (slots slots' : List Slot)
    (a a' : Nat) : Prop :=
  ∃ id id' s k,
    slots[id]? = some s ∧
      slots'[id']? = some s ∧
      k < s.ownedCells ∧
      a = base + slotOffset slots id + k ∧
      a' = base + slotOffset slots' id' + k

/- Addresses that are moved, or new. -/
def Extended
    (moves : Nat → Nat → Prop)
    (base : Nat)
    (r r' : Routine)
    (a a' : Nat) : Prop :=
  moves a a' ∨ NewElement base r.slots.toList r'.slots.toList a a'

/- What is moved stays so when more addresses are. -/
theorem Cell.Moved.mono
    {moves moves' : Nat → Nat → Prop}
    {c c' : Cell}
    (h : Cell.Moved moves c c')
    (hMore : ∀ a a', moves a a' → moves' a a') :
    Cell.Moved moves' c c' := by
  cases h with
  | scalar v => exact .scalar v
  | array hElements =>
      exact .array fun k hk => hMore _ _ (hElements k hk)

/- Where no name stands twice, a slot has one number. -/
theorem eq_of_slot
    {slots : List Slot}
    {id jd : Nat}
    {s : Slot}
    (hNames : (slots.map Slot.name).Nodup)
    (h : slots[id]? = some s)
    (h' : slots[jd]? = some s) :
    id = jd := by
  have hBound := (List.getElem?_eq_some_iff.mp h).1
  exact (List.getElem?_inj hBound hNames.of_map).mp (h.trans h'.symm)

namespace Routine.Renumbers

variable {T : Nat → Nat → Prop} {r r' : Routine}

theorem perm_slots
    (h : Renumbers T r r') :
    r.slots.toList.Perm r'.slots.toList := by
  rcases h.slots with ⟨params, locals, locals', hSlots, hSlots', hPerm, _⟩
  rw [hSlots, hSlots']
  exact hPerm.append_left params

theorem names'
    (h : Renumbers T r r') :
    (r'.slots.toList.map Slot.name).Nodup :=
  (h.perm_slots.map Slot.name).nodup_iff.mp h.names

theorem ownedCells_eq
    (h : Renumbers T r r') :
    r.ownedCells = r'.ownedCells := by
  rw [r.ownedCells_eq, r'.ownedCells_eq, slotCells_of_perm h.perm_slots]

/- Slots correspond one to one. -/
theorem sameSlot_unique
    (h : Renumbers T r r')
    {i j i' j' : Nat}
    (hi : SameSlot r.slots r'.slots i i')
    (hj : SameSlot r.slots r'.slots j j') :
    i = j ↔ i' = j' := by
  rcases hi with ⟨s, hs, hs'⟩
  rcases hj with ⟨t, ht, ht'⟩
  rw [← Array.getElem?_toList] at hs hs' ht ht'
  constructor
  · intro hSame
    rw [hSame, ht] at hs
    cases hs
    exact eq_of_slot h.names' hs' ht'
  · intro hSame
    rw [hSame, ht'] at hs'
    cases hs'
    exact eq_of_slot h.names hs ht

/- The elements of new arrays correspond one to one. -/
theorem newElement_unique
    (h : Renumbers T r r')
    {base a b a' b' : Nat}
    (ha : NewElement base r.slots.toList r'.slots.toList a a')
    (hb : NewElement base r.slots.toList r'.slots.toList b b') :
    a = b ↔ a' = b' := by
  rcases ha with ⟨i, i', s, k, hs, hs', hk, rfl, rfl⟩
  rcases hb with ⟨j, j', t, l, ht, ht', hl, rfl, rfl⟩
  constructor
  · intro hSame
    rcases eq_of_slotOffset hs ht hk hl (by omega) with ⟨rfl, rfl⟩
    rw [hs] at ht
    cases ht
    rw [eq_of_slot h.names' hs' ht']
  · intro hSame
    rcases eq_of_slotOffset hs' ht' hk hl (by omega) with ⟨rfl, rfl⟩
    rw [hs'] at ht'
    cases ht'
    rw [eq_of_slot h.names hs ht]

/- New elements lie behind the base, within the new cells. -/
theorem newElement_inside
    (h : Renumbers T r r')
    {base a a' : Nat}
    (ha : NewElement base r.slots.toList r'.slots.toList a a') :
    base ≤ a ∧ base ≤ a' ∧
      a < base + r.ownedCells ∧ a' < base + r.ownedCells := by
  rcases ha with ⟨i, i', s, k, hs, hs', hk, rfl, rfl⟩
  have hEnd := slotOffset_add_le_slotCells hs
  have hEnd' := slotOffset_add_le_slotCells hs'
  rw [← r.ownedCells_eq] at hEnd
  rw [← r'.ownedCells_eq, ← h.ownedCells_eq] at hEnd'
  omega

/- A parameter has the same number and argument in both. -/
theorem bindCells_param
    (h : Renumbers T r r')
    {id id' : Nat}
    {s : Slot}
    (hs : r.slots.toList[id]? = some s)
    (hs' : r'.slots.toList[id']? = some s)
    (hParam : s.param = true)
    (args args' : List Cell)
    (base : Nat) :
    (bindCells r.slots.toList args base)[id]? =
        some (args[id]?.getD (.scalar (.zero s.shape.element))) ∧
      (bindCells r'.slots.toList args' base)[id']? =
        some (args'[id]?.getD (.scalar (.zero s.shape.element))) := by
  rcases h.slots with
    ⟨params, locals, locals', hSlots, hSlots', _, hParams, hLocals⟩
  have hFound : params[id]? = some s := by
    rw [hSlots, List.getElem?_append] at hs
    split at hs
    · exact hs
    · have hLocal := hLocals s (List.mem_of_getElem? hs)
      rw [hParam] at hLocal
      cases hLocal
  have hSame : id = id' := by
    apply eq_of_slot h.names' _ hs'
    have hBound := (List.getElem?_eq_some_iff.mp hFound).1
    rw [hSlots', List.getElem?_append_left hBound, hFound]
  subst hSame
  rw [hSlots, hSlots']
  exact ⟨getElem?_bindCells_param hParams hFound locals args base,
    getElem?_bindCells_param hParams hFound locals' args' base⟩

/-
  The cells of new frames hold the same at corresponding
  slots, when their arguments do.
-/
theorem bindCells_moved
    (h : Renumbers T r r')
    {moves : Nat → Nat → Prop}
    {args args' : List Cell}
    (hArgs : List.Forall₂ (Cell.Moved moves) args args')
    (base : Nat)
    {id id' : Nat}
    (hSlot : SameSlot r.slots r'.slots id id') :
    Option.Rel (Cell.Moved (Extended moves base r r'))
      (bindCells r.slots.toList args base)[id]?
      (bindCells r'.slots.toList args' base)[id']? := by
  rcases hSlot with ⟨s, hs, hs'⟩
  rw [← Array.getElem?_toList] at hs hs'
  by_cases hParam : s.param = true
  · rcases h.bindCells_param hs hs' hParam args args' base with
      ⟨hCell, hCell'⟩
    rw [hCell, hCell']
    have hArg := rel_getElem? hArgs id
    generalize args[id]? = arg at hArg
    generalize args'[id]? = arg' at hArg
    cases hArg with
    | none => exact .some (.scalar _)
    | some hMoved => exact .some (hMoved.mono fun _ _ => .inl)
  · have hLocal : s.param = false := Bool.eq_false_iff.mpr hParam
    rw [getElem?_bindCells_local hs hLocal args base,
      getElem?_bindCells_local hs' hLocal args' base]
    cases hShape : s.shape with
    | scalar t =>
        simp only [Slot.localCell, hShape]
        exact .some (.scalar _)
    | array t n =>
        have hOwned : s.ownedCells = n := by
          simp [Slot.ownedCells, hLocal, hShape]
        simp only [Slot.localCell, hShape]
        refine .some (.array ?_)
        intro k hk
        rw [← hOwned] at hk
        exact .inr ⟨id, id', s, k, hs, hs', hk, rfl, rfl⟩

/- New elements are zero in both memories. -/
theorem allocate_newElement
    {base a a' : Nat}
    {memory memory' : Array Value}
    (hSize : memory.size = base)
    (hSize' : memory'.size = base)
    (ha : NewElement base r.slots.toList r'.slots.toList a a') :
    (allocate memory r.slots)[a]? = (allocate memory' r'.slots)[a']? := by
  rcases ha with ⟨i, i', s, k, hs, hs', hk, rfl, rfl⟩
  have hZero := getElem?_allocate_local hs hk memory
  have hZero' := getElem?_allocate_local hs' hk memory'
  rw [hSize] at hZero
  rw [hSize'] at hZero'
  rw [hZero, hZero']

end Routine.Renumbers

end ThreeAddress
