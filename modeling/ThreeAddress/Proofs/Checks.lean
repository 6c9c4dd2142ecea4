import Mathlib.Data.List.Nodup
import ThreeAddress.Proofs.Verified

/-
  This file reads the checks of the verifier that go through a
  list as conditions on the list: no array is too long or
  empty, no name stands twice, every jump has its label.

  A check for names that stand twice keeps the names that it
  has seen, and so all of them come down to one condition on a
  list of names and those seen before it.

  Key definitions include:
    * `FreshNames`

  Main statements:
    * `Function.checkLimits_eq_ok_iff`
    * `Function.checkVariables_eq_ok_iff`
    * `Function.checkLabels_eq_ok_iff`
    * `checkNames_eq_ok_iff`
    * `Program.exists_entry_iff`
-/

namespace ThreeAddress

------------------------------------------------------------
-- Names That Stand Once
------------------------------------------------------------

/- No name stands twice, and none is among those seen before. -/
def FreshNames (seen names : List String) : Prop :=
  names.Nodup ∧ ∀ x ∈ names, x ∉ seen

theorem freshNames_nil_iff
    {names : List String} :
    FreshNames [] names ↔ names.Nodup := by
  simp [FreshNames]

/- A first name that is new is then among those seen. -/
theorem freshNames_cons_iff
    {seen names : List String}
    {x : String} :
    FreshNames seen (x :: names) ↔
      x ∉ seen ∧ FreshNames (x :: seen) names := by
  constructor
  · intro h
    rcases h with ⟨hNodup, hFresh⟩
    rw [List.nodup_cons] at hNodup
    rw [List.forall_mem_cons] at hFresh
    refine ⟨hFresh.1, hNodup.2, ?_⟩
    intro y hy hSeen
    rcases List.mem_cons.mp hSeen with hSame | hBefore
    · rw [hSame] at hy
      exact hNodup.1 hy
    · exact hFresh.2 y hy hBefore
  · intro h
    rcases h with ⟨hNew, hNodup, hFresh⟩
    constructor
    · rw [List.nodup_cons]
      refine ⟨?_, hNodup⟩
      intro hx
      exact hFresh x hx List.mem_cons_self
    · rw [List.forall_mem_cons]
      refine ⟨hNew, ?_⟩
      intro y hy hSeen
      exact hFresh y hy (List.mem_cons_of_mem x hSeen)

/- A name is found among members just when one has it. -/
theorem find?_name_eq_none_iff
    {α : Type}
    {name : α → String}
    {members : List α}
    {x : String} :
    (members.find? fun m => name m = x) = none ↔
      x ∉ members.map name := by
  simp

------------------------------------------------------------
-- Variables
------------------------------------------------------------

theorem checkLengths_eq_ok_iff
    (function : String)
    {vs : List Variable} :
    checkLengths function vs = .ok () ↔
      ∀ v ∈ vs, ∀ t n, v.slot.shape = .array t n →
        n ≤ maxArrayLength := by
  induction vs with
  | nil => simp [checkLengths]
  | cons v vs ih =>
      rw [checkLengths, List.forall_mem_cons]
      cases hShape : v.slot.shape with
      | scalar t => simp [ih]
      | array t n =>
          by_cases hLong : maxArrayLength < n
          · simp [hLong, Nat.not_le.mpr hLong]
          · simp [hLong, ih, Nat.not_lt.mp hLong]

theorem Shape.isEmptyArray_eq_false_iff
    {shape : Shape} :
    shape.isEmptyArray = false ↔
      ∀ t n, shape = .array t n → 1 ≤ n := by
  rcases shape with t | ⟨t, _ | n⟩
  · simp [isEmptyArray]
  · simp [isEmptyArray]
  · simp [isEmptyArray]

theorem checkVariablesFrom_eq_ok_iff
    {function : String}
    {seen : List String}
    {vs : List Variable} :
    checkVariablesFrom function seen vs = .ok () ↔
      (∀ v ∈ vs, ∀ t n, v.slot.shape = .array t n → 1 ≤ n) ∧
        FreshNames seen (vs.map fun v => v.slot.name) := by
  induction vs generalizing seen with
  | nil => simp [checkVariablesFrom, FreshNames]
  | cons v vs ih =>
      rw [checkVariablesFrom, List.forall_mem_cons, List.map_cons,
        freshNames_cons_iff, ← Shape.isEmptyArray_eq_false_iff]
      by_cases hEmpty : v.slot.shape.isEmptyArray = true
      · simp [hEmpty]
      · by_cases hSeen : v.slot.name ∈ seen
        · simp [hEmpty, hSeen]
        · simp [hEmpty, hSeen, ih]

/- A function within the limits. -/
theorem Function.checkLimits_eq_ok_iff
    {f : Function} :
    f.checkLimits = .ok () ↔
      f.code.length ≤ maxInstructions ∧
        ∀ v ∈ f.vars, ∀ t n, v.slot.shape = .array t n →
          n ≤ maxArrayLength := by
  rw [checkLimits, ← checkLengths_eq_ok_iff f.name, ← Nat.not_lt]
  split
  · next hLong => simp [hLong]
  · next hShort => simp [hShort]

theorem Function.checkVariables_eq_ok_iff
    {f : Function} :
    f.checkVariables = .ok () ↔
      (∀ v ∈ f.vars, ∀ t n, v.slot.shape = .array t n → 1 ≤ n) ∧
        (f.slots.map Slot.name).Nodup := by
  rw [checkVariables, checkVariablesFrom_eq_ok_iff,
    freshNames_nil_iff, slots, List.map_map]
  rfl

------------------------------------------------------------
-- Labels
------------------------------------------------------------

theorem checkLabelNames_eq_ok_iff
    (function : String)
    (seen ls : List LabelDef) :
    checkLabelNames function seen ls = .ok () ↔
      FreshNames (seen.map LabelDef.name) (ls.map LabelDef.name) := by
  induction ls generalizing seen with
  | nil => simp [checkLabelNames, FreshNames]
  | cons l ls ih =>
      rw [checkLabelNames, List.map_cons, freshNames_cons_iff,
        ← find?_name_eq_none_iff, ← List.map_cons, ← ih]
      split
      · next hFirst => simp [hFirst]
      · next hNone => simp [hNone]

theorem checkTargets_eq_ok_iff
    (function : String)
    {table : List (String × Nat)}
    {code : List Instruction} :
    checkTargets function table code = .ok () ↔
      ∀ i ∈ code, ∀ l, i.target? = some l →
        ∃ position, table.lookup l = some position := by
  induction code with
  | nil => simp [checkTargets]
  | cons i code ih =>
      rw [checkTargets, List.forall_mem_cons]
      split
      · next hNone => simp [hNone, ih]
      · next l hTarget =>
          split
          · next hFound => simp [hTarget, hFound, ih]
          · next hNone => simp [hTarget, hNone]

theorem Function.checkLabels_eq_ok_iff
    {f : Function} :
    f.checkLabels = .ok () ↔
      (f.labels.map LabelDef.name).Nodup ∧
        ∀ i ∈ f.code, ∀ l, i.target? = some l →
          ∃ position, f.labelTable.lookup l = some position := by
  have hLabels := checkLabelNames_eq_ok_iff f.name [] f.labels
  rw [List.map_nil, freshNames_nil_iff] at hLabels
  rw [checkLabels, ← hLabels, ← checkTargets_eq_ok_iff f.name]
  split
  · next hError => simp [hError]
  · next hOk => simp [hOk]

------------------------------------------------------------
-- Functions
------------------------------------------------------------

theorem Intrinsic.isSome_ofName?_iff
    {x : String} :
    (ofName? x).isSome = true ↔ ∃ i : Intrinsic, x = i.name := by
  constructor
  · intro h
    rcases Option.isSome_iff_exists.mp h with ⟨i, hi⟩
    have hName := List.find?_some hi
    exact ⟨i, (of_decide_eq_true hName).symm⟩
  · intro h
    rcases h with ⟨i, hi⟩
    rw [hi, ofName?_name]
    rfl

theorem checkNames_eq_ok_iff
    {seen fs : List Function} :
    checkNames seen fs = .ok () ↔
      (∀ f ∈ fs, ∀ i : Intrinsic, f.name ≠ i.name) ∧
        FreshNames (seen.map Function.name)
          (fs.map Function.name) := by
  induction fs generalizing seen with
  | nil => simp [checkNames, FreshNames]
  | cons f fs ih =>
      rw [checkNames, List.forall_mem_cons, List.map_cons,
        freshNames_cons_iff, ← find?_name_eq_none_iff,
        ← List.map_cons]
      by_cases hIntrinsic : (Intrinsic.ofName? f.name).isSome = true
      · rcases Intrinsic.isSome_ofName?_iff.mp hIntrinsic with
          ⟨i, hi⟩
        rw [if_pos hIntrinsic]
        constructor
        · intro h
          cases h
        · intro h
          exact absurd hi (h.1.1 i)
      · have hOwn : ∀ i : Intrinsic, f.name ≠ i.name := by
          intro i hi
          exact hIntrinsic (Intrinsic.isSome_ofName?_iff.mpr ⟨i, hi⟩)
        rw [if_neg hIntrinsic]
        split
        · next hFirst => simp [hFirst]
        · next hNone => simp [hNone, hOwn, ih]

/- The entry is found when `main` is and has no parameters. -/
theorem Program.exists_entry_iff
    {p : Program}
    (hNames : (p.functions.map Function.name).Nodup) :
    (∃ index, p.entry = .ok index) ↔
      ∃ f ∈ p.functions, f.name = entryName ∧ f.params = [] := by
  constructor
  · intro h
    rcases h with ⟨index, hEntry⟩
    rcases getElem?_of_entry hEntry with ⟨f, hf, hMain⟩
    exact ⟨f, List.mem_of_getElem? hf, hMain⟩
  · intro h
    rcases h with ⟨f, hf, hName, hParams⟩
    unfold entry
    split
    · next hNone =>
        rcases List.mem_iff_getElem?.mp hf with ⟨index, hIndex⟩
        rw [List.find?_eq_none] at hNone
        have hMember :=
          hNone (f, index) (List.mem_zipIdx_iff_getElem?.mpr hIndex)
        exact absurd (decide_eq_true hName) hMember
    · next g index hFind =>
        have hMain : g.name = entryName := by
          simpa using List.find?_some hFind
        have hg : g ∈ p.functions := by
          apply List.mem_of_getElem?
          exact List.mem_zipIdx_iff_getElem?.mp
            (List.mem_of_find?_eq_some hFind)
        have hSame : g = f :=
          List.inj_on_of_nodup_map hNames hg hf (hMain.trans hName.symm)
        rw [hSame, hParams]
        exact ⟨index, rfl⟩

end ThreeAddress
