import ThreeAddress.Machine.Step
import ThreeAddress.Proofs.Outcome

/-
  This file says why an action can fail before it calls or
  reads or writes anything: for what its operands refer to
  and the values that they have. The limits of the run and
  its input and output are no such causes.

  Key definitions include:
    * `FaultCause.isOfOperands`

  Main statements:
    * `Context.isOfOperands_of_read`
    * `Context.isOfOperands_of_arguments`
    * `Context.isOfOperands_of_target`
-/

namespace ThreeAddress

/- The causes that lie in the operands of an action. -/
def FaultCause.isOfOperands : FaultCause → Bool
| .divisionByZero => true
| .indexOutOfBounds _ _ _ => true
| .invalidSlot _ => true
| .type _ => true
| .dangling => true
| _ => false

namespace Context

variable {x : Context} {cause : FaultCause}

------------------------------------------------------------
-- Reading
------------------------------------------------------------

theorem isOfOperands_of_slotValue
    {id : Nat}
    (h : x.slotValue id = .error cause) :
    cause.isOfOperands = true := by
  unfold slotValue at h
  split at h
  · cases h
  · cases h
    rfl

theorem isOfOperands_of_slotArray
    {id : Nat}
    (h : x.slotArray id = .error cause) :
    cause.isOfOperands = true := by
  unfold slotArray at h
  split at h
  · cases h
  · cases h
    rfl

theorem isOfOperands_blame
    {id : Nat}
    {blamed : Slot → FaultCause}
    (h : ∀ s, (blamed s).isOfOperands = true) :
    (x.blame id blamed).isOfOperands = true := by
  unfold blame
  split
  · exact h _
  · rfl

theorem isOfOperands_of_address
    {id : Nat}
    {i : Value}
    (h : x.address id i = .error cause) :
    cause.isOfOperands = true := by
  unfold address at h
  split at h
  · cases h
    exact isOfOperands_blame fun _ => rfl
  · split at h
    · next hArray =>
        cases h
        exact isOfOperands_of_slotArray hArray
    · split at h
      · cases h
      · cases h
        exact isOfOperands_blame fun _ => rfl

theorem isOfOperands_of_fetch
    {a : Nat}
    (h : x.fetch a = .error cause) :
    cause.isOfOperands = true := by
  unfold fetch at h
  split at h
  · cases h
  · cases h
    rfl

theorem isOfOperands_of_elementAddress
    {id : Nat}
    {i : Index Nat}
    (h : x.elementAddress id i = .error cause) :
    cause.isOfOperands = true := by
  unfold elementAddress at h
  split at h
  · next hIndex =>
      cases h
      cases i with
      | const n => cases hIndex
      | var slot => exact isOfOperands_of_slotValue hIndex
  · exact isOfOperands_of_address h

/- An operand that has no value lacks it for its own sake. -/
theorem isOfOperands_of_read
    {src : Source}
    (h : x.read src = .error cause) :
    cause.isOfOperands = true := by
  rcases src with (id | ⟨id, i⟩) | n | r
  · exact isOfOperands_of_slotValue h
  · simp only [read, readPlace] at h
    split at h
    · next hAddress =>
        cases h
        exact isOfOperands_of_elementAddress hAddress
    · exact isOfOperands_of_fetch h
  · cases h
  · cases h

/- So do the arguments of a call. -/
theorem isOfOperands_of_arguments
    {args : List Argument}
    (h : x.arguments args = .error cause) :
    cause.isOfOperands = true := by
  unfold arguments at h
  induction args with
  | nil => cases h
  | cons arg args ih =>
      rw [List.mapM_cons, Outcome.bind_eq_error] at h
      rcases h with hHead | ⟨cell, _, hTail⟩
      · cases arg with
        | value src =>
            exact isOfOperands_of_read (Outcome.map_eq_error.mp hHead)
        | array id =>
            exact isOfOperands_of_slotArray
              (Outcome.map_eq_error.mp hHead)
      · rcases Outcome.bind_eq_error.mp hTail with
          hArgs | ⟨cells, _, hPure⟩
        · exact ih hArgs
        · cases hPure

------------------------------------------------------------
-- Writing
------------------------------------------------------------

theorem isOfOperands_of_coerce
    {id : Nat}
    {v : Value}
    (h : x.coerce id v = .error cause) :
    cause.isOfOperands = true := by
  unfold coerce at h
  split at h
  · cases h
    rfl
  · split at h
    · cases h
    · cases h
      rfl

theorem isOfOperands_of_storeTarget
    {id a : Nat}
    {v : Value}
    (h : x.storeTarget id a v = .error cause) :
    cause.isOfOperands = true := by
  unfold storeTarget at h
  split at h
  · next hCoerce =>
      cases h
      exact isOfOperands_of_coerce hCoerce
  · split at h
    · cases h
    · cases h
      rfl

/- A place that takes no value refuses it for its own sake. -/
theorem isOfOperands_of_target
    {p : Place}
    {v : Value}
    (h : x.target p v = .error cause) :
    cause.isOfOperands = true := by
  unfold target at h
  split at h
  · split at h
    · next hCoerce =>
        cases h
        exact isOfOperands_of_coerce hCoerce
    · split at h
      · cases h
      · cases h
        rfl
  · split at h
    · next hAddress =>
        cases h
        exact isOfOperands_of_elementAddress hAddress
    · exact isOfOperands_of_storeTarget h

end Context

------------------------------------------------------------
-- Operations
------------------------------------------------------------

theorem isOfOperands_of_arith
    {op : ArithOp}
    {a b : Value}
    {cause : FaultCause}
    (h : arith op a b = .error cause) :
    cause.isOfOperands = true := by
  have hInt : ∀ m n e,
      arithInt op m n = .error e → e.isOfOperands = true := by
    intro m n e hError
    cases op <;> simp only [arithInt] at hError <;> try cases hError
    split at hError <;> cases hError
    rfl
  have hSingle : ∀ y z e,
      arithSingle op y z = .error e → e.isOfOperands = true := by
    intro y z e hError
    cases op <;> simp only [arithSingle] at hError <;>
      try cases hError
    split at hError <;> cases hError
    rfl
  unfold arith at h
  split at h
  · exact hInt _ _ cause (Outcome.map_eq_error.mp h)
  · exact hSingle _ _ cause (Outcome.map_eq_error.mp h)

theorem isOfOperands_of_bitwise
    {op : BitOp}
    {a b : Value}
    {cause : FaultCause}
    (h : bitwise op a b = .error cause) :
    cause.isOfOperands = true := by
  unfold bitwise at h
  split at h
  · cases h
  · cases h
    rfl

namespace Context

variable {x : Context} {cause : FaultCause}

theorem isOfOperands_of_copied
    {dest : Place}
    {src : Source}
    (h : x.copied dest src = .error cause) :
    cause.isOfOperands = true := by
  rcases Outcome.bind_eq_error.mp h with hRead | ⟨v, _, hTarget⟩
  · exact isOfOperands_of_read hRead
  · exact isOfOperands_of_target hTarget

theorem isOfOperands_of_computed
    {op : Value → Value → Except FaultCause Value}
    {dest : Place}
    {lhs rhs : Source}
    (hOp : ∀ a b e, op a b = .error e → e.isOfOperands = true)
    (h : x.computed op dest lhs rhs = .error cause) :
    cause.isOfOperands = true := by
  simp only [computed, Outcome.bind_eq_error] at h
  rcases h with hLeft | ⟨a, _, hRight | ⟨b, _, hValue | ⟨v, _, hTarget⟩⟩⟩
  · exact isOfOperands_of_read hLeft
  · exact isOfOperands_of_read hRight
  · exact hOp a b cause hValue
  · exact isOfOperands_of_target hTarget

theorem isOfOperands_of_loaded
    {dest : Place}
    {array : Nat}
    {index : Source}
    (h : x.loaded dest array index = .error cause) :
    cause.isOfOperands = true := by
  simp only [loaded, Outcome.bind_eq_error] at h
  rcases h with
    hIndex | ⟨i, _, hAddress | ⟨a, _, hFetch | ⟨v, _, hTarget⟩⟩⟩
  · exact isOfOperands_of_read hIndex
  · exact isOfOperands_of_address hAddress
  · exact isOfOperands_of_fetch hFetch
  · exact isOfOperands_of_target hTarget

theorem isOfOperands_of_stored
    {value index : Source}
    {array : Nat}
    (h : x.stored value array index = .error cause) :
    cause.isOfOperands = true := by
  simp only [stored, Outcome.bind_eq_error] at h
  rcases h with
    hValue | ⟨v, _, hIndex | ⟨i, _, hAddress | ⟨a, _, hTarget⟩⟩⟩
  · exact isOfOperands_of_read hValue
  · exact isOfOperands_of_read hIndex
  · exact isOfOperands_of_address hAddress
  · exact isOfOperands_of_storeTarget hTarget

theorem isOfOperands_of_condition
    {cond : Cond}
    {lhs rhs : Source}
    (h : x.condition cond lhs rhs = .error cause) :
    cause.isOfOperands = true := by
  simp only [condition, Outcome.bind_eq_error] at h
  rcases h with hLeft | ⟨a, _, hRight | ⟨b, _, hPure⟩⟩
  · exact isOfOperands_of_read hLeft
  · exact isOfOperands_of_read hRight
  · cases hPure

end Context

end ThreeAddress
