import ThreeAddress.Lowering
import ThreeAddress.Proofs.Outcome

/-
  This file says, without the order in which errors are
  looked for, what the operands of an instruction resolve to
  and which action an instruction becomes.

  Key definitions include:
    * `Scope.ResolvesPlace`, `Scope.ResolvesSource`
    * `Scope.ResolvesArguments`
    * `Scope.Lowers`

  Main statements:
    * `findSlot?_eq_some_iff`
    * `Scope.place_eq_ok_iff`, `Scope.source_eq_ok_iff`
    * `Scope.action_eq_ok_iff`
-/

namespace ThreeAddress

------------------------------------------------------------
-- Slots by Name
------------------------------------------------------------

/- The search for a slot counts from the given number on. -/
theorem findSlot?_go_eq_some_iff
    (name : String)
    (start : Nat)
    (slots : List Slot)
    (id : Nat)
    (shape : Shape) :
    findSlot?.go name start slots = some (id, shape) ↔
      ∃ k s,
        id = start + k ∧
          slots[k]? = some s ∧
          s.name = name ∧
          s.shape = shape ∧
          ∀ t ∈ slots.take k, t.name ≠ name := by
  induction slots generalizing start with
  | nil => simp [findSlot?.go]
  | cons head rest ih =>
      rw [findSlot?.go]
      by_cases hName : head.name = name
      · rw [if_pos hName]
        constructor
        · intro h
          cases h
          exact ⟨0, head, rfl, rfl, hName, rfl, by simp⟩
        · rintro ⟨k, s, rfl, hGet, _, rfl, hBefore⟩
          cases k with
          | zero =>
              cases hGet
              rfl
          | succ k =>
              exact absurd hName (hBefore head (by simp))
      · rw [if_neg hName, ih]
        constructor
        · rintro ⟨k, s, rfl, hGet, hs, hShape, hBefore⟩
          refine ⟨k + 1, s, by omega, hGet, hs, hShape, ?_⟩
          rw [List.take_succ_cons, List.forall_mem_cons]
          exact ⟨hName, hBefore⟩
        · rintro ⟨k, s, rfl, hGet, hs, hShape, hBefore⟩
          cases k with
          | zero =>
              cases hGet
              exact absurd hs hName
          | succ k =>
              rw [List.take_succ_cons,
                List.forall_mem_cons] at hBefore
              exact ⟨k, s, by omega, hGet, hs, hShape, hBefore.2⟩

/- The slot of a name is the first one that has it. -/
theorem findSlot?_eq_some_iff
    {slots : List Slot}
    {name : String}
    {id : Nat}
    {shape : Shape} :
    findSlot? slots name = some (id, shape) ↔
      ∃ s,
        slots[id]? = some s ∧
          s.name = name ∧
          s.shape = shape ∧
          ∀ t ∈ slots.take id, t.name ≠ name := by
  rw [findSlot?, findSlot?_go_eq_some_iff]
  constructor
  · rintro ⟨k, s, rfl, hRest⟩
    rw [Nat.zero_add]
    exact ⟨s, hRest⟩
  · rintro ⟨s, hRest⟩
    exact ⟨id, s, (Nat.zero_add id).symm, hRest⟩

/- The slot of a name has its number and its shape. -/
theorem exists_slot_of_findSlot?
    {slots : List Slot}
    {name : String}
    {id : Nat}
    {shape : Shape}
    (h : findSlot? slots name = some (id, shape)) :
    ∃ s, slots[id]? = some s ∧ s.name = name ∧ s.shape = shape := by
  rcases findSlot?_eq_some_iff.mp h with
    ⟨s, hGet, hName, hShape, _⟩
  exact ⟨s, hGet, hName, hShape⟩

namespace Scope

------------------------------------------------------------
-- Resolved Operands
------------------------------------------------------------

/- What an index inside a function stands for. -/
inductive ResolvesIndex (s : Scope) : Index String → Index Nat → Prop where
| const (n : Int32) : ResolvesIndex s (.const n) (.const n)
| var
    {name : String}
    {id : Nat}
    (slot : findSlot? s.slots name = some (id, .scalar .int)) :
    ResolvesIndex s (.var name) (.var id)

/- The place, and its type, that an operand stands for. -/
inductive ResolvesPlace (s : Scope) : Operand → Place → Scalar → Prop where
| var
    {name : String}
    {id : Nat}
    {t : Scalar}
    (slot : findSlot? s.slots name = some (id, .scalar t)) :
    ResolvesPlace s (.var name) (.slot id) t
| element
    {array : String}
    {id n : Nat}
    {t : Scalar}
    {i : Index String}
    {j : Index Nat}
    (slot : findSlot? s.slots array = some (id, .array t n))
    (index : ResolvesIndex s i j) :
    ResolvesPlace s (.element array i) (.element id j) t

/- The value, and its type, that an operand stands for. -/
inductive ResolvesSource (s : Scope) : Operand → Source → Scalar → Prop where
| int (n : Int32) : ResolvesSource s (.int n) (.int n) .int
| float (x : Single) : ResolvesSource s (.float x) (.float x) .float
| place
    {x : Operand}
    {p : Place}
    {t : Scalar}
    (place : ResolvesPlace s x p t) :
    ResolvesSource s x (.place p) t

/- The array that an operand names. -/
inductive ResolvesArray (s : Scope) : Operand → Nat → Scalar → Prop where
| var
    {name : String}
    {id n : Nat}
    {t : Scalar}
    (slot : findSlot? s.slots name = some (id, .array t n)) :
    ResolvesArray s (.var name) id t

/- What an operand passes for a parameter of a shape. -/
inductive ResolvesArgument (s : Scope) :
    Operand → Shape → Argument → Prop where
| value
    {x : Operand}
    {src : Source}
    {t u : Scalar}
    (source : ResolvesSource s x src u)
    (accepts : t.accepts u = true) :
    ResolvesArgument s x (.scalar t) (.value src)
| array
    {name : String}
    {id n : Nat}
    {t : Scalar}
    (slot : findSlot? s.slots name = some (id, .array t n)) :
    ResolvesArgument s (.var name) (.array t n) (.array id)

/- What operands pass for the parameters, one for each. -/
inductive ResolvesArguments (s : Scope) :
    List Operand → List Shape → List Argument → Prop where
| nil : ResolvesArguments s [] [] []
| cons
    {x : Operand}
    {xs : List Operand}
    {shape : Shape}
    {shapes : List Shape}
    {arg : Argument}
    {args : List Argument}
    (head : ResolvesArgument s x shape arg)
    (tail : ResolvesArguments s xs shapes args) :
    ResolvesArguments s (x :: xs) (shape :: shapes) (arg :: args)

/-
  The action that an operation on operands becomes. Operands
  behind those that an operation takes are passed over.
-/
inductive Lowers (s : Scope) : Opcode → List Operand → Action → Prop where
| assign
    {d x : Operand}
    {rest : List Operand}
    {dest : Place}
    {src : Source}
    {t u : Scalar}
    (place : ResolvesPlace s d dest t)
    (source : ResolvesSource s x src u)
    (accepts : t.accepts u = true) :
    Lowers s .assign (d :: x :: rest) (.assign dest src)
| arith
    {op : ArithOp}
    {d x y : Operand}
    {rest : List Operand}
    {dest : Place}
    {lhs rhs : Source}
    {t u v : Scalar}
    (place : ResolvesPlace s d dest t)
    (left : ResolvesSource s x lhs u)
    (right : ResolvesSource s y rhs v)
    (accepts : t.accepts (u.widen v) = true) :
    Lowers s op.opcode (d :: x :: y :: rest) (.arith op dest lhs rhs)
| bit
    {op : BitOp}
    {d x y : Operand}
    {rest : List Operand}
    {dest : Place}
    {lhs rhs : Source}
    {t : Scalar}
    (place : ResolvesPlace s d dest t)
    (left : ResolvesSource s x lhs .int)
    (right : ResolvesSource s y rhs .int) :
    Lowers s op.opcode (d :: x :: y :: rest) (.bit op dest lhs rhs)
| goto
    {label : String}
    {rest : List Operand}
    {position : Nat}
    (target : s.labels.lookup label = some position) :
    Lowers s .goto (.label label :: rest) (.goto position)
| branch
    {cond : Cond}
    {label : String}
    {x y : Operand}
    {rest : List Operand}
    {position : Nat}
    {lhs rhs : Source}
    {u v : Scalar}
    (target : s.labels.lookup label = some position)
    (left : ResolvesSource s x lhs u)
    (right : ResolvesSource s y rhs v) :
    Lowers s cond.opcode (.label label :: x :: y :: rest)
      (.branch cond position lhs rhs)
| retVoid
    (returns : s.returns = .void) :
    Lowers s .ret [] (.ret none)
| retValue
    {x : Operand}
    {rest : List Operand}
    {src : Source}
    {t u : Scalar}
    (returns : s.returns = .value t)
    (source : ResolvesSource s x src u)
    (accepts : t.accepts u = true) :
    Lowers s .ret (x :: rest) (.ret (some src))
| call
    {name : String}
    {xs : List Operand}
    {signature : Signature}
    {args : List Argument}
    (callee : s.signatures.lookup name = some signature)
    (arguments : ResolvesArguments s xs signature.params args) :
    Lowers s .call (.function name :: xs)
      (.call none signature.callee args)
| callr
    {d : Operand}
    {name : String}
    {xs : List Operand}
    {signature : Signature}
    {dest : Place}
    {t : Scalar}
    {args : List Argument}
    (place : ResolvesPlace s d dest t)
    (callee : s.signatures.lookup name = some signature)
    (returns : signature.returns = .value t)
    (arguments : ResolvesArguments s xs signature.params args) :
    Lowers s .callr (d :: .function name :: xs)
      (.call (some dest) signature.callee args)
| load
    {d a x : Operand}
    {rest : List Operand}
    {dest : Place}
    {id : Nat}
    {src : Source}
    {t u : Scalar}
    (place : ResolvesPlace s d dest t)
    (array : ResolvesArray s a id u)
    (index : ResolvesSource s x src .int)
    (accepts : t.accepts u = true) :
    Lowers s .load (d :: a :: x :: rest) (.load dest id src)
| store
    {x a y : Operand}
    {rest : List Operand}
    {id : Nat}
    {val src : Source}
    {t u : Scalar}
    (value : ResolvesSource s x val u)
    (array : ResolvesArray s a id t)
    (index : ResolvesSource s y src .int)
    (accepts : t.accepts u = true) :
    Lowers s .store (x :: a :: y :: rest) (.store val id src)

------------------------------------------------------------
-- Operands Resolve as the Verifier Finds
------------------------------------------------------------

/- A rejection is no result. -/
@[simp]
theorem declaration_ne_ok
    {α : Type}
    (c : DeclarationCause)
    (a : α) :
    declaration c ≠ .ok a := by
  simp [declaration]

@[simp]
theorem mismatch_ne_ok
    {α : Type}
    (c : TypeMismatch)
    (a : α) :
    mismatch c ≠ .ok a := by
  simp [mismatch]

theorem scalar_eq_ok_iff
    {s : Scope}
    {name : String}
    {id : Nat}
    {t : Scalar} :
    s.scalar name = .ok (id, t) ↔
      findSlot? s.slots name = some (id, .scalar t) := by
  unfold scalar
  split
  · next h => simp [h]
  · next h => simp [h]
  · next h => simp [h]

theorem array_eq_ok_iff
    {s : Scope}
    {name : String}
    {id : Nat}
    {t : Scalar} :
    s.array name = .ok (id, t) ↔
      ∃ n, findSlot? s.slots name = some (id, .array t n) := by
  unfold array
  split
  · next h => simp [h]
  · next h => simp [h]
  · next h => simp [h]

theorem index_eq_ok_iff
    {s : Scope}
    {array : String}
    {i : Index String}
    {j : Index Nat} :
    s.index array i = .ok j ↔ s.ResolvesIndex i j := by
  constructor
  · intro h
    cases i with
    | const n =>
        cases h
        exact .const n
    | var name =>
        rcases Outcome.bind_eq_ok.mp h with ⟨⟨id, t⟩, hSlot, hRest⟩
        cases t with
        | int =>
            cases hRest
            exact .var (scalar_eq_ok_iff.mp hSlot)
        | float => simp at hRest
  · intro h
    cases h with
    | const n => rfl
    | var hSlot =>
        exact Outcome.bind_eq_ok.mpr
          ⟨_, scalar_eq_ok_iff.mpr hSlot, rfl⟩

theorem element_eq_ok_iff
    {s : Scope}
    {array : String}
    {i : Index String}
    {p : Place}
    {t : Scalar} :
    s.element array i = .ok (p, t) ↔
      s.ResolvesPlace (.element array i) p t := by
  simp only [element, Outcome.bind_eq_ok, Outcome.pure_eq_ok]
  constructor
  · rintro ⟨⟨id, u⟩, hArray, j, hIndex, hPair⟩
    cases hPair
    rcases array_eq_ok_iff.mp hArray with ⟨n, hSlot⟩
    exact .element hSlot (index_eq_ok_iff.mp hIndex)
  · intro h
    cases h with
    | element hSlot hIndex =>
        exact ⟨_, array_eq_ok_iff.mpr ⟨_, hSlot⟩, _,
          index_eq_ok_iff.mpr hIndex, rfl⟩

/- The verifier finds the places that operands stand for. -/
theorem place_eq_ok_iff
    {s : Scope}
    {x : Operand}
    {p : Place}
    {t : Scalar} :
    s.place x = .ok (p, t) ↔ s.ResolvesPlace x p t := by
  cases x with
  | var name =>
      simp only [place, Outcome.bind_eq_ok, Outcome.pure_eq_ok]
      constructor
      · rintro ⟨⟨id, u⟩, hSlot, hPair⟩
        cases hPair
        exact .var (scalar_eq_ok_iff.mp hSlot)
      · rintro ⟨hSlot⟩
        exact ⟨_, scalar_eq_ok_iff.mpr hSlot, rfl⟩
  | element array i => exact element_eq_ok_iff
  | int n => exact ⟨fun h => by simp [place] at h, nofun⟩
  | float r => exact ⟨fun h => by simp [place] at h, nofun⟩
  | label name => exact ⟨fun h => by simp [place] at h, nofun⟩
  | function name => exact ⟨fun h => by simp [place] at h, nofun⟩

/- The verifier finds the values that operands stand for. -/
theorem source_eq_ok_iff
    {s : Scope}
    {x : Operand}
    {src : Source}
    {t : Scalar} :
    s.source x = .ok (src, t) ↔ s.ResolvesSource x src t := by
  cases x with
  | int n =>
      constructor
      · intro h
        cases h
        exact .int n
      · rintro (_ | _ | ⟨⟨⟩⟩)
        rfl
  | float r =>
      constructor
      · intro h
        cases h
        exact .float r
      · rintro (_ | _ | ⟨⟨⟩⟩)
        rfl
  | var name =>
      simp only [source, Outcome.bind_eq_ok, Outcome.pure_eq_ok]
      constructor
      · rintro ⟨⟨id, u⟩, hSlot, hPair⟩
        cases hPair
        exact .place (.var (scalar_eq_ok_iff.mp hSlot))
      · rintro (_ | _ | ⟨⟨hSlot⟩⟩)
        exact ⟨_, scalar_eq_ok_iff.mpr hSlot, rfl⟩
  | element array i =>
      simp only [source, Outcome.bind_eq_ok, Outcome.pure_eq_ok]
      constructor
      · rintro ⟨⟨p, u⟩, hPlace, hPair⟩
        cases hPair
        exact .place (element_eq_ok_iff.mp hPlace)
      · rintro (_ | _ | ⟨hPlace⟩)
        exact ⟨_, element_eq_ok_iff.mpr hPlace, rfl⟩
  | label name =>
      exact ⟨fun h => by simp [source] at h, by rintro (_ | _ | ⟨⟨⟩⟩)⟩
  | function name =>
      exact ⟨fun h => by simp [source] at h, by rintro (_ | _ | ⟨⟨⟩⟩)⟩

/- The verifier finds the arrays that operands name. -/
theorem arrayOperand_eq_ok_iff
    {s : Scope}
    {x : Operand}
    {id : Nat}
    {t : Scalar} :
    s.arrayOperand x = .ok (id, t) ↔ s.ResolvesArray x id t := by
  cases x with
  | var name =>
      rw [arrayOperand, array_eq_ok_iff]
      constructor
      · rintro ⟨n, hSlot⟩
        exact .var hSlot
      · rintro ⟨hSlot⟩
        exact ⟨_, hSlot⟩
  | element array i =>
      exact ⟨fun h => by simp [arrayOperand] at h, nofun⟩
  | int n => exact ⟨fun h => by simp [arrayOperand] at h, nofun⟩
  | float r => exact ⟨fun h => by simp [arrayOperand] at h, nofun⟩
  | label name =>
      exact ⟨fun h => by simp [arrayOperand] at h, nofun⟩
  | function name =>
      exact ⟨fun h => by simp [arrayOperand] at h, nofun⟩

theorem indexOperand_eq_ok_iff
    {s : Scope}
    {a x : Operand}
    {src : Source} :
    s.indexOperand a x = .ok src ↔ s.ResolvesSource x src .int := by
  simp only [indexOperand, Outcome.bind_eq_ok]
  constructor
  · rintro ⟨⟨found, t⟩, hSource, hRest⟩
    cases t with
    | int =>
        cases hRest
        exact source_eq_ok_iff.mp hSource
    | float => simp at hRest
  · intro h
    exact ⟨_, source_eq_ok_iff.mpr h, rfl⟩

theorem checkStore_eq_ok_iff
    {target : String}
    {expected found : Scalar} :
    checkStore target expected found = .ok () ↔
      expected.accepts found = true := by
  unfold checkStore
  split
  · next h => simp [h]
  · next h => simp [h]

theorem target_eq_ok_iff
    {s : Scope}
    {x : Operand}
    {position : Nat} :
    s.target x = .ok position ↔
      ∃ label, x = .label label ∧
        s.labels.lookup label = some position := by
  cases x with
  | label name =>
      rw [target]
      split
      · next h => simp [h]
      · next h => simp [h]
  | var name => simp [target]
  | element array i => simp [target]
  | int n => simp [target]
  | float r => simp [target]
  | function name => simp [target]

theorem calleeName_eq_ok_iff
    {x : Operand}
    {name : String} :
    calleeName x = .ok name ↔ x = .function name := by
  cases x <;> simp [calleeName]

------------------------------------------------------------
-- Calls Resolve as the Verifier Finds
------------------------------------------------------------

theorem argument_eq_ok_iff
    {s : Scope}
    {callee : String}
    {position : Nat}
    {x : Operand}
    {shape : Shape}
    {arg : Argument} :
    s.argument callee position x shape = .ok arg ↔
      s.ResolvesArgument x shape arg := by
  cases shape with
  | scalar t =>
      simp only [argument, Outcome.bind_eq_ok, Outcome.pure_eq_ok]
      constructor
      · rintro ⟨⟨src, u⟩, hSource, _, hStore, rfl⟩
        exact .value (source_eq_ok_iff.mp hSource)
          (checkStore_eq_ok_iff.mp hStore)
      · rintro ⟨hSource, hAccepts⟩
        exact ⟨_, source_eq_ok_iff.mpr hSource, (),
          checkStore_eq_ok_iff.mpr hAccepts, rfl⟩
  | array t n =>
      constructor
      · intro h
        cases x with
        | var name =>
            simp only [argument] at h
            split at h
            · simp at h
            · next id shape hSlot =>
                split at h
                · next hShape =>
                    cases h
                    subst hShape
                    exact .array hSlot
                · simp at h
        | element array i => simp [argument] at h
        | int n => simp [argument] at h
        | float r => simp [argument] at h
        | label name => simp [argument] at h
        | function name => simp [argument] at h
      · rintro ⟨⟩
        next hSlot => simp [argument, hSlot]

/- Operands as many as the parameters are passed one by one. -/
theorem arguments_eq_ok_iff
    {s : Scope}
    {callee : String}
    {xs : List Operand}
    {shapes : List Shape}
    {args : List Argument}
    (hLength : shapes.length = xs.length)
    (position : Nat) :
    s.arguments callee position xs shapes = .ok args ↔
      s.ResolvesArguments xs shapes args := by
  induction xs generalizing shapes args position with
  | nil =>
      have hShapes : shapes = [] :=
        List.eq_nil_of_length_eq_zero hLength
      subst hShapes
      constructor
      · intro h
        cases h
        exact .nil
      · rintro ⟨⟩
        rfl
  | cons x xs ih =>
      cases shapes with
      | nil => simp at hLength
      | cons shape shapes =>
          have hTail : shapes.length = xs.length := by
            simpa using hLength
          simp only [arguments, Outcome.bind_eq_ok,
            Outcome.pure_eq_ok, ih hTail, argument_eq_ok_iff]
          constructor
          · rintro ⟨arg, hHead, args, hArgs, rfl⟩
            exact .cons hHead hArgs
          · rintro (_ | ⟨hHead, hArgs⟩)
            exact ⟨_, hHead, _, hArgs, rfl⟩

/- A call passes one operand for each parameter. -/
theorem ResolvesArguments.length_eq
    {s : Scope}
    {xs : List Operand}
    {shapes : List Shape}
    {args : List Argument}
    (h : s.ResolvesArguments xs shapes args) :
    shapes.length = xs.length := by
  induction h with
  | nil => rfl
  | cons _ _ ih => simp [ih]

end Scope

/-
  A call site is in order when the name is known, takes as
  many arguments, and hands back what the destination holds.
-/
theorem checkSite_eq_ok_iff
    {signatures : List (String × Signature)}
    {name : String}
    {count : Nat}
    {dest : Option Scalar}
    {signature : Signature} :
    checkSite signatures name count dest = .ok signature ↔
      signatures.lookup name = some signature ∧
        signature.params.length = count ∧
        ∀ t, dest = some t → signature.returns = .value t := by
  unfold checkSite
  split
  · next h => simp [h]
  · next found h =>
      rw [h]
      by_cases hCount : found.params.length = count
      · rw [if_neg (not_not_intro hCount)]
        rcases dest with _ | expected
        · simp only [Except.ok.injEq, Option.some.injEq]
          constructor
          · rintro rfl
            exact ⟨rfl, hCount, nofun⟩
          · rintro ⟨rfl, _⟩
            rfl
        · cases hReturns : found.returns with
          | void =>
              constructor
              · intro hSite
                cases hSite
              · rintro ⟨hFound, _, hDest⟩
                cases hFound
                simpa [hReturns] using hDest expected rfl
          | value t =>
              dsimp only
              split
              · next hType =>
                  subst hType
                  simp only [Except.ok.injEq, Option.some.injEq]
                  constructor
                  · rintro rfl
                    refine ⟨rfl, hCount, ?_⟩
                    rintro u rfl
                    exact hReturns
                  · rintro ⟨rfl, _⟩
                    rfl
              · next hType =>
                  constructor
                  · intro hSite
                    cases hSite
                  · rintro ⟨hFound, _, hDest⟩
                    cases hFound
                    have hSame := hDest expected rfl
                    rw [hReturns] at hSame
                    cases hSame
                    exact absurd rfl hType
      · rw [if_pos hCount]
        constructor
        · intro hSite
          cases hSite
        · rintro ⟨hFound, hLength, _⟩
          cases hFound
          exact absurd hLength hCount

namespace Scope

theorem call_eq_ok_iff
    {s : Scope}
    {name : String}
    {xs : List Operand}
    {dest : Option Scalar}
    {callee : Callee}
    {args : List Argument} :
    s.call name xs dest = .ok (callee, args) ↔
      ∃ signature,
        s.signatures.lookup name = some signature ∧
          signature.callee = callee ∧
          (∀ t, dest = some t → signature.returns = .value t) ∧
          s.ResolvesArguments xs signature.params args := by
  unfold call
  split
  · next cause hSite =>
      constructor
      · intro h
        simp at h
      · rintro ⟨signature, hFound, _, hDest, hArgs⟩
        rw [checkSite_eq_ok_iff.mpr
          ⟨hFound, hArgs.length_eq, hDest⟩] at hSite
        cases hSite
  · next signature hSite =>
      rcases checkSite_eq_ok_iff.mp hSite with
        ⟨hFound, hCount, hDest⟩
      simp only [Outcome.bind_eq_ok, Outcome.pure_eq_ok]
      constructor
      · rintro ⟨found, hArgs, hPair⟩
        cases hPair
        exact ⟨signature, hFound, rfl, hDest,
          (arguments_eq_ok_iff hCount 1).mp hArgs⟩
      · rintro ⟨other, hOther, rfl, _, hArgs⟩
        rw [hFound] at hOther
        cases hOther
        exact ⟨_, (arguments_eq_ok_iff hCount 1).mpr hArgs, rfl⟩

------------------------------------------------------------
-- Instructions Lower as the Verifier Finds
------------------------------------------------------------

theorem operand_eq_ok_iff
    {xs : List Operand}
    {position : Nat}
    {x : Operand} :
    operand xs position = .ok x ↔ xs[position]? = some x := by
  unfold operand
  split
  · next h => simp [h]
  · next h => simp [h]

theorem lowers_of_ret
    {s : Scope}
    {xs : List Operand}
    {a : Action}
    (h : s.ret xs.head? = .ok a) :
    s.Lowers .ret xs a := by
  unfold ret at h
  cases xs with
  | nil =>
      cases hReturns : s.returns with
      | void =>
          rw [hReturns] at h
          cases h
          exact .retVoid hReturns
      | value t =>
          rw [hReturns] at h
          cases h
  | cons x rest =>
      cases hReturns : s.returns with
      | void =>
          rw [hReturns] at h
          cases h
      | value t =>
          simp only [hReturns, List.head?_cons, Outcome.bind_eq_ok,
            Outcome.pure_eq_ok] at h
          rcases h with ⟨⟨src, u⟩, hSource, _, hStore, rfl⟩
          exact .retValue hReturns (source_eq_ok_iff.mp hSource)
            (checkStore_eq_ok_iff.mp hStore)

/- What the verifier accepts lowers as it says. -/
theorem lowers_of_action
    {s : Scope}
    {op : Opcode}
    {xs : List Operand}
    {a : Action}
    (h : s.action op xs = .ok a) :
    s.Lowers op xs a := by
  cases op using Opcode.byFamily with
  | assign =>
      simp only [action, Outcome.bind_eq_ok, Outcome.pure_eq_ok,
        operand_eq_ok_iff] at h
      rcases h with ⟨d, hd, ⟨dest, t⟩, hPlace, x, hx, ⟨src, u⟩,
        hSource, _, hStore, rfl⟩
      rcases xs with _ | ⟨d, _ | ⟨x, rest⟩⟩ <;> simp at hd hx
      subst hd hx
      exact .assign (place_eq_ok_iff.mp hPlace)
        (source_eq_ok_iff.mp hSource)
        (checkStore_eq_ok_iff.mp hStore)
  | arith op =>
      simp only [action_arith, arith, ArithOp.arithOp_opcode,
        Outcome.bind_eq_ok, Outcome.pure_eq_ok,
        operand_eq_ok_iff] at h
      rcases h with ⟨d, hd, ⟨dest, t⟩, hPlace, x, hx, ⟨lhs, u⟩,
        hLeft, y, hy, ⟨rhs, v⟩, hRight, _, hStore, rfl⟩
      rcases xs with _ | ⟨d, _ | ⟨x, _ | ⟨y, rest⟩⟩⟩ <;>
        simp at hd hx hy
      subst hd hx hy
      exact .arith (place_eq_ok_iff.mp hPlace)
        (source_eq_ok_iff.mp hLeft) (source_eq_ok_iff.mp hRight)
        (checkStore_eq_ok_iff.mp hStore)
  | bit op =>
      simp only [action_bit, bit, BitOp.bitOp_opcode,
        Outcome.bind_eq_ok, operand_eq_ok_iff] at h
      rcases h with ⟨d, hd, ⟨dest, t⟩, hPlace, x, hx, ⟨lhs, u⟩,
        hLeft, y, hy, ⟨rhs, v⟩, hRight, hRest⟩
      rcases xs with _ | ⟨d, _ | ⟨x, _ | ⟨y, rest⟩⟩⟩ <;>
        simp at hd hx hy
      subst hd hx hy
      -- Only two integers widen to an integer.
      cases u <;> cases v <;>
        simp only [Scalar.widen, mismatch_ne_ok] at hRest
      rcases Outcome.bind_eq_ok.mp hRest with ⟨_, _, hAction⟩
      cases hAction
      exact .bit (place_eq_ok_iff.mp hPlace)
        (source_eq_ok_iff.mp hLeft) (source_eq_ok_iff.mp hRight)
  | goto =>
      simp only [action, Outcome.bind_eq_ok, Outcome.pure_eq_ok,
        operand_eq_ok_iff] at h
      rcases h with ⟨l, hl, position, hTarget, rfl⟩
      rcases xs with _ | ⟨l, rest⟩ <;> simp at hl
      subst hl
      rcases target_eq_ok_iff.mp hTarget with ⟨label, rfl, hLabel⟩
      exact .goto hLabel
  | branch cond =>
      simp only [action_branch, branch, Cond.cond_opcode,
        Outcome.bind_eq_ok, Outcome.pure_eq_ok,
        operand_eq_ok_iff] at h
      rcases h with ⟨l, hl, position, hTarget, x, hx, ⟨lhs, u⟩,
        hLeft, y, hy, ⟨rhs, v⟩, hRight, rfl⟩
      rcases xs with _ | ⟨l, _ | ⟨x, _ | ⟨y, rest⟩⟩⟩ <;>
        simp at hl hx hy
      subst hl hx hy
      rcases target_eq_ok_iff.mp hTarget with ⟨label, rfl, hLabel⟩
      exact .branch hLabel (source_eq_ok_iff.mp hLeft)
        (source_eq_ok_iff.mp hRight)
  | ret => exact lowers_of_ret h
  | call =>
      simp only [action, Outcome.bind_eq_ok, Outcome.pure_eq_ok,
        operand_eq_ok_iff, calleeName_eq_ok_iff] at h
      rcases h with ⟨f, hf, name, rfl, ⟨callee, args⟩, hCall, rfl⟩
      rcases xs with _ | ⟨f, rest⟩ <;> simp at hf
      subst hf
      rcases call_eq_ok_iff.mp hCall with
        ⟨signature, hFound, rfl, _, hArgs⟩
      exact .call hFound hArgs
  | callr =>
      simp only [action, Outcome.bind_eq_ok, Outcome.pure_eq_ok,
        operand_eq_ok_iff, calleeName_eq_ok_iff] at h
      rcases h with ⟨d, hd, ⟨dest, t⟩, hPlace, f, hf, name, rfl,
        ⟨callee, args⟩, hCall, rfl⟩
      rcases xs with _ | ⟨d, _ | ⟨f, rest⟩⟩ <;> simp at hd hf
      subst hd hf
      rcases call_eq_ok_iff.mp hCall with
        ⟨signature, hFound, rfl, hReturns, hArgs⟩
      exact .callr (place_eq_ok_iff.mp hPlace) hFound
        (hReturns t rfl) hArgs
  | load =>
      simp only [action, Outcome.bind_eq_ok, Outcome.pure_eq_ok,
        operand_eq_ok_iff] at h
      rcases h with ⟨d, hd, ⟨dest, t⟩, hPlace, a, ha, ⟨id, u⟩,
        hArray, x, hx, src, hIndex, _, hStore, rfl⟩
      rcases xs with _ | ⟨d, _ | ⟨a, _ | ⟨x, rest⟩⟩⟩ <;>
        simp at hd ha hx
      subst hd ha hx
      exact .load (place_eq_ok_iff.mp hPlace)
        (arrayOperand_eq_ok_iff.mp hArray)
        (indexOperand_eq_ok_iff.mp hIndex)
        (checkStore_eq_ok_iff.mp hStore)
  | store =>
      simp only [action, Outcome.bind_eq_ok, Outcome.pure_eq_ok,
        operand_eq_ok_iff] at h
      rcases h with ⟨x, hx, ⟨val, u⟩, hValue, a, ha, ⟨id, t⟩,
        hArray, y, hy, src, hIndex, _, hStore, rfl⟩
      rcases xs with _ | ⟨x, _ | ⟨a, _ | ⟨y, rest⟩⟩⟩ <;>
        simp at hx ha hy
      subst hx ha hy
      exact .store (source_eq_ok_iff.mp hValue)
        (arrayOperand_eq_ok_iff.mp hArray)
        (indexOperand_eq_ok_iff.mp hIndex)
        (checkStore_eq_ok_iff.mp hStore)

/- What lowers is accepted by the verifier. -/
theorem action_of_lowers
    {s : Scope}
    {op : Opcode}
    {xs : List Operand}
    {a : Action}
    (h : s.Lowers op xs a) :
    s.action op xs = .ok a := by
  cases h with
  | assign hPlace hSource hAccepts =>
      simp only [action, Outcome.bind_eq_ok, Outcome.pure_eq_ok,
        operand_eq_ok_iff]
      exact ⟨_, rfl, _, place_eq_ok_iff.mpr hPlace, _, rfl, _,
        source_eq_ok_iff.mpr hSource, (),
        checkStore_eq_ok_iff.mpr hAccepts, rfl⟩
  | arith hPlace hLeft hRight hAccepts =>
      simp only [action_arith, arith, ArithOp.arithOp_opcode,
        Outcome.bind_eq_ok, Outcome.pure_eq_ok, operand_eq_ok_iff]
      exact ⟨_, rfl, _, place_eq_ok_iff.mpr hPlace, _, rfl, _,
        source_eq_ok_iff.mpr hLeft, _, rfl, _,
        source_eq_ok_iff.mpr hRight, (),
        checkStore_eq_ok_iff.mpr hAccepts, rfl⟩
  | @bit _ _ _ _ _ _ _ _ t hPlace hLeft hRight =>
      have hAccepts : t.accepts .int = true := by
        cases t <;> rfl
      simp only [action_bit, bit, BitOp.bitOp_opcode,
        Outcome.bind_eq_ok, operand_eq_ok_iff]
      refine ⟨_, rfl, _, place_eq_ok_iff.mpr hPlace, _, rfl, _,
        source_eq_ok_iff.mpr hLeft, _, rfl, _,
        source_eq_ok_iff.mpr hRight, ?_⟩
      simp only [Scalar.widen, Outcome.bind_eq_ok]
      exact ⟨(), checkStore_eq_ok_iff.mpr hAccepts, rfl⟩
  | goto hTarget =>
      simp only [action, Outcome.bind_eq_ok, Outcome.pure_eq_ok,
        operand_eq_ok_iff]
      exact ⟨_, rfl, _, target_eq_ok_iff.mpr ⟨_, rfl, hTarget⟩, rfl⟩
  | branch hTarget hLeft hRight =>
      simp only [action_branch, branch, Cond.cond_opcode,
        Outcome.bind_eq_ok, Outcome.pure_eq_ok, operand_eq_ok_iff]
      exact ⟨_, rfl, _, target_eq_ok_iff.mpr ⟨_, rfl, hTarget⟩,
        _, rfl, _, source_eq_ok_iff.mpr hLeft, _, rfl, _,
        source_eq_ok_iff.mpr hRight, rfl⟩
  | retVoid hReturns =>
      simp only [action, ret, hReturns, List.head?_nil]
  | retValue hReturns hSource hAccepts =>
      simp only [action, ret, hReturns, List.head?_cons,
        Outcome.bind_eq_ok, Outcome.pure_eq_ok]
      exact ⟨_, source_eq_ok_iff.mpr hSource, (),
        checkStore_eq_ok_iff.mpr hAccepts, rfl⟩
  | call hFound hArgs =>
      simp only [action, Outcome.bind_eq_ok, Outcome.pure_eq_ok,
        operand_eq_ok_iff, calleeName_eq_ok_iff]
      refine ⟨_, rfl, _, rfl, _,
        call_eq_ok_iff.mpr ⟨_, hFound, rfl, ?_, hArgs⟩, rfl⟩
      rintro _ ⟨⟩
  | callr hPlace hFound hReturns hArgs =>
      simp only [action, Outcome.bind_eq_ok, Outcome.pure_eq_ok,
        operand_eq_ok_iff, calleeName_eq_ok_iff]
      refine ⟨_, rfl, _, place_eq_ok_iff.mpr hPlace, _, rfl, _, rfl,
        _, call_eq_ok_iff.mpr ⟨_, hFound, rfl, ?_, hArgs⟩, rfl⟩
      rintro _ ⟨⟩
      exact hReturns
  | load hPlace hArray hIndex hAccepts =>
      simp only [action, Outcome.bind_eq_ok, Outcome.pure_eq_ok,
        operand_eq_ok_iff]
      exact ⟨_, rfl, _, place_eq_ok_iff.mpr hPlace, _, rfl, _,
        arrayOperand_eq_ok_iff.mpr hArray, _, rfl, _,
        indexOperand_eq_ok_iff.mpr hIndex, (),
        checkStore_eq_ok_iff.mpr hAccepts, rfl⟩
  | store hValue hArray hIndex hAccepts =>
      simp only [action, Outcome.bind_eq_ok, Outcome.pure_eq_ok,
        operand_eq_ok_iff]
      exact ⟨_, rfl, _, source_eq_ok_iff.mpr hValue, _, rfl, _,
        arrayOperand_eq_ok_iff.mpr hArray, _, rfl, _,
        indexOperand_eq_ok_iff.mpr hIndex, (),
        checkStore_eq_ok_iff.mpr hAccepts, rfl⟩

/- The verifier accepts just the instructions that lower. -/
theorem action_eq_ok_iff
    {s : Scope}
    {op : Opcode}
    {xs : List Operand}
    {a : Action} :
    s.action op xs = .ok a ↔ s.Lowers op xs a :=
  ⟨lowers_of_action, action_of_lowers⟩

end Scope

end ThreeAddress
