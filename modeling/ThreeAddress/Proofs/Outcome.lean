import Mathlib.Data.List.Forall2

/-
  This file says when a computation that may be refused gives
  a result: a sequence when each of its parts does, and a
  traversal when each of its members does.

  Main statements:
    * `Outcome.bind_eq_ok`, `Outcome.bind_eq_error`
    * `Outcome.mapM_eq_ok`, `Outcome.exists_mapM_iff`
    * `Outcome.bind_ne_error`, `Outcome.mapM_ne_error`
    * `Outcome.forM_eq_ok`
    * `Outcome.exists_right`, `Outcome.exists_left`
    * `Outcome.bimap_bind`, `Outcome.bimap_mapM`
    * `Outcome.AgreeUpTo.bind`, `Outcome.AgreeUpTo.mapM`
-/

namespace ThreeAddress.Outcome

variable {ε α β : Type}

/- A sequence gives a result when both of its parts do. -/
theorem bind_eq_ok
    {x : Except ε α}
    {f : α → Except ε β}
    {b : β} :
    x >>= f = .ok b ↔ ∃ a, x = .ok a ∧ f a = .ok b := by
  cases x with
  | error e => simp [bind, Except.bind]
  | ok a => simp [bind, Except.bind]

/- A sequence is refused by its first part, or by its second. -/
theorem bind_eq_error
    {x : Except ε α}
    {f : α → Except ε β}
    {e : ε} :
    x >>= f = .error e ↔
      x = .error e ∨ ∃ a, x = .ok a ∧ f a = .error e := by
  cases x with
  | error e => simp [bind, Except.bind]
  | ok a => simp [bind, Except.bind]

/- A sequence escapes a refusal that none of its parts gives. -/
theorem bind_ne_error
    {x : Except ε α}
    {f : α → Except ε β}
    {e : ε}
    (hFirst : x ≠ .error e)
    (hNext : ∀ a, x = .ok a → f a ≠ .error e) :
    x >>= f ≠ .error e := by
  intro h
  rcases bind_eq_error.mp h with hx | ⟨a, hx, hf⟩
  · exact hFirst hx
  · exact hNext a hx hf

/- What is returned is the result. -/
theorem pure_eq_ok
    {a b : α} :
    (pure a : Except ε α) = .ok b ↔ a = b := by
  simp [pure, Except.pure]

/- A mapped result comes from a result. -/
theorem map_eq_ok
    {x : Except ε α}
    {f : α → β}
    {b : β} :
    x.map f = .ok b ↔ ∃ a, x = .ok a ∧ f a = b := by
  cases x with
  | error e => simp [Except.map]
  | ok a => simp [Except.map]

/- A mapped result is refused just when the result is. -/
theorem map_eq_error
    {x : Except ε α}
    {f : α → β}
    {e : ε} :
    x.map f = .error e ↔ x = .error e := by
  cases x with
  | error e => simp [Except.map]
  | ok a => simp [Except.map]

/- A traversal gives its results one by one. -/
theorem mapM_eq_ok
    {f : α → Except ε β}
    {xs : List α}
    {ys : List β} :
    xs.mapM f = .ok ys ↔
      List.Forall₂ (fun x y => f x = .ok y) xs ys := by
  induction xs generalizing ys with
  | nil =>
      rw [List.mapM_nil, pure_eq_ok, List.forall₂_nil_left_iff]
      exact eq_comm
  | cons x xs ih =>
      simp only [List.mapM_cons, bind_eq_ok, pure_eq_ok, ih,
        List.forall₂_cons_left_iff]
      constructor
      · rintro ⟨y, hHead, ys, hTail, rfl⟩
        exact ⟨y, ys, hHead, hTail, rfl⟩
      · rintro ⟨y, ys, hHead, hTail, rfl⟩
        exact ⟨y, hHead, ys, hTail, rfl⟩

/- A traversal gives results when each member gives one. -/
theorem exists_mapM_iff
    {f : α → Except ε β}
    {xs : List α} :
    (∃ ys, xs.mapM f = .ok ys) ↔ ∀ x ∈ xs, ∃ y, f x = .ok y := by
  induction xs with
  | nil =>
      constructor
      · intro _ x hx
        cases hx
      · intro _
        exact ⟨[], rfl⟩
  | cons x xs ih =>
      rw [List.forall_mem_cons, ← ih]
      simp only [mapM_eq_ok, List.forall₂_cons_left_iff]
      constructor
      · rintro ⟨_, y, ys, hHead, hTail, rfl⟩
        exact ⟨⟨y, hHead⟩, ys, hTail⟩
      · rintro ⟨⟨y, hHead⟩, ys, hTail⟩
        exact ⟨y :: ys, y, ys, hHead, hTail, rfl⟩

/- A traversal escapes a refusal that none of its members gives. -/
theorem mapM_ne_error
    {f : α → Except ε β}
    {xs : List α}
    {e : ε}
    (h : ∀ x ∈ xs, f x ≠ .error e) :
    xs.mapM f ≠ .error e := by
  induction xs with
  | nil => nofun
  | cons x xs ih =>
      rw [List.forall_mem_cons] at h
      rw [List.mapM_cons]
      apply bind_ne_error h.1
      intro y _
      apply bind_ne_error (ih h.2)
      intro ys _
      nofun

/- A check of all members is passed when each passes it. -/
theorem forM_eq_ok
    {f : α → Except ε Unit}
    {xs : List α} :
    xs.forM f = .ok () ↔ ∀ x ∈ xs, f x = .ok () := by
  induction xs with
  | nil => simp [List.forM, pure, Except.pure]
  | cons x xs ih =>
      have hCons :
          (x :: xs).forM f = f x >>= fun _ => xs.forM f := rfl
      rw [hCons, bind_eq_ok, List.forall_mem_cons, ← ih]
      constructor
      · rintro ⟨_, hHead, hTail⟩
        exact ⟨hHead, hTail⟩
      · rintro ⟨hHead, hTail⟩
        exact ⟨_, hHead, hTail⟩

/- The member that a member of a traversal gives. -/
theorem exists_right
    {R : α → β → Prop}
    {xs : List α}
    {ys : List β}
    (h : List.Forall₂ R xs ys)
    {k : Nat}
    {x : α}
    (hGet : xs[k]? = some x) :
    ∃ y, ys[k]? = some y ∧ R x y := by
  induction h generalizing k with
  | nil => simp at hGet
  | cons hHead _ ih =>
      cases k with
      | zero =>
          cases hGet
          exact ⟨_, rfl, hHead⟩
      | succ k => exact ih hGet

/- The member that a member of a traversal comes from. -/
theorem exists_left
    {R : α → β → Prop}
    {xs : List α}
    {ys : List β}
    (h : List.Forall₂ R xs ys)
    {k : Nat}
    {y : β}
    (hGet : ys[k]? = some y) :
    ∃ x, xs[k]? = some x ∧ R x y :=
  exists_right h.flip hGet

/- Members that are related may be related by their position. -/
theorem forall₂_of_getElem?
    {R S : α → β → Prop}
    {xs : List α}
    {ys : List β}
    (h : List.Forall₂ R xs ys)
    (hNext : ∀ (k : Nat) (x : α) (y : β),
      xs[k]? = some x → ys[k]? = some y → R x y → S x y) :
    List.Forall₂ S xs ys := by
  induction h with
  | nil => exact .nil
  | cons hHead _ ih =>
      refine .cons (hNext 0 _ _ rfl rfl hHead) (ih ?_)
      intro k x y hx hy
      exact hNext (k + 1) x y hx hy

/- The outcome with its refusal and its result replaced. -/
def bimap
    {ε' α' : Type}
    (f : ε → ε')
    (g : α → α') : Except ε α → Except ε' α'
| .error e => .error (f e)
| .ok a => .ok (g a)

/- A sequence is replaced part by part. -/
theorem bimap_bind
    {ε' α' β' : Type}
    {f : ε → ε'}
    {g : α → α'}
    {h : β → β'}
    {k : α → Except ε β}
    {k' : α' → Except ε' β'}
    (x : Except ε α)
    (hk : ∀ a, k' (g a) = bimap f h (k a)) :
    bimap f g x >>= k' = bimap f h (x >>= k) := by
  cases x with
  | error e => rfl
  | ok a => exact hk a

/- A traversal is replaced member by member. -/
theorem bimap_mapM
    {ε' α' β' : Type}
    {f : ε → ε'}
    {g : α → α'}
    {h : β → β'}
    {k : α → Except ε β}
    {k' : α' → Except ε' β'}
    (hk : ∀ a, k' (g a) = bimap f h (k a))
    (xs : List α) :
    (xs.map g).mapM k' = bimap f (List.map h) (xs.mapM k) := by
  induction xs with
  | nil => rfl
  | cons x xs ih =>
      rw [List.map_cons, List.mapM_cons, List.mapM_cons, hk]
      apply bimap_bind
      intro b
      rw [ih]
      apply bimap_bind
      intro bs
      rfl

/- A check of all members is replaced member by member. -/
theorem bimap_forM
    {ε' α' : Type}
    {f : ε → ε'}
    {g : α → α'}
    {k : α → Except ε Unit}
    {k' : α' → Except ε' Unit}
    (hk : ∀ a, k' (g a) = bimap f id (k a))
    (xs : List α) :
    (xs.map g).forM k' = bimap f id (xs.forM k) := by
  induction xs with
  | nil => rfl
  | cons x xs ih =>
      have hCons :
          ((x :: xs).map g).forM k' =
            k' (g x) >>= fun _ => (xs.map g).forM k' := rfl
      rw [hCons, hk, ih]
      exact bimap_bind (k x) fun _ => rfl

/- The outcomes are the same refusal, or related results. -/
inductive Agree (R : α → β → Prop) : Except ε α → Except ε β → Prop where
| error (e : ε) : Agree R (.error e) (.error e)
| ok {a : α} {b : β} (result : R a b) : Agree R (.ok a) (.ok b)

/- The outcomes are refusals that are related, or related results. -/
inductive AgreeUpTo
    (E : ε → ε → Prop)
    (R : α → β → Prop) : Except ε α → Except ε β → Prop where
| error {e e' : ε} (refusal : E e e') : AgreeUpTo E R (.error e) (.error e')
| ok {a : α} {b : β} (result : R a b) : AgreeUpTo E R (.ok a) (.ok b)

namespace AgreeUpTo

variable {γ δ : Type} {E : ε → ε → Prop}
variable {R : α → β → Prop} {S : γ → δ → Prop}

theorem of_eq
    {x y : Except ε α}
    (hRefl : ∀ e, E e e)
    (h : x = y) :
    AgreeUpTo E Eq x y := by
  subst h
  cases x with
  | error e => exact .error (hRefl e)
  | ok a => exact .ok rfl

/- With equal refusals and results the outcomes are equal. -/
theorem eq
    {x y : Except ε α}
    (h : AgreeUpTo Eq Eq x y) :
    x = y := by
  cases h with
  | error hRefusal => rw [hRefusal]
  | ok hResult => rw [hResult]

theorem agree
    {x : Except ε α}
    {y : Except ε β}
    (h : AgreeUpTo Eq R x y) :
    Agree R x y := by
  cases h with
  | @error e e' hRefusal =>
      subst hRefusal
      exact .error e
  | ok hResult => exact .ok hResult

/- Sequences agree when their parts do. -/
theorem bind
    {x : Except ε α}
    {y : Except ε β}
    {f : α → Except ε γ}
    {g : β → Except ε δ}
    (h : AgreeUpTo E R x y)
    (hNext : ∀ a b, R a b → AgreeUpTo E S (f a) (g b)) :
    AgreeUpTo E S (x >>= f) (y >>= g) := by
  cases h with
  | error hRefusal => exact .error hRefusal
  | ok hResult => exact hNext _ _ hResult

/- Sequences behind the same result agree when they do for each. -/
theorem bind_eq
    {x y : Except ε α}
    {f : α → Except ε γ}
    {g : α → Except ε δ}
    (h : AgreeUpTo E Eq x y)
    (hNext : ∀ a, AgreeUpTo E S (f a) (g a)) :
    AgreeUpTo E S (x >>= f) (y >>= g) := by
  apply h.bind
  intro a b hSame
  subst hSame
  exact hNext a

theorem map
    {x : Except ε α}
    {y : Except ε β}
    {f : α → γ}
    {g : β → δ}
    (h : AgreeUpTo E R x y)
    (hNext : ∀ a b, R a b → S (f a) (g b)) :
    AgreeUpTo E S (x.map f) (y.map g) := by
  cases h with
  | error hRefusal => exact .error hRefusal
  | ok hResult => exact .ok (hNext _ _ hResult)

/- Traversals of related lists agree when the members' results do. -/
theorem mapM
    {ι κ : Type}
    {T : ι → κ → Prop}
    {f : ι → Except ε α}
    {g : κ → Except ε β}
    {xs : List ι}
    {ys : List κ}
    (hLists : List.Forall₂ T xs ys)
    (h : ∀ i j, T i j → AgreeUpTo E R (f i) (g j)) :
    AgreeUpTo E (List.Forall₂ R) (xs.mapM f) (ys.mapM g) := by
  induction hLists with
  | nil => exact .ok .nil
  | cons hSame _ ih =>
      rw [List.mapM_cons, List.mapM_cons]
      apply (h _ _ hSame).bind
      intro a b hHead
      apply ih.bind
      intro as bs hTail
      exact .ok (.cons hHead hTail)

end AgreeUpTo

end ThreeAddress.Outcome
