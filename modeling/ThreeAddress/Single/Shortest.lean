import ThreeAddress.Single.Basic

/-
  This file finds the shortest decimal that names a finite
  single-width number: of the decimals that read back as the
  number, one with the fewest digits, and of those the
  nearest to it.

  A decimal of a given length that reads back lies next to
  the number on the grid of that length, so only the two grid
  points around the number are tried. Nine digits are enough
  for every number; the exact decimal expansion stands behind
  the search, so that the result reads back by construction.

  Key definitions include:
    * `Numeral`
    * `Single.readsBack`
    * `Single.candidate?`
    * `Single.shortest`

  Main statements:
    * `Single.readsBack_of_candidate?`
-/

namespace ThreeAddress

/- The decimal `significand * 10 ^ exponent`. -/
structure Numeral where
  significand : Nat
  exponent : Int
deriving DecidableEq, Repr

namespace Single

------------------------------------------------------------
-- Grids Around a Number
------------------------------------------------------------

/- The decimal has the given rank when it is rounded. -/
def readsBack (rank : Nat) (d : Numeral) : Bool :=
  let (num, den) := decimalUnits d.significand d.exponent
  nearestRank num den = rank

/-
  The exponent of ten of a positive magnitude's first digit.
  No positive magnitude is below 10^-45.
-/
def leadingExponent (rank : Nat) : Int :=
  let scaled := units rank * Nat.pow 10 45 / unitsPerOne
  ((Nat.toDigits 10 scaled).length : Int) - 46

/-
  A magnitude in steps of `10 ^ exponent`, as a numerator and
  a denominator.
-/
def stepsOfTen (rank : Nat) (exponent : Int) : Nat × Nat :=
  if 0 ≤ exponent then
    (units rank, unitsPerOne * Nat.pow 10 exponent.toNat)
  else
    (units rank * Nat.pow 10 (-exponent).toNat, unitsPerOne)

/-
  The two decimals of `length` digits around a magnitude, the
  nearer one first, and the upper one when it lies halfway.
-/
def neighbours (rank length : Nat) : List Numeral :=
  let exponent := leadingExponent rank - length + 1
  let (num, den) := stepsOfTen rank exponent
  let below : Numeral := ⟨num / den, exponent⟩
  let above : Numeral := ⟨num / den + 1, exponent⟩
  if 2 * (num % den) < den then
    [below, above]
  else
    [above, below]

/- The nearest decimal of `length` digits that reads back. -/
def candidate? (rank length : Nat) : Option Numeral :=
  (neighbours rank length).find? (readsBack rank)

/- The exact decimal expansion of a magnitude. -/
def exactNumeral (rank : Nat) : Numeral :=
  ⟨units rank * Nat.pow 5 149, -149⟩

/- The shortest decimal that reads back as a magnitude. -/
def shortest (rank : Nat) : Numeral :=
  ((List.range' 1 9).findSome? (candidate? rank)).getD
    (exactNumeral rank)

/- A candidate reads back. -/
theorem readsBack_of_candidate?
    {rank length : Nat}
    {d : Numeral}
    (h : candidate? rank length = some d) :
    readsBack rank d = true := by
  unfold candidate? at h
  exact List.find?_some h

end Single

end ThreeAddress
