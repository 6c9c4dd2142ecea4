/-
  This file defines the binary floating-point numbers of
  single width: 24 significant bits, and magnitudes that are
  multiples of the least positive number 2^-149.

  Every operation computes its exact result as a quotient of
  natural numbers and rounds once, to the nearest number and
  to the even one of two that are equally near.

  Key definitions include:
    * `Single`
    * `Single.units`
    * `Single.ofUnits`
    * `Single.ofInt`
    * `Single.ofDecimal`
    * `Single.add`, `Single.sub`, `Single.mul`, `Single.div`
    * `Single.key`
-/

namespace ThreeAddress

------------------------------------------------------------
-- Numbers
------------------------------------------------------------

/-
  The size of a block of magnitudes that are equally far
  apart: as many as 23 bits count.
-/
def Single.blockSize : Nat :=
  8388608

/- How many finite magnitudes there are, zero included. -/
def Single.magnitudes : Nat :=
  255 * Single.blockSize

/-
  A finite number is a sign and the rank of its magnitude
  among all finite magnitudes in increasing order, so zero
  has rank `0` in both signs.
-/
inductive Single where
| finite (negative : Bool) (rank : Fin Single.magnitudes)
| infinite (negative : Bool)
| nan
deriving DecidableEq

namespace Single

/- Zero with a sign. -/
def zero (negative : Bool) : Single :=
  .finite negative ⟨0, by decide⟩

instance : Inhabited Single :=
  ⟨zero false⟩

/- Numbers other than the infinities and the non-number. -/
def isFinite : Single → Bool
| .finite _ _ => true
| _ => false

/- The number of the opposite sign. -/
def neg : Single → Single
| .finite negative rank => .finite (!negative) rank
| .infinite negative => .infinite (!negative)
| .nan => .nan

------------------------------------------------------------
-- Magnitudes
------------------------------------------------------------

/-
  The magnitude of a rank, in units of 2^-149. The ranks of
  the first two blocks are one unit apart, and those of each
  later block twice as far as those of the block before it.
-/
def units (rank : Nat) : Nat :=
  let shift := rank / blockSize - 1
  (rank - shift * blockSize) * Nat.pow 2 shift

/- A quotient rounded to the nearest number, half to even. -/
def roundDiv (num den : Nat) : Nat :=
  let q := num / den
  let r := num % den
  if 2 * r < den then q
  else if den < 2 * r then q + 1
  else if q % 2 = 0 then q
  else q + 1

/-
  The rank nearest to `num / den` units. A carry out of one
  block of ranks lands on the first rank of the next block.
-/
def nearestRank (num den : Nat) : Nat :=
  let shift := (num / den).log2 - 23
  shift * blockSize + roundDiv num (den * Nat.pow 2 shift)

/-
  The number nearest to `num / den` units, infinite when its
  rank is past the last finite one.
-/
def ofUnits (negative : Bool) (num den : Nat) : Single :=
  let rank := nearestRank num den
  if h : rank < magnitudes then
    .finite negative ⟨rank, h⟩
  else
    .infinite negative

/- The count of units in one. -/
def unitsPerOne : Nat :=
  Nat.pow 2 149

------------------------------------------------------------
-- Conversion
------------------------------------------------------------

/- The number nearest to an integer. -/
def ofInt (n : Int) : Single :=
  ofUnits (n < 0) (n.natAbs * unitsPerOne) 1

/-
  The decimal `significand * 10 ^ exponent` in units, as a
  numerator and a denominator.
-/
def decimalUnits (significand : Nat) (exponent : Int) : Nat × Nat :=
  if 0 ≤ exponent then
    (significand * Nat.pow 10 exponent.toNat * unitsPerOne, 1)
  else
    (significand * unitsPerOne, Nat.pow 10 (-exponent).toNat)

/-
  A number of decimal places that a number fits into, found
  from its bits: three bits fit into one place.
-/
def decimalPlaces (significand : Nat) : Nat :=
  significand.log2 / 3 + 1

/-
  The number nearest to a signed decimal. Exponents so large
  or so small that the result is plain are settled without
  the power of ten: from 10^40 on every number is infinite,
  and below 10^-46 every number is zero.
-/
def ofDecimal
    (negative : Bool)
    (significand : Nat)
    (exponent : Int) : Single :=
  if significand = 0 then
    zero negative
  else if 39 < exponent then
    .infinite negative
  else if decimalPlaces significand + exponent < -46 then
    zero negative
  else
    let (num, den) := decimalUnits significand exponent
    ofUnits negative num den

------------------------------------------------------------
-- Arithmetic
------------------------------------------------------------

/- A sign and a magnitude as one integer. -/
def signed (negative : Bool) (magnitude : Nat) : Int :=
  if negative then -(magnitude : Int) else magnitude

/-
  The sum. Infinities of opposite signs have none; an exact
  zero is negative only when both terms are.
-/
def add : Single → Single → Single
| .nan, _ => .nan
| _, .nan => .nan
| .infinite a, .infinite b =>
    if a = b then .infinite a else .nan
| .infinite a, .finite _ _ => .infinite a
| .finite _ _, .infinite b => .infinite b
| .finite a i, .finite b j =>
    let sum := signed a (units i) + signed b (units j)
    if sum = 0 then
      zero (a && b)
    else
      ofUnits (sum < 0) sum.natAbs 1

/- The difference. -/
def sub (x y : Single) : Single :=
  add x y.neg

/- The product. Zero times infinity has none. -/
def mul : Single → Single → Single
| .nan, _ => .nan
| _, .nan => .nan
| .infinite a, .infinite b => .infinite (a != b)
| .infinite a, .finite b j =>
    if j.val = 0 then .nan else .infinite (a != b)
| .finite a i, .infinite b =>
    if i.val = 0 then .nan else .infinite (a != b)
| .finite a i, .finite b j =>
    ofUnits (a != b) (units i * units j) unitsPerOne

/-
  The quotient. Zero by zero and infinity by infinity have
  none, and any other number by zero is infinite.
-/
def div : Single → Single → Single
| .nan, _ => .nan
| _, .nan => .nan
| .infinite _, .infinite _ => .nan
| .infinite a, .finite b _ => .infinite (a != b)
| .finite a _, .infinite b => zero (a != b)
| .finite a i, .finite b j =>
    if j.val = 0 then
      if i.val = 0 then .nan else .infinite (a != b)
    else
      ofUnits (a != b) (units i * unitsPerOne) (units j)

------------------------------------------------------------
-- Comparison
------------------------------------------------------------

/-
  An integer that orders the numbers. The two zeros share it,
  and the non-number, which compares with nothing, has none.
-/
def key : Single → Option Int
| .finite negative rank => some (signed negative rank.val)
| .infinite negative => some (signed negative magnitudes)
| .nan => none

/- Equality as numbers: the zeros agree, no non-number does. -/
def numEq (x y : Single) : Bool :=
  match x.key, y.key with
  | some a, some b => a = b
  | _, _ => false

/- Strict order, false when a side is no number. -/
def numLt (x y : Single) : Bool :=
  match x.key, y.key with
  | some a, some b => a < b
  | _, _ => false

/- Order, false when a side is no number. -/
def numLe (x y : Single) : Bool :=
  match x.key, y.key with
  | some a, some b => a ≤ b
  | _, _ => false

end Single

end ThreeAddress
