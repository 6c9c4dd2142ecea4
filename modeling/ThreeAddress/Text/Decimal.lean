/-
  This file defines the decimal numerals of natural numbers
  and of the fixed-width integers: how they are written, and
  which texts are read as one.

  Key definitions include:
    * `Decimal.digits`
    * `Decimal.horner`, `Decimal.value`
    * `Decimal.signed?`
    * `Decimal.int32?`
    * `Decimal.word64?`
    * `Decimal.ofInt`

  Main statements:
    * `Decimal.value_eq_horner`
-/

namespace ThreeAddress.Decimal

------------------------------------------------------------
-- Runs of Digits
------------------------------------------------------------

/- The decimal digits of a number, highest first. -/
def digits (n : Nat) : List Char :=
  Nat.toDigits 10 n

/- The digit that a character stands for. -/
def digitValue (c : Char) : Nat :=
  c.toNat - '0'.toNat

/- The number that a run of digits denotes, digit by digit. -/
def horner (ds : List Char) : Nat :=
  ds.foldl (fun n c => 10 * n + digitValue c) 0

/-
  The number that a run of digits denotes, put together from
  the numbers of its halves, `depth` halvings deep.
-/
def valueByHalves : Nat → List Char → Nat
| 0, ds => horner ds
| depth + 1, ds =>
    let front := ds.take (ds.length / 2)
    let back := ds.drop (ds.length / 2)
    valueByHalves depth front * Nat.pow 10 back.length +
      valueByHalves depth back

/-
  The number that a run of digits denotes. A long run is
  halved until its parts are short, since multiplying two
  large numbers is cheaper than many steps with one.
-/
def value (ds : List Char) : Nat :=
  valueByHalves (ds.length.log2 - 6) ds

/- A number before a run of digits is shifted by the run. -/
theorem foldl_digits
    (n : Nat)
    (ds : List Char) :
    ds.foldl (fun n c => 10 * n + digitValue c) n =
      n * Nat.pow 10 ds.length + horner ds := by
  induction ds generalizing n with
  | nil => simp [horner]
  | cons c ds ih =>
      have hHead : horner (c :: ds) =
          digitValue c * Nat.pow 10 ds.length + horner ds := by
        rw [horner, List.foldl_cons, ih]
        simp
      have hPow : Nat.pow 10 (c :: ds).length =
          Nat.pow 10 ds.length * 10 := rfl
      rw [List.foldl_cons, ih, hHead, hPow, Nat.add_mul,
        Nat.mul_comm 10 n, Nat.mul_assoc,
        Nat.mul_comm 10, Nat.add_assoc]

/- The number of two runs of digits, one behind the other. -/
theorem horner_append
    (front back : List Char) :
    horner (front ++ back) =
      horner front * Nat.pow 10 back.length + horner back := by
  rw [horner, List.foldl_append, foldl_digits]
  rfl

/- Halving does not change the number. -/
theorem valueByHalves_eq_horner
    (depth : Nat)
    (ds : List Char) :
    valueByHalves depth ds = horner ds := by
  induction depth generalizing ds with
  | zero => rfl
  | succ depth ih =>
      rw [valueByHalves, ih, ih, ← horner_append,
        List.take_append_drop]

/- The number is the one that is found digit by digit. -/
theorem value_eq_horner
    (ds : List Char) :
    value ds = horner ds :=
  valueByHalves_eq_horner _ ds

/- A run of one or more digits, read as a number. -/
def natural? (cs : List Char) : Option Nat :=
  if !cs.isEmpty && cs.all Char.isDigit then
    some (value cs)
  else
    none

------------------------------------------------------------
-- Signed Numerals
------------------------------------------------------------

/- The text of an integer: a minus sign for a negative one. -/
def ofInt (n : Int) : List Char :=
  if n < 0 then '-' :: digits n.natAbs else digits n.natAbs

/- Digits with at most one sign before them. -/
def signed? : List Char → Option Int
| '-' :: cs => (natural? cs).map fun n => -(n : Int)
| '+' :: cs => (natural? cs).map fun n => (n : Int)
| cs => (natural? cs).map fun n => (n : Int)

/- The 32-bit word of an integer that fits into one. -/
def narrow32? (n : Int) : Option Int32 :=
  if -2147483648 ≤ n ∧ n ≤ 2147483647 then
    some (Int32.ofInt n)
  else
    none

/- A signed numeral whose number fits into 32 bits. -/
def int32? (cs : List Char) : Option Int32 :=
  (signed? cs).bind narrow32?

/-
  A numeral without a sign, or with a plus sign, whose number
  fits into 64 bits.
-/
def word64? (cs : List Char) : Option Nat :=
  let number :=
    match cs with
    | '+' :: ds => natural? ds
    | ds => natural? ds
  number.filter fun n => n < 18446744073709551616

end ThreeAddress.Decimal
