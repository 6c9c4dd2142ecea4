import ThreeAddress.Text.Decimal
import ThreeAddress.Single.Shortest

/-
  This file defines the text of single-width numbers: how
  they are written, and which texts are read as one.

  A number is written with the digits of its shortest
  decimal, always with a fraction or an exponent, so that no
  number looks like an integer.

  Key definitions include:
    * `Single.Layout`
    * `Single.plain`
    * `Single.text`
    * `Single.exponentBound`, `Single.exponentValue`
    * `Single.ofText?`
-/

namespace ThreeAddress.Single

------------------------------------------------------------
-- Writing
------------------------------------------------------------

/-
  The exponents of the first digit for which a number is
  written without an exponent: from `low` up to, and not
  including, `high`.
-/
structure Layout where
  low : Int
  high : Int

/- Magnitudes from 10^-4 up to 10^16 are written plainly. -/
def plain : Layout :=
  { low := -4, high := 16 }

/- Digits with the point after the first `point` of them. -/
def placePoint (ds : List Char) (point : Int) : List Char :=
  if point ≤ 0 then
    '0' :: '.' :: (List.replicate (-point).toNat '0' ++ ds)
  else
    let whole := point.toNat
    if ds.length ≤ whole then
      ds ++ List.replicate (whole - ds.length) '0' ++ ['.', '0']
    else
      ds.take whole ++ '.' :: ds.drop whole

/- Digits with the point after the first, and an exponent. -/
def placeExponent (ds : List Char) (exponent : Int) : List Char :=
  let mantissa :=
    match ds with
    | [] => []
    | [d] => [d]
    | d :: rest => d :: '.' :: rest
  mantissa ++ 'e' :: Decimal.ofInt exponent

/- The digits of a decimal without the zeros at its end. -/
def significantDigits (d : Numeral) : List Char :=
  ((Decimal.digits d.significand).reverse.dropWhile
    (· = '0')).reverse

/- The text of a positive magnitude. -/
def magnitudeText (layout : Layout) (rank : Nat) : List Char :=
  let d := shortest rank
  let point := (Decimal.digits d.significand).length + d.exponent
  let ds := significantDigits d
  if layout.low ≤ point - 1 ∧ point - 1 < layout.high then
    placePoint ds point
  else
    placeExponent ds (point - 1)

/- The text of a number, as a list of characters. -/
def chars : Single → List Char
| .nan => ['N', 'a', 'N']
| .infinite negative =>
    (if negative then ['-'] else []) ++ ['i', 'n', 'f']
| .finite negative rank =>
    (if negative then ['-'] else []) ++
      (if rank.val = 0 then
        ['0', '.', '0']
      else
        magnitudeText plain rank.val)

/- The text of a number. -/
def text (x : Single) : String :=
  String.ofList x.chars

------------------------------------------------------------
-- Reading
------------------------------------------------------------

/-
  The size from which on an exponent is not read any further:
  the digits behind it are passed over.
-/
def exponentBound : Nat :=
  65536

/- The number that the digits of an exponent stand for. -/
def exponentValue (ds : List Char) : Nat :=
  ds.foldl
    (fun n c =>
      if n < exponentBound then 10 * n + Decimal.digitValue c else n)
    0

/- A run of one or more digits, read as an exponent. -/
def exponentDigits? (ds : List Char) : Option Nat :=
  if !ds.isEmpty && ds.all Char.isDigit then
    some (exponentValue ds)
  else
    none

/- An exponent part, its mark left out: a sign and digits. -/
def exponent? : List Char → Option Int
| '-' :: ds => (exponentDigits? ds).map fun n => -(n : Int)
| '+' :: ds => (exponentDigits? ds).map fun n => (n : Int)
| ds => (exponentDigits? ds).map fun n => (n : Int)

/-
  An unsigned decimal: digits with at most one point among,
  before or after them, and an optional exponent part.
-/
def numeral? (cs : List Char) : Option Numeral :=
  let (whole, rest) := cs.span Char.isDigit
  let (fraction, rest) :=
    match rest with
    | '.' :: tail => tail.span Char.isDigit
    | _ => ([], rest)
  let ds := whole ++ fraction
  if ds.isEmpty then
    none
  else
    let scale : Int := -fraction.length
    match rest with
    | [] => some ⟨Decimal.value ds, scale⟩
    | mark :: tail =>
        if mark = 'e' ∨ mark = 'E' then
          (exponent? tail).map fun e =>
            ⟨Decimal.value ds, e + scale⟩
        else
          none

/-
  An unsigned number: a decimal, or a name of infinity or of
  the non-number in letters of either case.
-/
def unsigned? (negative : Bool) (cs : List Char) : Option Single :=
  let name := String.ofList (cs.map Char.toLower)
  if name = "inf" ∨ name = "infinity" then
    some (.infinite negative)
  else if name = "nan" then
    some .nan
  else
    (numeral? cs).map fun d =>
      ofDecimal negative d.significand d.exponent

/- The number that a text names, with at most one sign. -/
def ofChars? : List Char → Option Single
| '-' :: cs => unsigned? true cs
| '+' :: cs => unsigned? false cs
| cs => unsigned? false cs

/- The number that a text names. -/
def ofText? (s : String) : Option Single :=
  ofChars? s.toList

end ThreeAddress.Single
