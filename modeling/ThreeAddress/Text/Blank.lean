/-
  This file defines the blank characters, which separate
  tokens in program text and in the input of a running
  program.

  Key definitions include:
    * `blankRanges`
    * `isBlank`
-/

namespace ThreeAddress.Text

------------------------------------------------------------
-- Blank Characters
------------------------------------------------------------

/-
  The code points with the Unicode property `White_Space`,
  as closed ranges in increasing order.
-/
def blankRanges : List (Nat × Nat) :=
  [ (0x0009, 0x000D)
  , (0x0020, 0x0020)
  , (0x0085, 0x0085)
  , (0x00A0, 0x00A0)
  , (0x1680, 0x1680)
  , (0x2000, 0x200A)
  , (0x2028, 0x2029)
  , (0x202F, 0x202F)
  , (0x205F, 0x205F)
  , (0x3000, 0x3000) ]

/- A character is blank when one of the ranges holds it. -/
def isBlank (c : Char) : Bool :=
  blankRanges.any fun (low, high) =>
    low ≤ c.toNat && c.toNat ≤ high

end ThreeAddress.Text
