import Mathlib.Data.Rat.Cast.Order
import Mathlib.Algebra.Order.Field.Power
import Mathlib.Tactic.FieldSimp
import Mathlib.Tactic.Linarith
import Mathlib.Tactic.NormNum
import Mathlib.Tactic.Positivity
import Mathlib.Tactic.Ring
import ThreeAddress.Single.Shortest

/-
  This file shows that rounding depends only on the quotient
  that is rounded, that the rank nearest to a magnitude is its
  own, and between which bounds a quotient lies whose rank is
  positive and finite. From these the shortest decimal of a
  magnitude is read as that magnitude, and so is every other
  decimal of the same value.

  Key definitions include:
    * `Numeral.toRat`

  Main statements:
    * `Single.nearestRank_congr`
    * `Single.nearestRank_units`
    * `Single.readsBack_shortest`
    * `Single.ofDecimal_of_readsBack`
-/

namespace ThreeAddress

namespace Single

------------------------------------------------------------
-- Rounded Quotients
------------------------------------------------------------

/- A common factor does not change a rounded quotient. -/
theorem roundDiv_mul_right
    {k : Nat}
    (num den : Nat)
    (hk : 0 < k) :
    roundDiv (num * k) (den * k) = roundDiv num den := by
  have hDiv : num * k / (den * k) = num / den :=
    Nat.mul_div_mul_right num den hk
  have hMod : num * k % (den * k) = num % den * k :=
    Nat.mul_mod_mul_right k num den
  have hLow : 2 * (num % den * k) < den * k ↔
      2 * (num % den) < den := by
    rw [← Nat.mul_assoc]
    exact Nat.mul_lt_mul_right hk
  have hHigh : den * k < 2 * (num % den * k) ↔
      den < 2 * (num % den) := by
    rw [← Nat.mul_assoc]
    exact Nat.mul_lt_mul_right hk
  simp only [roundDiv, hDiv, hMod, hLow, hHigh]

/- A quotient without a remainder is not rounded. -/
theorem roundDiv_mul_self
    {den : Nat}
    (q : Nat)
    (hDen : 0 < den) :
    roundDiv (q * den) den = q := by
  simp [roundDiv, Nat.mul_div_cancel q hDen, hDen]

/- A rounded quotient is not below the truncated one. -/
theorem div_le_roundDiv
    (num den : Nat) :
    num / den ≤ roundDiv num den := by
  unfold roundDiv
  dsimp only
  split
  · exact Nat.le_refl _
  · split
    · exact Nat.le_succ _
    · split
      · exact Nat.le_refl _
      · exact Nat.le_succ _

/- A common factor does not change the nearest rank. -/
theorem nearestRank_mul_right
    {k : Nat}
    (num den : Nat)
    (hk : 0 < k) :
    nearestRank (num * k) (den * k) = nearestRank num den := by
  have hDiv : num * k / (den * k) = num / den :=
    Nat.mul_div_mul_right num den hk
  have hScale : ∀ shift : Nat,
      roundDiv (num * k) (den * k * Nat.pow 2 shift) =
        roundDiv num (den * Nat.pow 2 shift) := by
    intro shift
    rw [Nat.mul_right_comm, roundDiv_mul_right _ _ hk]
  simp only [nearestRank, hDiv, hScale]

/- The nearest rank depends on the quotient alone. -/
theorem nearestRank_congr
    {a b c d : Nat}
    (hb : 0 < b)
    (hd : 0 < d)
    (h : a * d = c * b) :
    nearestRank a b = nearestRank c d := by
  calc
    nearestRank a b = nearestRank (a * d) (b * d) :=
      (nearestRank_mul_right a b hd).symm
    _ = nearestRank (c * b) (d * b) := by
      rw [h, Nat.mul_comm b d]
    _ = nearestRank c d := nearestRank_mul_right c d hb

------------------------------------------------------------
-- Ranks of Magnitudes
------------------------------------------------------------

/- A magnitude is a number of 24 bits, shifted. -/
theorem nearestRank_shifted
    {m shift : Nat}
    (hLow : blockSize ≤ m)
    (hHigh : m < 2 * blockSize) :
    nearestRank (m * Nat.pow 2 shift) 1 = shift * blockSize + m := by
  have hPos : 0 < Nat.pow 2 shift := Nat.two_pow_pos shift
  have hNe : m * Nat.pow 2 shift ≠ 0 := by
    have hm : 0 < m := Nat.lt_of_lt_of_le (by decide) hLow
    exact Nat.ne_of_gt (Nat.mul_pos hm hPos)
  have hLog : (m * Nat.pow 2 shift).log2 = 23 + shift := by
    rw [Nat.log2_eq_iff hNe]
    constructor
    · rw [Nat.pow_add]
      exact Nat.mul_le_mul_right _ hLow
    · rw [show 23 + shift + 1 = 24 + shift by omega, Nat.pow_add]
      exact (Nat.mul_lt_mul_right hPos).mpr hHigh
  simp only [nearestRank, Nat.div_one, Nat.one_mul, hLog,
    Nat.add_sub_cancel_left, roundDiv_mul_self m hPos]

/- The rank nearest to a magnitude is the magnitude's own. -/
theorem nearestRank_units_one
    (rank : Nat) :
    nearestRank (units rank) 1 = rank := by
  by_cases hSmall : rank < 2 * blockSize
  · have hShift : rank / blockSize - 1 = 0 := by
      have hBlock : rank / blockSize < 2 :=
        (Nat.div_lt_iff_lt_mul (by decide)).mpr hSmall
      omega
    have hUnits : units rank = rank := by
      simp [units, hShift]
    have hLog : rank.log2 - 23 = 0 := by
      by_cases hZero : rank = 0
      · subst hZero
        rfl
      · have hLt : rank.log2 < 24 :=
          (Nat.log2_lt hZero).mpr hSmall
        omega
    have hRound := roundDiv_mul_self rank Nat.one_pos
    rw [Nat.mul_one] at hRound
    simp [nearestRank, hUnits, hLog, hRound]
  · have hBlock : blockSize = 8388608 := rfl
    have hMod := Nat.div_add_mod rank blockSize
    have hRest := Nat.mod_lt rank (y := blockSize) (by decide)
    have hQuotient : 2 ≤ rank / blockSize :=
      (Nat.le_div_iff_mul_le (by decide)).mpr (by omega)
    rcases Nat.exists_eq_add_of_le hQuotient with ⟨k, hk⟩
    have hShift : rank / blockSize - 1 = k + 1 := by omega
    have hExpand : blockSize * (2 + k) =
        (k + 1) * blockSize + blockSize := by ring
    rw [hk, hExpand] at hMod
    rw [units, hShift, nearestRank_shifted]
    · omega
    · omega
    · omega

theorem nearestRank_units
    {k : Nat}
    (rank : Nat)
    (hk : 0 < k) :
    nearestRank (units rank * k) k = rank := by
  have h := nearestRank_mul_right (units rank) 1 hk
  rw [Nat.one_mul] at h
  rw [h, nearestRank_units_one]

/- What has a positive rank is at least half a unit. -/
theorem le_two_mul_of_nearestRank_pos
    {num den : Nat}
    (h : 0 < nearestRank num den) :
    den ≤ 2 * num := by
  by_contra hLt
  have hSmall : num / den = 0 :=
    Nat.div_eq_of_lt (by omega)
  have hMod : num % den = num := Nat.mod_eq_of_lt (by omega)
  have hZero : nearestRank num den = 0 := by
    have hRound : 2 * num < den := by omega
    simp [nearestRank, hSmall, roundDiv, hMod, hRound]
  omega

/- What has a finite rank is below 2^128. -/
theorem div_lt_of_nearestRank_lt
    {num den : Nat}
    (h : nearestRank num den < magnitudes) :
    num / den < Nat.pow 2 128 * unitsPerOne := by
  by_contra hLarge
  have hBig : Nat.pow 2 128 * unitsPerOne ≤ num / den :=
    not_lt.mp hLarge
  have hPos : 0 < Nat.pow 2 128 * unitsPerOne :=
    Nat.mul_pos (Nat.two_pow_pos 128) (Nat.two_pow_pos 149)
  have hNe : num / den ≠ 0 :=
    Nat.ne_of_gt (Nat.lt_of_lt_of_le hPos hBig)
  have hLog : 128 + 149 ≤ (num / den).log2 := by
    apply (Nat.le_log2 hNe).mpr
    exact Nat.le_trans (Nat.le_of_eq (Nat.pow_add 2 128 149)) hBig
  rcases Nat.exists_eq_add_of_le hLog with ⟨k, hk⟩
  have hShift : (num / den).log2 - 23 = 254 + k := by omega
  have hFloor : Nat.pow 2 (128 + 149 + k) ≤ num / den := by
    rw [← hk]
    exact Nat.log2_self_le hNe
  have hSplit : Nat.pow 2 (128 + 149 + k) =
      blockSize * Nat.pow 2 (254 + k) := by
    rw [show 128 + 149 + k = 23 + (254 + k) by omega]
    exact Nat.pow_add 2 23 (254 + k)
  have hBlock :
      blockSize ≤ num / (den * Nat.pow 2 (254 + k)) := by
    rw [← Nat.div_div_eq_div_mul]
    apply (Nat.le_div_iff_mul_le (Nat.two_pow_pos (254 + k))).mpr
    rw [hSplit] at hFloor
    exact hFloor
  have hRound :=
    div_le_roundDiv num (den * Nat.pow 2 (254 + k))
  have hRank : nearestRank num den =
      (254 + k) * blockSize +
        roundDiv num (den * Nat.pow 2 (254 + k)) := by
    simp only [nearestRank, hShift]
  have hSize : blockSize = 8388608 := rfl
  have hAll : magnitudes = 255 * blockSize := rfl
  rw [hRank, hAll, hSize] at h
  rw [hSize] at hBlock
  omega

end Single

------------------------------------------------------------
-- Values of Decimals
------------------------------------------------------------

/- The value of a decimal. -/
def Numeral.toRat (d : Numeral) : ℚ :=
  d.significand * (10 : ℚ) ^ d.exponent

namespace Single

/- The units of a decimal are a quotient of its value. -/
theorem decimalUnits_spec
    (d : Numeral) :
    let units := decimalUnits d.significand d.exponent
    0 < units.2 ∧ (units.1 : ℚ) = d.toRat * unitsPerOne * units.2 := by
  dsimp only
  unfold decimalUnits
  split
  · next hExponent =>
      refine ⟨Nat.one_pos, ?_⟩
      have hPower : (10 : ℚ) ^ d.exponent =
          10 ^ d.exponent.toNat := by
        rw [← zpow_natCast, Int.toNat_of_nonneg hExponent]
      simp only [Numeral.toRat, hPower, Nat.pow_eq]
      push_cast
      ring
  · next hExponent =>
      have hPow : 0 < Nat.pow 10 (-d.exponent).toNat :=
        Nat.pow_pos (by decide)
      refine ⟨hPow, ?_⟩
      have hPower : (10 : ℚ) ^ d.exponent *
          10 ^ (-d.exponent).toNat = 1 := by
        rw [← zpow_natCast, Int.toNat_of_nonneg (by omega),
          ← zpow_add₀ (by norm_num)]
        simp
      have hCast : ((Nat.pow 10 (-d.exponent).toNat : Nat) : ℚ) =
          10 ^ (-d.exponent).toNat := by
        rw [Nat.pow_eq]
        push_cast
        rfl
      simp only [Numeral.toRat, hCast]
      push_cast
      calc
        (d.significand : ℚ) * unitsPerOne =
            d.significand * unitsPerOne * 1 := by ring
        _ = d.significand * unitsPerOne *
            ((10 : ℚ) ^ d.exponent * 10 ^ (-d.exponent).toNat) := by
          rw [hPower]
        _ = d.significand * (10 : ℚ) ^ d.exponent * unitsPerOne *
            10 ^ (-d.exponent).toNat := by ring

theorem readsBack_iff
    {rank : Nat}
    {d : Numeral} :
    readsBack rank d = true ↔
      nearestRank (decimalUnits d.significand d.exponent).1
        (decimalUnits d.significand d.exponent).2 = rank := by
  simp [readsBack]

/- Decimals of one value are read alike. -/
theorem readsBack_congr
    {a b : Numeral}
    (rank : Nat)
    (h : a.toRat = b.toRat) :
    readsBack rank a = readsBack rank b := by
  rcases decimalUnits_spec a with ⟨ha, hNumA⟩
  rcases decimalUnits_spec b with ⟨hb, hNumB⟩
  have hCross :
      (decimalUnits a.significand a.exponent).1 *
          (decimalUnits b.significand b.exponent).2 =
        (decimalUnits b.significand b.exponent).1 *
          (decimalUnits a.significand a.exponent).2 := by
    have hRat :
        ((decimalUnits a.significand a.exponent).1 : ℚ) *
            (decimalUnits b.significand b.exponent).2 =
          (decimalUnits b.significand b.exponent).1 *
            (decimalUnits a.significand a.exponent).2 := by
      rw [hNumA, hNumB, h]
      ring
    exact_mod_cast hRat
  simp only [readsBack, nearestRank_congr ha hb hCross]

/- The exact decimal of a magnitude is read as it. -/
theorem readsBack_exactNumeral
    (rank : Nat) :
    readsBack rank (exactNumeral rank) = true := by
  have hPow : Nat.pow 5 149 * unitsPerOne = Nat.pow 10 149 := by
    exact (Nat.mul_pow 5 2 149).symm
  have hPos : 0 < Nat.pow 10 149 := Nat.pow_pos (by decide)
  have hUnits : decimalUnits (units rank * Nat.pow 5 149) (-149) =
      (units rank * Nat.pow 10 149, Nat.pow 10 149) := by
    simp only [decimalUnits, Nat.mul_assoc, hPow]
    rfl
  simp only [readsBack, exactNumeral, hUnits,
    nearestRank_units rank hPos, decide_true]

/- The shortest decimal of a magnitude is read as it. -/
theorem readsBack_shortest
    (rank : Nat) :
    readsBack rank (shortest rank) = true := by
  unfold shortest
  cases hFound : (List.range' 1 9).findSome? (candidate? rank) with
  | none => exact readsBack_exactNumeral rank
  | some d =>
      rcases List.exists_of_findSome?_eq_some hFound with
        ⟨length, _, hCandidate⟩
      exact readsBack_of_candidate? hCandidate

/- A decimal that is read as a positive number is not tiny. -/
theorem one_le_of_readsBack
    {rank : Nat}
    {d : Numeral}
    (h : readsBack rank d = true)
    (hPos : 0 < rank) :
    1 ≤ 2 * (d.toRat * unitsPerOne) := by
  rcases decimalUnits_spec d with ⟨hDen, hNum⟩
  have hRank := readsBack_iff.mp h
  have hLe := le_two_mul_of_nearestRank_pos (by rw [hRank]; exact hPos)
  have hLe' : ((decimalUnits d.significand d.exponent).2 : ℚ) ≤
      2 * (decimalUnits d.significand d.exponent).1 := by
    exact_mod_cast hLe
  rw [hNum] at hLe'
  have hDen' : (0 : ℚ) <
      (decimalUnits d.significand d.exponent).2 := by
    exact_mod_cast hDen
  nlinarith

/- A decimal that is read as a finite number is not huge. -/
theorem toRat_lt_of_readsBack
    {rank : Nat}
    {d : Numeral}
    (h : readsBack rank d = true)
    (hLt : rank < magnitudes) :
    d.toRat < 2 ^ 128 := by
  rcases decimalUnits_spec d with ⟨hDen, hNum⟩
  have hRank := readsBack_iff.mp h
  have hDiv := div_lt_of_nearestRank_lt (by rw [hRank]; exact hLt)
  have hMul := (Nat.div_lt_iff_lt_mul hDen).mp hDiv
  have hMul' : ((decimalUnits d.significand d.exponent).1 : ℚ) <
      2 ^ 128 * unitsPerOne *
        (decimalUnits d.significand d.exponent).2 := by
    exact_mod_cast hMul
  have hDen' : (0 : ℚ) <
      (decimalUnits d.significand d.exponent).2 := by
    exact_mod_cast hDen
  have hOne : (0 : ℚ) < unitsPerOne := by
    exact_mod_cast Nat.two_pow_pos 149
  rw [hNum] at hMul'
  have hCancel := lt_of_mul_lt_mul_right hMul' hDen'.le
  exact lt_of_mul_lt_mul_right hCancel hOne.le

/- A number is below ten to the places that it fits into. -/
theorem lt_pow_decimalPlaces
    (n : Nat) :
    n < 10 ^ decimalPlaces n := by
  calc
    n < 2 ^ (n.log2 + 1) := Nat.lt_log2_self
    _ ≤ 2 ^ (3 * decimalPlaces n) := by
      apply Nat.pow_le_pow_right (by decide)
      unfold decimalPlaces
      omega
    _ = 8 ^ decimalPlaces n := by rw [Nat.pow_mul]
    _ ≤ 10 ^ decimalPlaces n := Nat.pow_le_pow_left (by decide) _

/- What reads back as a positive finite rank has that rank. -/
theorem ofDecimal_of_readsBack
    {rank : Nat}
    {d : Numeral}
    (negative : Bool)
    (h : readsBack rank d = true)
    (hPos : 0 < rank)
    (hLt : rank < magnitudes) :
    ofDecimal negative d.significand d.exponent =
      .finite negative ⟨rank, hLt⟩ := by
  have hLow := one_le_of_readsBack h hPos
  have hHigh := toRat_lt_of_readsBack h hLt
  have hUnits : (unitsPerOne : ℚ) = 2 ^ 149 := by
    exact_mod_cast rfl
  rw [hUnits] at hLow
  have hNonzero : d.significand ≠ 0 := by
    intro hZero
    simp [Numeral.toRat, hZero] at hLow
    norm_num at hLow
  have hOne : (1 : ℚ) ≤ d.significand := by
    exact_mod_cast Nat.one_le_iff_ne_zero.mpr hNonzero
  have hNotHuge : ¬ 39 < d.exponent := by
    intro hHuge
    have hPow : (10 : ℚ) ^ (40 : ℤ) ≤ 10 ^ d.exponent :=
      zpow_le_zpow_right₀ (by norm_num) (by omega)
    have hValue : (10 : ℚ) ^ d.exponent ≤ d.toRat := by
      unfold Numeral.toRat
      nlinarith
    norm_num at hPow
    linarith
  have hNotTiny :
      ¬ (decimalPlaces d.significand : ℤ) + d.exponent < -46 := by
    intro hTiny
    have hPlaces : (d.significand : ℚ) <
        10 ^ decimalPlaces d.significand := by
      exact_mod_cast lt_pow_decimalPlaces d.significand
    have hValue : d.toRat <
        (10 : ℚ) ^
          ((decimalPlaces d.significand : ℤ) + d.exponent) := by
      rw [zpow_add₀ (by norm_num), zpow_natCast]
      unfold Numeral.toRat
      exact mul_lt_mul_of_pos_right hPlaces (by positivity)
    have hPow : (10 : ℚ) ^
        ((decimalPlaces d.significand : ℤ) + d.exponent) ≤
          10 ^ (-47 : ℤ) :=
      zpow_le_zpow_right₀ (by norm_num) (by omega)
    norm_num at hPow
    linarith
  have hRank := readsBack_iff.mp h
  unfold ofDecimal
  rw [if_neg hNonzero, if_neg hNotHuge, if_neg hNotTiny]
  simp only [ofUnits, hRank]
  exact dif_pos hLt

end Single

end ThreeAddress
