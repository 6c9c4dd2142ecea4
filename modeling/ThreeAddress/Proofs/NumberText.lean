import ThreeAddress.Proofs.Rounding
import ThreeAddress.Token.Lexer

/-
  This file describes the text of numbers: which parts it is
  made of, how they are cut off a text and read, and that the
  text of an integer or of a finite single-width number is
  read as that number.

  Key definitions include:
    * `IsDigits`
    * `Stops`
    * `Token.NumberParts.WellFormed`
    * `Token.NumberParts.numeral`

  Main statements:
    * `Decimal.int32?_ofInt`
    * `Token.scanNumber_of_wellFormed`
    * `Token.NumberParts.WellFormed.ofChars?_chars`
    * `Single.exists_parts`
    * `Single.ofChars?_chars`
-/

namespace ThreeAddress

------------------------------------------------------------
-- Runs of Digits
------------------------------------------------------------

/- The characters are one or more digits. -/
def IsDigits (ds : List Char) : Prop :=
  ds ≠ [] ∧ ∀ c ∈ ds, c.isDigit = true

/- The text does not start with a character of a class. -/
def Stops (class_ : Char → Bool) (cs : List Char) : Prop :=
  ∀ c ∈ cs.head?, class_ c = false

theorem IsDigits.append
    {ds es : List Char}
    (hd : IsDigits ds)
    (he : ∀ c ∈ es, c.isDigit = true) :
    IsDigits (ds ++ es) := by
  refine ⟨by simp [hd.1], ?_⟩
  intro c hc
  rcases List.mem_append.mp hc with hc | hc
  · exact hd.2 c hc
  · exact he c hc

namespace Decimal

theorem horner_eq_ofDigitChars
    (ds : List Char) :
    horner ds = Nat.ofDigitChars 10 ds 0 := by
  rw [horner, Nat.ofDigitChars_eq_foldl]
  rfl

/- The digits of a number denote it. -/
@[simp]
theorem horner_digits
    (n : Nat) :
    horner (digits n) = n := by
  rw [horner_eq_ofDigitChars, digits, Nat.ofDigitChars_ten_toDigits]

theorem isDigits_digits
    (n : Nat) :
    IsDigits (digits n) := by
  refine ⟨Nat.toDigits_ne_nil, ?_⟩
  intro c hc
  exact Nat.isDigit_of_mem_toDigits (by decide) (by decide) hc

/- Zeros behind a number multiply it by a power of ten. -/
theorem horner_append_zeros
    (ds : List Char)
    (k : Nat) :
    horner (ds ++ List.replicate k '0') = horner ds * 10 ^ k := by
  have hZeros : horner (List.replicate k '0') = 0 := by
    rw [horner_eq_ofDigitChars, Nat.ofDigitChars_replicate_zero]
    rfl
  rw [horner_append, hZeros, List.length_replicate]
  rfl

/- Zeros before a number do not count. -/
theorem horner_zeros_append
    (k : Nat)
    (ds : List Char) :
    horner (List.replicate k '0' ++ ds) = horner ds := by
  have hZeros : horner (List.replicate k '0') = 0 := by
    rw [horner_eq_ofDigitChars, Nat.ofDigitChars_replicate_zero]
    rfl
  rw [horner_append, hZeros, Nat.zero_mul, Nat.zero_add]

theorem natural?_of_isDigits
    {ds : List Char}
    (h : IsDigits ds) :
    natural? ds = some (horner ds) := by
  have hEmpty : ds.isEmpty = false := by
    rw [List.isEmpty_eq_false_iff]
    exact h.1
  have hAll : ds.all Char.isDigit = true := List.all_eq_true.mpr h.2
  simp [natural?, hEmpty, hAll, value_eq_horner]

/- A number is below ten to the count of its digits. -/
theorem lt_pow_length_digits
    (n : Nat) :
    n < 10 ^ (digits n).length := by
  have hLength : 0 < (digits n).length :=
    List.length_pos_iff.mpr (isDigits_digits n).1
  exact (Nat.length_toDigits_le_iff (by decide) hLength).mp
    (Nat.le_refl _)

/- A positive number has no digits to spare. -/
theorem pow_length_digits_le
    {n : Nat}
    (h : 0 < n) :
    10 ^ (digits n).length ≤ 10 * n := by
  have hLength : 0 < (digits n).length :=
    List.length_pos_iff.mpr (isDigits_digits n).1
  rcases Nat.exists_eq_succ_of_ne_zero (Nat.ne_of_gt hLength) with
    ⟨k, hk⟩
  rw [hk, Nat.pow_succ, Nat.mul_comm]
  apply Nat.mul_le_mul_left
  cases k with
  | zero => exact h
  | succ k =>
      by_contra hLt
      have hLe : (digits n).length ≤ k + 1 :=
        (Nat.length_toDigits_le_iff (by decide) (by omega)).mpr
          (by omega)
      omega

------------------------------------------------------------
-- Integers
------------------------------------------------------------

/- A digit is no sign. -/
theorem ne_sign_of_isDigit
    {c : Char}
    (h : c.isDigit = true) :
    c ≠ '-' ∧ c ≠ '+' := by
  constructor
  · intro hc
    subst hc
    exact absurd h (by decide)
  · intro hc
    subst hc
    exact absurd h (by decide)

theorem signed?_of_isDigits
    {ds : List Char}
    (h : IsDigits ds) :
    signed? ds = some (horner ds : Int) := by
  rw [signed?.eq_def]
  split
  · next cs =>
      exact absurd rfl (ne_sign_of_isDigit (h.2 '-' (by simp))).1
  · next cs =>
      exact absurd rfl (ne_sign_of_isDigit (h.2 '+' (by simp))).2
  · rw [natural?_of_isDigits h]
    rfl

/- The text of an integer is read as it. -/
theorem signed?_ofInt
    (n : Int) :
    signed? (ofInt n) = some n := by
  unfold ofInt
  split
  · next hNegative =>
      rw [signed?, natural?_of_isDigits (isDigits_digits _),
        horner_digits]
      show some (-(n.natAbs : Int)) = some n
      congr 1
      omega
  · next hNegative =>
      rw [signed?_of_isDigits (isDigits_digits _), horner_digits]
      congr 1
      omega

/- The text of a 32-bit integer is read as it. -/
theorem int32?_ofInt
    (n : Int32) :
    int32? (ofInt n.toInt) = some n := by
  have hLow := Int32.le_toInt n
  have hHigh := Int32.toInt_lt n
  have hNarrow : narrow32? n.toInt = some n := by
    unfold narrow32?
    rw [if_pos (by omega), Int32.ofInt_toInt]
  rw [int32?, signed?_ofInt]
  exact hNarrow

end Decimal

------------------------------------------------------------
-- Parts of Numbers
------------------------------------------------------------

/- A run of digits ends where the text behind it has none. -/
theorem takeWhile_of_stops
    {class_ : Char → Bool}
    {cs rest : List Char}
    (hAll : ∀ c ∈ cs, class_ c = true)
    (hStops : Stops class_ rest) :
    (cs ++ rest).takeWhile class_ = cs ∧
      (cs ++ rest).dropWhile class_ = rest := by
  have hRest : rest.takeWhile class_ = [] ∧
      rest.dropWhile class_ = rest := by
    cases rest with
    | nil => exact ⟨rfl, rfl⟩
    | cons c rest =>
        have hc : class_ c = false := hStops c rfl
        simp [hc]
  constructor
  · rw [List.takeWhile_append_of_pos hAll, hRest.1, List.append_nil]
  · rw [List.dropWhile_append_of_pos hAll, hRest.2]

theorem Stops.mono
    {p q : Char → Bool}
    {cs : List Char}
    (h : Stops q cs)
    (hImp : ∀ c, p c = true → q c = true) :
    Stops p cs := by
  intro c hc
  by_contra hTrue
  have hq := hImp c (by simpa using hTrue)
  rw [h c hc] at hq
  cases hq

namespace Token

/- A number does not run into a digit, a mark or a point. -/
theorem Stops.of_runsOn
    {cs : List Char}
    (h : Stops runsOn cs) :
    Stops Char.isDigit cs ∧
      cs.head? ≠ some '.' ∧
      cs.head? ≠ some 'e' ∧
      cs.head? ≠ some 'E' := by
  refine ⟨h.mono ?_, ?_, ?_, ?_⟩
  · intro c hc
    simp [runsOn, continuesWord, Char.isAlphanum, hc]
  · intro hHead
    exact absurd (h '.' hHead) (by decide)
  · intro hHead
    exact absurd (h 'e' hHead) (by decide)
  · intro hHead
    exact absurd (h 'E' hHead) (by decide)

/-
  The parts make up the text of a number: an optional minus
  sign, digits, an optional point with digits, and an
  optional exponent with an optional sign.
-/
structure NumberParts.WellFormed (p : NumberParts) : Prop where
  sign : p.sign = [] ∨ p.sign = ['-']
  whole : IsDigits p.whole
  fraction :
    p.fraction = [] ∨
      ∃ ds, IsDigits ds ∧ p.fraction = '.' :: ds
  exponent :
    p.exponent = [] ∨
      ∃ mark sign ds,
        (mark = 'e' ∨ mark = 'E') ∧
          (sign = [] ∨ sign = ['+'] ∨ sign = ['-']) ∧
          IsDigits ds ∧
          p.exponent = mark :: (sign ++ ds)
  runOn : p.runOn = []

theorem takeDigits_of_isDigits
    {ds rest : List Char}
    (hd : IsDigits ds)
    (hRest : Stops Char.isDigit rest) :
    takeDigits (ds ++ rest) = (ds, rest) := by
  rcases takeWhile_of_stops hd.2 hRest with ⟨hTake, hDrop⟩
  rw [takeDigits, hTake, hDrop]

theorem takeFraction_of_head
    {cs : List Char}
    (h : cs.head? ≠ some '.') :
    takeFraction cs = ([], cs) := by
  unfold takeFraction
  split
  · next tail => exact absurd rfl h
  · rfl

theorem takeFraction_of_isDigits
    {ds rest : List Char}
    (hd : IsDigits ds)
    (hRest : Stops Char.isDigit rest) :
    takeFraction ('.' :: ds ++ rest) = ('.' :: ds, rest) := by
  have hEmpty : ds.isEmpty = false := by
    rw [List.isEmpty_eq_false_iff]
    exact hd.1
  simp [takeFraction, takeDigits_of_isDigits hd hRest, hEmpty]

theorem takeExponent_of_head
    {cs : List Char}
    (he : cs.head? ≠ some 'e')
    (hE : cs.head? ≠ some 'E') :
    takeExponent cs = ([], cs) := by
  cases cs with
  | nil => rfl
  | cons c cs =>
      have hc : c ≠ 'e' := by
        intro hc
        exact he (congrArg some hc)
      have hC : c ≠ 'E' := by
        intro hc
        exact hE (congrArg some hc)
      simp [takeExponent, hc, hC]

/- A sign is taken off digits, if there is one. -/
theorem takeSign_of_isDigits
    {sign ds : List Char}
    (rest : List Char)
    (hSign : sign = [] ∨ sign = ['+'] ∨ sign = ['-'])
    (hd : IsDigits ds) :
    takeSign (sign ++ (ds ++ rest)) = (sign, ds ++ rest) := by
  rcases hSign with rfl | rfl | rfl
  · cases ds with
    | nil => exact absurd rfl hd.1
    | cons c ds =>
        have hc := Decimal.ne_sign_of_isDigit (hd.2 c (by simp))
        simp only [List.nil_append, List.cons_append]
        rw [takeSign.eq_def]
        split
        · next heq =>
            cases heq
            exact absurd rfl hc.2
        · next heq =>
            cases heq
            exact absurd rfl hc.1
        · rfl
  · rfl
  · rfl

theorem takeExponent_of_isDigits
    {mark : Char}
    {sign ds rest : List Char}
    (hMark : mark = 'e' ∨ mark = 'E')
    (hSign : sign = [] ∨ sign = ['+'] ∨ sign = ['-'])
    (hd : IsDigits ds)
    (hRest : Stops Char.isDigit rest) :
    takeExponent (mark :: (sign ++ ds) ++ rest) =
      (mark :: (sign ++ ds), rest) := by
  have hEmpty : ds.isEmpty = false := by
    rw [List.isEmpty_eq_false_iff]
    exact hd.1
  have hTest : (decide (mark = 'e') || decide (mark = 'E')) = true := by
    simpa using hMark
  simp only [List.cons_append, List.append_assoc, takeExponent]
  rw [if_pos hTest, takeSign_of_isDigits rest hSign hd,
    takeDigits_of_isDigits hd hRest]
  simp [hEmpty]

namespace NumberParts.WellFormed

variable {p : NumberParts}

/- An exponent, or what follows, starts with no digit or point. -/
theorem stops_exponent
    {rest : List Char}
    (h : p.WellFormed)
    (hRest : Stops runsOn rest) :
    Stops Char.isDigit (p.exponent ++ rest) ∧
      (p.exponent ++ rest).head? ≠ some '.' := by
  rcases h.exponent with hNone | ⟨mark, sign, ds, hMark, _, _, hSome⟩
  · rw [hNone, List.nil_append]
    have hStops := Stops.of_runsOn hRest
    exact ⟨hStops.1, hStops.2.1⟩
  · rw [hSome]
    rcases hMark with rfl | rfl
    · refine ⟨?_, by simp⟩
      intro c hc
      cases hc
      decide
    · refine ⟨?_, by simp⟩
      intro c hc
      cases hc
      decide

/- A fraction, or what follows, starts with no digit. -/
theorem stops_fraction
    {rest : List Char}
    (h : p.WellFormed)
    (hRest : Stops runsOn rest) :
    Stops Char.isDigit (p.fraction ++ (p.exponent ++ rest)) := by
  rcases h.fraction with hNone | ⟨ds, _, hSome⟩
  · rw [hNone, List.nil_append]
    exact (h.stops_exponent hRest).1
  · rw [hSome]
    intro c hc
    cases hc
    decide

theorem takeExponent_append
    {rest : List Char}
    (h : p.WellFormed)
    (hRest : Stops runsOn rest) :
    takeExponent (p.exponent ++ rest) = (p.exponent, rest) := by
  rcases Stops.of_runsOn hRest with ⟨hDigit, _, he, hE⟩
  rcases h.exponent with
    hNone | ⟨mark, sign, ds, hMark, hSign, hd, hSome⟩
  · rw [hNone, List.nil_append]
    exact takeExponent_of_head he hE
  · rw [hSome]
    exact takeExponent_of_isDigits hMark hSign hd hDigit

theorem takeFraction_append
    {rest : List Char}
    (h : p.WellFormed)
    (hRest : Stops runsOn rest) :
    takeFraction (p.fraction ++ (p.exponent ++ rest)) =
      (p.fraction, p.exponent ++ rest) := by
  rcases h.stops_exponent hRest with ⟨hDigit, hPoint⟩
  rcases h.fraction with hNone | ⟨ds, hd, hSome⟩
  · rw [hNone, List.nil_append]
    exact takeFraction_of_head hPoint
  · rw [hSome]
    exact takeFraction_of_isDigits hd hDigit

theorem takeMinus_append
    (h : p.WellFormed)
    (rest : List Char) :
    takeMinus (p.sign ++ (p.whole ++ rest)) =
      (p.sign, p.whole ++ rest) := by
  rcases h.sign with hSign | hSign
  · rw [hSign, List.nil_append]
    rcases h.whole with ⟨hNe, hAll⟩
    cases hWhole : p.whole with
    | nil => exact absurd hWhole hNe
    | cons c ds =>
        have hc := Decimal.ne_sign_of_isDigit
          (hAll c (by rw [hWhole]; simp))
        rw [takeMinus.eq_def]
        split
        · next heq =>
            cases heq
            exact absurd rfl hc.1
        · rfl
  · rw [hSign]
    rfl

end NumberParts.WellFormed

/-
  A number is cut off where the text behind it does not run
  on.
-/
theorem scanNumber_of_wellFormed
    {p : NumberParts}
    {rest : List Char}
    (h : p.WellFormed)
    (hRest : Stops runsOn rest) :
    scanNumber (p.chars ++ rest) = (p, rest) := by
  have hText : p.chars ++ rest =
      p.sign ++ (p.whole ++ (p.fraction ++ (p.exponent ++ rest))) := by
    simp [NumberParts.chars, h.runOn]
  have hNone : ∀ c ∈ ([] : List Char), runsOn c = true := by simp
  rcases takeWhile_of_stops hNone hRest with ⟨hTake, hDrop⟩
  rw [List.nil_append] at hTake hDrop
  rw [hText]
  simp only [scanNumber, h.takeMinus_append,
    takeDigits_of_isDigits h.whole (h.stops_fraction hRest),
    h.takeFraction_append hRest, h.takeExponent_append hRest,
    hTake, hDrop]
  rw [← h.runOn]

------------------------------------------------------------
-- Values of Numbers
------------------------------------------------------------

namespace NumberParts

/- The digits behind the point. -/
def places (p : NumberParts) : List Char :=
  p.fraction.tail

/- The number that the exponent stands for. -/
def scale (p : NumberParts) : Int :=
  match p.exponent with
  | [] => 0
  | _ :: cs => (Single.exponent? cs).getD 0

/- The decimal that the parts denote, the sign apart. -/
def numeral (p : NumberParts) : Numeral :=
  { significand := Decimal.horner (p.whole ++ p.places)
    exponent := p.scale - p.places.length }

/- An exponent of a sign and digits can be read. -/
theorem exists_exponent?
    {sign ds : List Char}
    (hSign : sign = [] ∨ sign = ['+'] ∨ sign = ['-'])
    (hd : IsDigits ds) :
    ∃ e, Single.exponent? (sign ++ ds) = some e := by
  have hEmpty : ds.isEmpty = false := by
    rw [List.isEmpty_eq_false_iff]
    exact hd.1
  have hAll : ds.all Char.isDigit = true :=
    List.all_eq_true.mpr hd.2
  have hDigits : Single.exponentDigits? ds =
      some (Single.exponentValue ds) := by
    simp [Single.exponentDigits?, hEmpty, hAll]
  rcases hSign with rfl | rfl | rfl
  · rw [List.nil_append, Single.exponent?.eq_def]
    split
    · exact absurd rfl
        (Decimal.ne_sign_of_isDigit (hd.2 '-' (by simp))).1
    · exact absurd rfl
        (Decimal.ne_sign_of_isDigit (hd.2 '+' (by simp))).2
    · rw [hDigits]
      exact ⟨Single.exponentValue ds, rfl⟩
  · rw [List.cons_append, Single.exponent?, List.nil_append, hDigits]
    exact ⟨Single.exponentValue ds, rfl⟩
  · rw [List.cons_append, Single.exponent?, List.nil_append, hDigits]
    exact ⟨-Single.exponentValue ds, rfl⟩

/- The parts behind the sign are read as their decimal. -/
theorem WellFormed.numeral?_eq
    {p : NumberParts}
    (h : p.WellFormed) :
    Single.numeral? (p.whole ++ (p.fraction ++ p.exponent)) =
      some p.numeral := by
  have hEnd : Stops runsOn [] := nofun
  have hStops := h.stops_fraction hEnd
  rw [List.append_nil] at hStops
  rcases takeWhile_of_stops h.whole.2 hStops with ⟨hTake, hDrop⟩
  have hExponent := (h.stops_exponent hEnd).1
  rw [List.append_nil] at hExponent
  have hWhole := h.whole.1
  unfold Single.numeral?
  simp only [List.span_eq_takeWhile_dropWhile, hTake, hDrop]
  rcases h.fraction with hNone | ⟨ds, hd, hSome⟩
  · rcases h.exponent with
      hNo | ⟨mark, sign, es, hMark, hSign, he, hYes⟩
    · simp [numeral, scale, places, hNone, hNo, hWhole,
        Decimal.value_eq_horner]
    · rcases exists_exponent? hSign he with ⟨e, hRead⟩
      rcases hMark with rfl | rfl
      · simp [numeral, scale, places, hNone, hYes, hWhole, hRead,
          Decimal.value_eq_horner]
      · simp [numeral, scale, places, hNone, hYes, hWhole, hRead,
          Decimal.value_eq_horner]
  · rcases takeWhile_of_stops hd.2 hExponent with ⟨hTake', hDrop'⟩
    rcases h.exponent with
      hNo | ⟨mark, sign, es, hMark, hSign, he, hYes⟩
    · rw [hNo, List.append_nil] at hTake' hDrop'
      simp [numeral, scale, places, hSome, hNo, hWhole, hTake',
        hDrop', Decimal.value_eq_horner]
    · rcases exists_exponent? hSign he with ⟨e, hRead⟩
      rw [hYes] at hTake' hDrop'
      rcases hMark with rfl | rfl
      · simp [numeral, scale, places, hSome, hYes, hWhole, hTake',
          hDrop', hRead, Decimal.value_eq_horner]
        ring
      · simp [numeral, scale, places, hSome, hYes, hWhole, hTake',
          hDrop', hRead, Decimal.value_eq_horner]
        ring

/- A digit has no other case. -/
theorem toLower_of_isDigit
    {c : Char}
    (h : c.isDigit = true) :
    c.toLower = c := by
  have hDigit : c.val ≤ 57 := by
    simp only [Char.isDigit, Bool.and_eq_true,
      decide_eq_true_eq] at h
    exact h.2
  unfold Char.toLower
  rw [dif_neg]
  intro hUpper
  have hLetter := hUpper.1
  simp only [ge_iff_le, UInt32.le_iff_toNat_le] at hLetter hDigit
  have hNine : (57 : UInt32).toNat = 57 := rfl
  have hA : 'A'.val.toNat = 65 := rfl
  omega

/- A text that starts with a digit is no name of a number. -/
theorem unsigned?_of_isDigit
    {c : Char}
    {cs : List Char}
    (negative : Bool)
    (h : c.isDigit = true) :
    Single.unsigned? negative (c :: cs) =
      (Single.numeral? (c :: cs)).map fun d =>
        Single.ofDecimal negative d.significand d.exponent := by
  have hLetter : ∀ (a : Char) (as : List Char), a.isDigit = false →
      String.ofList ((c :: cs).map Char.toLower) ≠
        String.ofList (a :: as) := by
    intro a as ha hName
    rw [String.ofList_inj, List.map_cons, toLower_of_isDigit h] at hName
    cases hName
    rw [h] at ha
    cases ha
  have hInf := hLetter 'i' ['n', 'f'] (by decide)
  have hInfinity :=
    hLetter 'i' ['n', 'f', 'i', 'n', 'i', 't', 'y'] (by decide)
  have hNan := hLetter 'n' ['a', 'n'] (by decide)
  unfold Single.unsigned?
  dsimp only
  rw [if_neg, if_neg hNan]
  intro hName
  rcases hName with hName | hName
  · exact hInf hName
  · exact hInfinity hName

/- The parts of a number are read as the number they denote. -/
theorem WellFormed.ofChars?_chars
    {p : NumberParts}
    (h : p.WellFormed) :
    Single.ofChars? p.chars =
      some (Single.ofDecimal (!p.sign.isEmpty)
        p.numeral.significand p.numeral.exponent) := by
  have hText : p.chars =
      p.sign ++ (p.whole ++ (p.fraction ++ p.exponent)) := by
    simp [chars, h.runOn]
  have hNumeral := h.numeral?_eq
  rcases h.whole with ⟨hNe, hAll⟩
  cases hWhole : p.whole with
  | nil => exact absurd hWhole hNe
  | cons c ds =>
      have hc : c.isDigit = true := hAll c (by rw [hWhole]; simp)
      have hSigns := Decimal.ne_sign_of_isDigit hc
      rw [hWhole] at hNumeral hText
      rw [List.cons_append] at hNumeral hText
      rw [hText]
      rcases h.sign with hSign | hSign
      · rw [hSign, List.nil_append, Single.ofChars?.eq_def]
        split
        · next heq =>
            cases heq
            exact absurd rfl hSigns.1
        · next heq =>
            cases heq
            exact absurd rfl hSigns.2
        · rw [unsigned?_of_isDigit _ hc, hNumeral]
          rfl
      · rw [hSign, List.cons_append, List.nil_append,
          Single.ofChars?, unsigned?_of_isDigit _ hc, hNumeral]
        rfl

end NumberParts

end Token

------------------------------------------------------------
-- Parts of Written Numbers
------------------------------------------------------------

namespace Single

/- Exponents below the bound are read in full. -/
theorem foldl_exponent
    (ds : List Char)
    (n : Nat)
    (h : n * Nat.pow 10 ds.length + Decimal.horner ds < exponentBound) :
    ds.foldl
        (fun n c =>
          if n < exponentBound then
            10 * n + Decimal.digitValue c
          else
            n)
        n =
      n * Nat.pow 10 ds.length + Decimal.horner ds := by
  induction ds generalizing n with
  | nil => simp [Decimal.horner]
  | cons c ds ih =>
      have hStep := Decimal.foldl_digits n (c :: ds)
      rw [List.foldl_cons, Decimal.foldl_digits] at hStep
      have hPos : 0 < Nat.pow 10 (c :: ds).length :=
        Nat.pow_pos (by decide)
      have hSmall : n < exponentBound := by
        have hLe := Nat.le_mul_of_pos_right n hPos
        omega
      rw [List.foldl_cons, if_pos hSmall, ih _ (by rw [hStep]; exact h),
        hStep]

theorem exponentDigits?_digits
    {n : Nat}
    (h : n < exponentBound) :
    exponentDigits? (Decimal.digits n) = some n := by
  have hd := Decimal.isDigits_digits n
  have hEmpty : (Decimal.digits n).isEmpty = false := by
    rw [List.isEmpty_eq_false_iff]
    exact hd.1
  have hAll : (Decimal.digits n).all Char.isDigit = true :=
    List.all_eq_true.mpr hd.2
  have hValue : exponentValue (Decimal.digits n) = n := by
    have hFold := foldl_exponent (Decimal.digits n) 0
    rw [Nat.zero_mul, Nat.zero_add, Decimal.horner_digits] at hFold
    exact hFold h
  simp [exponentDigits?, hEmpty, hAll, hValue]

/- The text of a small exponent is read as it. -/
theorem exponent?_ofInt
    {e : Int}
    (h : e.natAbs < exponentBound) :
    exponent? (Decimal.ofInt e) = some e := by
  have hDigits := exponentDigits?_digits h
  have hd := Decimal.isDigits_digits e.natAbs
  unfold Decimal.ofInt
  split
  · next hNegative =>
      rw [exponent?, hDigits]
      show some (-(e.natAbs : Int)) = some e
      congr 1
      omega
  · next hNegative =>
      rw [exponent?.eq_def]
      split
      · next heq =>
          exact absurd rfl
            (Decimal.ne_sign_of_isDigit
              (hd.2 '-' (by rw [heq]; simp))).1
      · next heq =>
          exact absurd rfl
            (Decimal.ne_sign_of_isDigit
              (hd.2 '+' (by rw [heq]; simp))).2
      · rw [hDigits]
        show some (e.natAbs : Int) = some e
        congr 1
        omega

/-
  The parts of a positive number that has been written: they
  have a fraction or an exponent, and a value.
-/
structure Writes
    (text : List Char)
    (value : ℚ)
    (p : Token.NumberParts) : Prop where
  wellFormed : p.WellFormed
  sign : p.sign = []
  isFloat : p.isFloat = true
  chars : p.chars = text
  value : p.numeral.toRat = value

/- A decimal whose digits are moved past the point. -/
theorem toRat_numeral
    {p : Token.NumberParts}
    (ds : List Char)
    (k : Nat)
    (hDigits : Decimal.horner (p.whole ++ p.places) =
      Decimal.horner ds * 10 ^ k) :
    p.numeral.toRat =
      Decimal.horner ds *
        (10 : ℚ) ^ (k + p.scale - p.places.length) := by
  have hPower : (10 : ℚ) ^ (k + p.scale - p.places.length) =
      10 ^ k * (10 : ℚ) ^ (p.scale - p.places.length) := by
    rw [add_sub_assoc, zpow_add₀ (by norm_num), zpow_natCast]
  simp only [Numeral.toRat, Token.NumberParts.numeral, hDigits,
    hPower]
  push_cast
  ring

/- Digits that are written with a point. -/
theorem exists_writes_placePoint
    {ds : List Char}
    (hd : IsDigits ds)
    (point : Int) :
    ∃ p,
      Writes (placePoint ds point)
        (Decimal.horner ds * (10 : ℚ) ^ (point - ds.length)) p := by
  unfold placePoint
  split
  · next hPoint =>
      -- Zeros stand between the point and the digits.
      have hPlaces : IsDigits
          (List.replicate (-point).toNat '0' ++ ds) := by
        refine ⟨by simp [hd.1], ?_⟩
        intro c hc
        rcases List.mem_append.mp hc with hc | hc
        · rw [List.eq_of_mem_replicate hc]
          decide
        · exact hd.2 c hc
      refine ⟨⟨[], ['0'],
        '.' :: (List.replicate (-point).toNat '0' ++ ds), [], []⟩, ?_⟩
      refine ⟨⟨.inl rfl, ⟨by simp, by simp⟩,
        .inr ⟨_, hPlaces, rfl⟩, .inl rfl, rfl⟩, rfl, rfl, ?_, ?_⟩
      · simp [Token.NumberParts.chars]
      · have hDigits := Decimal.horner_zeros_append
          ((-point).toNat + 1) ds
        rw [List.replicate_succ, List.cons_append] at hDigits
        rw [toRat_numeral ds 0]
        · simp only [Token.NumberParts.scale,
            Token.NumberParts.places, List.tail_cons,
            List.length_append, List.length_replicate]
          congr 2
          omega
        · simpa [Token.NumberParts.places] using hDigits
  · next hPoint =>
      dsimp only
      split
      · next hLength =>
          -- Zeros fill up the digits to the point.
          refine ⟨⟨[],
            ds ++ List.replicate (point.toNat - ds.length) '0',
            ['.', '0'], [], []⟩, ?_⟩
          refine ⟨⟨.inl rfl, hd.append ?_,
            .inr ⟨['0'], ⟨by simp, by simp⟩, rfl⟩, .inl rfl, rfl⟩,
            rfl, rfl, ?_, ?_⟩
          · intro c hc
            rw [List.eq_of_mem_replicate hc]
            decide
          · simp [Token.NumberParts.chars]
          · have hDigits := Decimal.horner_append_zeros ds
              (point.toNat - ds.length + 1)
            rw [toRat_numeral ds (point.toNat - ds.length + 1)]
            · simp only [Token.NumberParts.scale,
                Token.NumberParts.places, List.tail_cons,
                List.length_singleton]
              congr 2
              omega
            · rw [← hDigits, List.replicate_succ']
              simp [Token.NumberParts.places]
      · next hLength =>
          have hTake : IsDigits (ds.take point.toNat) := by
            refine ⟨?_, fun c hc => hd.2 c (List.mem_of_mem_take hc)⟩
            rw [ne_eq, List.take_eq_nil_iff]
            intro hEmpty
            rcases hEmpty with hZero | hNil
            · omega
            · exact hd.1 hNil
          have hDrop : IsDigits (ds.drop point.toNat) := by
            refine ⟨?_, fun c hc => hd.2 c (List.mem_of_mem_drop hc)⟩
            rw [ne_eq, List.drop_eq_nil_iff]
            omega
          refine ⟨⟨[], ds.take point.toNat,
            '.' :: ds.drop point.toNat, [], []⟩, ?_⟩
          refine ⟨⟨.inl rfl, hTake, .inr ⟨_, hDrop, rfl⟩, .inl rfl,
            rfl⟩, rfl, rfl, ?_, ?_⟩
          · simp [Token.NumberParts.chars]
          · rw [toRat_numeral ds 0]
            · simp only [Token.NumberParts.scale,
                Token.NumberParts.places, List.tail_cons,
                List.length_drop]
              congr 2
              omega
            · simp [Token.NumberParts.places]

/- Digits that are written with an exponent. -/
theorem exists_writes_placeExponent
    {ds : List Char}
    {e : Int}
    (hd : IsDigits ds)
    (he : e.natAbs < exponentBound) :
    ∃ p,
      Writes (placeExponent ds e)
        (Decimal.horner ds * (10 : ℚ) ^ (e + 1 - ds.length)) p := by
  have hExponent :
      ∃ mark sign es,
        (mark = 'e' ∨ mark = 'E') ∧
          (sign = [] ∨ sign = ['+'] ∨ sign = ['-']) ∧
          IsDigits es ∧
          'e' :: Decimal.ofInt e = mark :: (sign ++ es) := by
    unfold Decimal.ofInt
    have hAbs := Decimal.isDigits_digits e.natAbs
    split
    · exact ⟨'e', ['-'], _, .inl rfl, .inr (.inr rfl), hAbs, rfl⟩
    · exact ⟨'e', [], _, .inl rfl, .inl rfl, hAbs, rfl⟩
  have hScale : ∀ whole fraction,
      Token.NumberParts.scale
        ⟨[], whole, fraction, 'e' :: Decimal.ofInt e, []⟩ = e := by
    intro whole fraction
    simp [Token.NumberParts.scale, exponent?_ofInt he]
  cases ds with
  | nil => exact absurd rfl hd.1
  | cons c ds =>
      have hc : IsDigits [c] := ⟨by simp, by simpa using hd.2 c⟩
      cases ds with
      | nil =>
          refine ⟨⟨[], [c], [], 'e' :: Decimal.ofInt e, []⟩, ?_⟩
          refine ⟨⟨.inl rfl, hc, .inl rfl, .inr hExponent, rfl⟩,
            rfl, rfl, ?_, ?_⟩
          · simp [Token.NumberParts.chars, placeExponent]
          · rw [toRat_numeral [c] 0, hScale]
            · simp only [Token.NumberParts.places, List.tail_nil,
                List.length_nil, List.length_singleton]
              congr 2
              omega
            · simp [Token.NumberParts.places]
      | cons c' ds =>
          have hPlaces : IsDigits (c' :: ds) := by
            refine ⟨by simp, ?_⟩
            intro d hMem
            exact hd.2 d (List.mem_cons_of_mem c hMem)
          refine ⟨⟨[], [c], '.' :: c' :: ds,
            'e' :: Decimal.ofInt e, []⟩, ?_⟩
          refine ⟨⟨.inl rfl, hc, .inr ⟨_, hPlaces, rfl⟩,
            .inr hExponent, rfl⟩, rfl, rfl, ?_, ?_⟩
          · simp [Token.NumberParts.chars, placeExponent]
          · rw [toRat_numeral (c :: c' :: ds) 0, hScale]
            · simp only [Token.NumberParts.places, List.tail_cons,
                List.length_cons]
              congr 2
              omega
            · simp [Token.NumberParts.places]

------------------------------------------------------------
-- Written Numbers Are Read Back
------------------------------------------------------------

/- Zeros at the end of the digits are all that is left out. -/
theorem exists_zeros_of_significantDigits
    (d : Numeral) :
    ∃ k,
      Decimal.digits d.significand =
        significantDigits d ++ List.replicate k '0' := by
  have hZeros : ∀ cs : List Char,
      ∃ k, cs.takeWhile (· = '0') = List.replicate k '0' := by
    intro cs
    refine ⟨_, List.eq_replicate_of_mem ?_⟩
    intro c hc
    simpa using List.all_eq_true.mp List.all_takeWhile c hc
  rcases hZeros (Decimal.digits d.significand).reverse with ⟨k, hk⟩
  refine ⟨k, ?_⟩
  have hSplit : (Decimal.digits d.significand).reverse =
      List.replicate k '0' ++
        (Decimal.digits d.significand).reverse.dropWhile
          (· = '0') := by
    rw [← hk, List.takeWhile_append_dropWhile]
  have hReverse := congrArg List.reverse hSplit
  rw [List.reverse_reverse, List.reverse_append,
    List.reverse_replicate] at hReverse
  exact hReverse

/- The digits that are left denote the number without zeros. -/
theorem exists_significantDigits
    {d : Numeral}
    (hPos : 0 < d.significand) :
    IsDigits (significantDigits d) ∧
      (Decimal.horner (significantDigits d) : ℚ) *
          (10 : ℚ) ^
            ((Decimal.digits d.significand).length + d.exponent -
              (significantDigits d).length) =
        d.toRat := by
  rcases exists_zeros_of_significantDigits d with ⟨k, hSplit⟩
  have hValue : d.significand =
      Decimal.horner (significantDigits d) * 10 ^ k := by
    rw [← Decimal.horner_append_zeros, ← hSplit,
      Decimal.horner_digits]
  constructor
  · constructor
    · intro hNil
      rw [hNil] at hValue
      have hZero : Decimal.horner [] = 0 := rfl
      rw [hZero, Nat.zero_mul] at hValue
      omega
    · intro c hc
      apply (Decimal.isDigits_digits d.significand).2
      rw [hSplit]
      exact List.mem_append_left _ hc
  · have hExponent :
        ((Decimal.digits d.significand).length : Int) + d.exponent -
            (significantDigits d).length = k + d.exponent := by
      rw [hSplit]
      simp only [List.length_append, List.length_replicate]
      omega
    have hSignificand : (d.significand : ℚ) =
        Decimal.horner (significantDigits d) * 10 ^ k := by
      exact_mod_cast hValue
    rw [hExponent, zpow_add₀ (by norm_num), zpow_natCast,
      Numeral.toRat, hSignificand]
    ring

/- The first digit of a positive finite number is not far off. -/
theorem natAbs_point_lt
    {rank : Nat}
    {d : Numeral}
    (h : readsBack rank d = true)
    (hPos : 0 < rank)
    (hLt : rank < magnitudes) :
    (((Decimal.digits d.significand).length : Int) +
      d.exponent - 1).natAbs < exponentBound := by
  have hLow := one_le_of_readsBack h hPos
  have hHigh := toRat_lt_of_readsBack h hLt
  have hUnits : (unitsPerOne : ℚ) = 2 ^ 149 := by
    exact_mod_cast rfl
  rw [hUnits] at hLow
  have hScale : (0 : ℚ) < (10 : ℚ) ^ d.exponent := by positivity
  have hNonzero : 0 < d.significand := by
    rw [Nat.pos_iff_ne_zero]
    intro hZero
    simp only [Numeral.toRat, hZero] at hLow
    norm_num at hLow
  have hAbove : d.toRat <
      (10 : ℚ) ^
        ((Decimal.digits d.significand).length + d.exponent) := by
    have hDigits : (d.significand : ℚ) <
        10 ^ (Decimal.digits d.significand).length := by
      exact_mod_cast Decimal.lt_pow_length_digits d.significand
    rw [zpow_add₀ (by norm_num), zpow_natCast]
    exact mul_lt_mul_of_pos_right hDigits hScale
  have hBelow :
      (10 : ℚ) ^
          ((Decimal.digits d.significand).length + d.exponent) ≤
        10 * d.toRat := by
    have hDigits :
        (10 : ℚ) ^ (Decimal.digits d.significand).length ≤
          10 * d.significand := by
      exact_mod_cast Decimal.pow_length_digits_le hNonzero
    rw [zpow_add₀ (by norm_num), zpow_natCast, Numeral.toRat,
      ← mul_assoc]
    exact mul_le_mul_of_nonneg_right hDigits hScale.le
  have hUpper : (10 : ℚ) ^
      ((Decimal.digits d.significand).length + d.exponent) <
        10 ^ (40 : ℤ) := by
    norm_num
    linarith
  have hLower : (10 : ℚ) ^ (-46 : ℤ) <
      10 ^ ((Decimal.digits d.significand).length + d.exponent) := by
    norm_num
    linarith
  have hPoint := (zpow_lt_zpow_iff_right₀ (by norm_num)).mp hUpper
  have hPoint' := (zpow_lt_zpow_iff_right₀ (by norm_num)).mp hLower
  have hBound : exponentBound = 65536 := rfl
  omega

/- The text of a positive magnitude has the value of its decimal. -/
theorem exists_writes_magnitudeText
    {rank : Nat}
    (layout : Layout)
    (hPos : 0 < rank)
    (hLt : rank < magnitudes) :
    ∃ p,
      Writes (magnitudeText layout rank) (shortest rank).toRat p := by
  have h := readsBack_shortest rank
  have hNonzero : 0 < (shortest rank).significand := by
    rw [Nat.pos_iff_ne_zero]
    intro hZero
    have hLow := one_le_of_readsBack h hPos
    simp only [Numeral.toRat, hZero] at hLow
    norm_num at hLow
  have hBound := natAbs_point_lt h hPos hLt
  rcases exists_significantDigits hNonzero with ⟨hd, hValue⟩
  unfold magnitudeText
  dsimp only
  split
  · rcases exists_writes_placePoint hd
      ((Decimal.digits (shortest rank).significand).length +
        (shortest rank).exponent) with ⟨p, hp⟩
    rw [hValue] at hp
    exact ⟨p, hp⟩
  · rcases exists_writes_placeExponent hd hBound with ⟨p, hp⟩
    rw [sub_add_cancel, hValue] at hp
    exact ⟨p, hp⟩

/-
  The text of a finite number is that of well-formed parts,
  and they are read as the number.
-/
theorem exists_parts
    {x : Single}
    (h : x.isFinite = true) :
    ∃ p : Token.NumberParts,
      p.WellFormed ∧
        p.isFloat = true ∧
        p.chars = x.chars ∧
        ofChars? x.chars = some x := by
  cases x with
  | nan => cases h
  | infinite negative => cases h
  | finite negative rank =>
      rcases rank with ⟨rank, hLt⟩
      by_cases hZero : rank = 0
      · subst hZero
        refine ⟨⟨if negative then ['-'] else [], ['0'],
          ['.', '0'], [], []⟩, ?_, rfl, ?_, ?_⟩
        · refine ⟨?_, ⟨by simp, by simp⟩,
            .inr ⟨['0'], ⟨by simp, by simp⟩, rfl⟩, .inl rfl, rfl⟩
          cases negative
          · exact .inl rfl
          · exact .inr rfl
        · cases negative <;> rfl
        · cases negative <;> rfl
      · have hPos : 0 < rank := Nat.pos_of_ne_zero hZero
        rcases exists_writes_magnitudeText plain hPos hLt with
          ⟨p, hp⟩
        have hText : (Single.finite negative ⟨rank, hLt⟩).chars =
            (if negative then ['-'] else []) ++ p.chars := by
          simp [chars, hZero, hp.chars]
        have hWell := hp.wellFormed
        -- The sign goes before the parts of the magnitude.
        have hSigned : ∀ sign,
            sign = [] ∨ sign = ['-'] →
              ({ p with sign } : Token.NumberParts).WellFormed := by
          intro sign hSign
          exact ⟨hSign, hWell.whole, hWell.fraction, hWell.exponent,
            hWell.runOn⟩
        have hParts :
            ({ p with sign := if negative then ['-'] else [] } :
              Token.NumberParts).WellFormed := by
          apply hSigned
          cases negative
          · exact .inl rfl
          · exact .inr rfl
        have hChars :
            ({ p with sign := if negative then ['-'] else [] } :
              Token.NumberParts).chars =
              (Single.finite negative ⟨rank, hLt⟩).chars := by
          rw [hText]
          simp [Token.NumberParts.chars, hp.sign]
        refine ⟨_, hParts, hp.isFloat, hChars, ?_⟩
        rw [← hChars, hParts.ofChars?_chars]
        have hReads : readsBack rank p.numeral = true := by
          rw [readsBack_congr rank hp.value]
          exact readsBack_shortest rank
        have hSign :
            (!(if negative then ['-'] else [] : List Char).isEmpty) =
              negative := by
          cases negative <;> rfl
        have hNumber :=
          ofDecimal_of_readsBack negative hReads hPos hLt
        show some (ofDecimal (!_) p.numeral.significand
          p.numeral.exponent) = _
        rw [hSign, hNumber]

/- The text of a finite number is read as it. -/
theorem ofChars?_chars
    {x : Single}
    (h : x.isFinite = true) :
    ofChars? x.chars = some x := by
  rcases exists_parts h with ⟨p, _, _, _, hRead⟩
  exact hRead

end Single

end ThreeAddress
