import Mathlib.Data.List.TakeWhile
import ThreeAddress.Proofs.TokenText

/-
  This file shows which texts are cut as one number: the
  literals of a grammar that is stated without the scanner,
  as far as their values are in range. A text that starts
  with a digit and is no such literal is refused as a whole.

  Key definitions include:
    * `IntLiteral`, `FloatLiteral`
    * `Int32Literal`, `SingleLiteral`

  Main statements:
    * `Token.ofLine_eq_singleton_iff`
    * `Token.wellFormed_scanNumber`
    * `Token.scan_eq_number_iff`
    * `numbers_are_cut_by_literal_grammar`
-/

namespace ThreeAddress

------------------------------------------------------------
-- Literals
------------------------------------------------------------

/- Digits with an optional minus sign, and their integer. -/
inductive IntLiteral : List Char → Int → Prop
| plain
    {ds : List Char}
    (hDigits : IsDigits ds) :
    IntLiteral ds (Nat.ofDigitChars 10 ds 0)
| negative
    {ds : List Char}
    (hDigits : IsDigits ds) :
    IntLiteral ('-' :: ds) (-(Nat.ofDigitChars 10 ds 0 : Nat))

/- A point and digits. -/
def IsFraction (cs : List Char) : Prop :=
  ∃ ds, IsDigits ds ∧ cs = '.' :: ds

/- An exponent mark, an optional sign and digits. -/
def IsExponent (cs : List Char) : Prop :=
  ∃ mark sign ds,
    (mark = 'e' ∨ mark = 'E') ∧
      (sign = [] ∨ sign = ['+'] ∨ sign = ['-']) ∧
      IsDigits ds ∧
      cs = mark :: (sign ++ ds)

/-
  Digits with an optional minus sign before them, and with a
  fraction or an exponent or both behind them.
-/
inductive FloatLiteral : List Char → Prop
| intro
    {sign whole fraction exponent : List Char}
    (hSign : sign = [] ∨ sign = ['-'])
    (hWhole : IsDigits whole)
    (hFraction : fraction = [] ∨ IsFraction fraction)
    (hExponent : exponent = [] ∨ IsExponent exponent)
    (hEither : fraction ≠ [] ∨ exponent ≠ []) :
    FloatLiteral (sign ++ whole ++ fraction ++ exponent)

/- An integer literal whose integer fits into 32 bits. -/
def Int32Literal (cs : List Char) (v : Int) : Prop :=
  IntLiteral cs v ∧ -2147483648 ≤ v ∧ v ≤ 2147483647

/- A literal of a finite single-width number. -/
def SingleLiteral (cs : List Char) (x : Single) : Prop :=
  FloatLiteral cs ∧ Single.ofChars? cs = some x ∧ x.isFinite = true

namespace Token

------------------------------------------------------------
-- Texts of One Token
------------------------------------------------------------

/- No token that was found is lost. -/
theorem length_le_of_ofCharsFrom
    {found ts : List Token}
    {cs : List Char}
    (h : ofCharsFrom found cs = .ok ts) :
    found.length ≤ ts.length := by
  induction found, cs using ofCharsFrom.induct with
  | case1 found =>
      rw [ofCharsFrom] at h
      cases h
      rw [List.length_reverse]
  | case2 found c cs hBlank ih =>
      rw [ofCharsFrom_blank hBlank] at h
      exact ih h
  | case3 found c cs hBlank cause hScan =>
      rw [ofCharsFrom_of_refused (by simpa using hBlank) hScan] at h
      cases h
  | case4 found c cs hBlank t rest hScan _ ih =>
      rw [ofCharsFrom_scan (by simpa using hBlank) hScan] at h
      exact Nat.le_of_succ_le (ih h)

/- A text without blanks is one token if it is scanned whole. -/
theorem ofLine_eq_singleton_iff
    {cs : List Char}
    (hBlank : ∀ c ∈ cs, Text.isBlank c = false)
    (t : Token) :
    ofLine cs = .ok [t] ↔ scan cs = .ok (t, []) := by
  cases cs with
  | nil =>
      rw [ofLine, ofCharsFrom, scan]
      simp
  | cons c cs =>
      have hFirst := hBlank c List.mem_cons_self
      cases hScan : scan (c :: cs) with
      | error cause =>
          rw [ofLine, ofCharsFrom_of_refused hFirst hScan]
          simp
      | ok scanned =>
          rcases scanned with ⟨u, rest⟩
          rw [ofLine, ofCharsFrom_scan hFirst hScan]
          cases rest with
          | nil =>
              rw [ofCharsFrom]
              simp
          | cons d rest =>
              rcases exists_front_of_scan hScan with ⟨front, _, hFront⟩
              have hNext := hBlank d (by
                rw [← hFront]
                exact List.mem_append_right front List.mem_cons_self)
              -- A second token, or the refusal of one, is behind `u`.
              refine ⟨fun h => ?_, fun h => by cases h⟩
              cases hSecond : scan (d :: rest) with
              | error cause =>
                  rw [ofCharsFrom_of_refused hNext hSecond] at h
                  cases h
              | ok second =>
                  rw [ofCharsFrom_scan hNext hSecond] at h
                  have hLength := length_le_of_ofCharsFrom h
                  simp at hLength

------------------------------------------------------------
-- Parts That Are Cut
------------------------------------------------------------

theorem takeDigits_fst
    (cs : List Char) :
    (takeDigits cs).1 = [] ∨ IsDigits (takeDigits cs).1 := by
  by_cases hNone : (takeDigits cs).1 = []
  · exact .inl hNone
  · exact .inr ⟨hNone, List.all_eq_true.mp List.all_takeWhile⟩

theorem takeMinus_fst
    (cs : List Char) :
    (takeMinus cs).1 = [] ∨ (takeMinus cs).1 = ['-'] := by
  unfold takeMinus
  split
  · exact .inr rfl
  · exact .inl rfl

theorem takeSign_fst
    (cs : List Char) :
    (takeSign cs).1 = [] ∨
      (takeSign cs).1 = ['+'] ∨ (takeSign cs).1 = ['-'] := by
  unfold takeSign
  split
  · exact .inr (.inl rfl)
  · exact .inr (.inr rfl)
  · exact .inl rfl

theorem takeFraction_fst
    (cs : List Char) :
    (takeFraction cs).1 = [] ∨ IsFraction (takeFraction cs).1 := by
  unfold takeFraction
  split
  · next tail =>
      rcases takeDigits_fst tail with hNone | hDigits
      · simp [hNone]
      · simp only [List.isEmpty_eq_false_iff.mpr hDigits.1]
        exact .inr ⟨_, hDigits, rfl⟩
  · exact .inl rfl

theorem takeExponent_fst
    (cs : List Char) :
    (takeExponent cs).1 = [] ∨ IsExponent (takeExponent cs).1 := by
  cases cs with
  | nil => exact .inl rfl
  | cons mark cs =>
      rw [takeExponent]
      split
      · next hMark =>
          rcases takeDigits_fst (takeSign cs).2 with hNone | hDigits
          · simp [hNone]
          · simp only [List.isEmpty_eq_false_iff.mpr hDigits.1]
            exact .inr ⟨mark, _, _, by simpa using hMark,
              takeSign_fst cs, hDigits, rfl⟩
      · exact .inl rfl

/- There are digits where a number starts. -/
theorem isDigits_of_startsNumber
    {cs : List Char}
    (h : startsNumber cs = true) :
    IsDigits (takeDigits (takeMinus cs).2).1 := by
  apply (takeDigits_fst _).resolve_left
  cases cs with
  | nil => cases h
  | cons c cs =>
      simp only [startsNumber, Bool.or_eq_true, Bool.and_eq_true,
        decide_eq_true_eq] at h
      rcases h with hDigit | ⟨rfl, hDigit⟩
      · have hMinus : takeMinus (c :: cs) = ([], c :: cs) := by
          simp [takeMinus, (Decimal.ne_sign_of_isDigit hDigit).1]
        simp [hMinus, takeDigits, hDigit]
      · cases cs with
        | nil => cases hDigit
        | cons d cs =>
            have hDigit : d.isDigit = true := hDigit
            simp [takeMinus, takeDigits, hDigit]

/- The parts of a number are well formed unless it runs on. -/
theorem wellFormed_scanNumber
    {cs : List Char}
    (hStart : startsNumber cs = true)
    (hRun : (scanNumber cs).1.runOn = []) :
    (scanNumber cs).1.WellFormed :=
  { sign := takeMinus_fst cs
    whole := isDigits_of_startsNumber hStart
    fraction := takeFraction_fst _
    exponent := takeExponent_fst _
    runOn := hRun }

------------------------------------------------------------
-- Tokens of Numbers
------------------------------------------------------------

/- The token is a number. -/
def isNumber : Token → Bool
| .int _ => true
| .float _ => true
| _ => false

namespace NumberParts

variable {p : NumberParts}

theorem isNumber_of_token?
    {t : Token}
    (h : p.token? = some t) :
    t.isNumber = true := by
  rcases token?_eq_some_iff.mp h with
    ⟨_, ⟨_, n, _, rfl⟩ | ⟨_, x, _, _, rfl⟩⟩
  · rfl
  · rfl

theorem token?_eq_int_iff
    (hRun : p.runOn = [])
    (n : Int32) :
    p.token? = some (.int n) ↔
      p.isFloat = false ∧ Decimal.int32? p.chars = some n := by
  rw [token?_eq_some_iff]
  simp [hRun]

theorem token?_eq_float_iff
    (hRun : p.runOn = [])
    (x : Single) :
    p.token? = some (.float x) ↔
      p.isFloat = true ∧
        Single.ofChars? p.chars = some x ∧ x.isFinite = true := by
  rw [token?_eq_some_iff]
  constructor
  · rintro ⟨_, ⟨_, n, _, hInt⟩ | ⟨hFloat, y, hRead, hFinite, hSame⟩⟩
    · cases hInt
    · cases hSame
      exact ⟨hFloat, hRead, hFinite⟩
  · rintro ⟨hFloat, hRead, hFinite⟩
    exact ⟨hRun, .inr ⟨hFloat, x, hRead, hFinite, rfl⟩⟩

end NumberParts

/- What is scanned as a number is the number at the front. -/
theorem scanNumber_of_scan
    {cs rest : List Char}
    {t : Token}
    (hNumber : t.isNumber = true)
    (h : scan cs = .ok (t, rest)) :
    startsNumber cs = true ∧
      (scanNumber cs).1.token? = some t ∧
      (scanNumber cs).2 = rest := by
  cases scanned_of_scan h with
  | mark hMark =>
      have hClosed := isOpen_of_ofMark? hMark
      cases t with
      | int | float => cases hClosed
      | _ => cases hNumber
  | directive | word => cases hNumber
  | number hStart hToken => exact ⟨hStart, hToken, rfl⟩

/- A text is scanned as a number just when it is made of its parts. -/
theorem scan_eq_number_iff
    {t : Token}
    (hNumber : t.isNumber = true)
    (cs : List Char) :
    scan cs = .ok (t, []) ↔
      ∃ p : NumberParts,
        p.WellFormed ∧ p.chars = cs ∧ p.token? = some t := by
  constructor
  · intro h
    rcases scanNumber_of_scan hNumber h with ⟨hStart, hToken, hRest⟩
    have hWell := wellFormed_scanNumber hStart
      (NumberParts.token?_eq_some_iff.mp hToken).1
    have hChars := scanNumber_append cs
    rw [hRest, List.append_nil] at hChars
    exact ⟨_, hWell, hChars, hToken⟩
  · rintro ⟨p, hWell, rfl, hToken⟩
    have hEnd : Stops runsOn [] := by simp [Stops]
    have hScan := scan_number hWell hToken hEnd
    rwa [List.append_nil] at hScan

end Token

------------------------------------------------------------
-- Literals and Parts
------------------------------------------------------------

namespace Decimal

/- The integers of 32 bits are those in range. -/
theorem narrow32?_eq_some_iff
    (v : Int)
    (n : Int32) :
    narrow32? v = some n ↔
      n.toInt = v ∧ -2147483648 ≤ v ∧ v ≤ 2147483647 := by
  unfold narrow32?
  constructor
  · intro h
    split at h
    · next hRange =>
        cases h
        exact ⟨Int32.toInt_ofInt_of_le (by omega) (by omega), hRange⟩
    · cases h
  · rintro ⟨rfl, hRange⟩
    rw [if_pos hRange, Int32.ofInt_toInt]

end Decimal

/- The number of the digits is the one that is read. -/
theorem IntLiteral.signed?_eq
    {cs : List Char}
    {v : Int}
    (h : IntLiteral cs v) :
    Decimal.signed? cs = some v := by
  cases h with
  | plain hDigits =>
      rw [Decimal.signed?_of_isDigits hDigits,
        Decimal.horner_eq_ofDigitChars]
  | negative hDigits =>
      rw [Decimal.signed?, Decimal.natural?_of_isDigits hDigits,
        Decimal.horner_eq_ofDigitChars]
      rfl

/- An integer literal is a number without fraction and exponent. -/
theorem intLiteral_iff
    (cs : List Char)
    (v : Int) :
    IntLiteral cs v ↔
      Decimal.signed? cs = some v ∧
        ∃ p : Token.NumberParts,
          p.WellFormed ∧ p.chars = cs ∧ p.isFloat = false := by
  constructor
  · intro h
    refine ⟨h.signed?_eq, ?_⟩
    cases h with
    | plain hDigits =>
        exact ⟨⟨[], cs, [], [], []⟩,
          ⟨.inl rfl, hDigits, .inl rfl, .inl rfl, rfl⟩,
          by simp [Token.NumberParts.chars], rfl⟩
    | @negative ds hDigits =>
        exact ⟨⟨['-'], ds, [], [], []⟩,
          ⟨.inr rfl, hDigits, .inl rfl, .inl rfl, rfl⟩,
          by simp [Token.NumberParts.chars], rfl⟩
  · rintro ⟨hSigned, p, hWell, rfl, hFloat⟩
    simp only [Token.NumberParts.isFloat, Bool.not_eq_false',
      Bool.and_eq_true, List.isEmpty_iff] at hFloat
    have hChars : p.chars = p.sign ++ p.whole := by
      simp [Token.NumberParts.chars, hFloat.1, hFloat.2, hWell.runOn]
    have hLiteral : ∃ w, IntLiteral p.chars w := by
      rcases hWell.sign with hSign | hSign
      · rw [hChars, hSign]
        exact ⟨_, .plain hWell.whole⟩
      · rw [hChars, hSign]
        exact ⟨_, .negative hWell.whole⟩
    rcases hLiteral with ⟨w, hw⟩
    have hSame := hw.signed?_eq
    rw [hSigned] at hSame
    cases hSame
    exact hw

/- A float literal is a number with a fraction or an exponent. -/
theorem floatLiteral_iff
    (cs : List Char) :
    FloatLiteral cs ↔
      ∃ p : Token.NumberParts,
        p.WellFormed ∧ p.chars = cs ∧ p.isFloat = true := by
  constructor
  · rintro @⟨sign, whole, fraction, exponent, hSign, hWhole,
      hFraction, hExponent, hEither⟩
    refine ⟨⟨sign, whole, fraction, exponent, []⟩,
      ⟨hSign, hWhole, hFraction, hExponent, rfl⟩, ?_, ?_⟩
    · exact List.append_nil _
    · simpa [Token.NumberParts.isFloat, imp_iff_not_or] using hEither
  · rintro ⟨p, hWell, rfl, hFloat⟩
    rw [Token.NumberParts.chars, hWell.runOn, List.append_nil]
    refine .intro hWell.sign hWell.whole hWell.fraction
      hWell.exponent ?_
    simpa [Token.NumberParts.isFloat, imp_iff_not_or] using hFloat

namespace Token

variable {cs : List Char}

/- An integer is cut from its literals. -/
theorem scan_eq_int_iff
    (v : Int) :
    (∃ n : Int32, n.toInt = v ∧ scan cs = .ok (.int n, [])) ↔
      Int32Literal cs v := by
  constructor
  · rintro ⟨n, rfl, h⟩
    rcases (scan_eq_number_iff rfl cs).mp h with
      ⟨p, hWell, rfl, hToken⟩
    rcases (NumberParts.token?_eq_int_iff hWell.runOn n).mp hToken with
      ⟨hFloat, hRead⟩
    rcases Option.bind_eq_some_iff.mp hRead with ⟨v, hSigned, hNarrow⟩
    rcases (Decimal.narrow32?_eq_some_iff v n).mp hNarrow with
      ⟨rfl, hRange⟩
    exact ⟨(intLiteral_iff _ _).mpr ⟨hSigned, p, hWell, rfl, hFloat⟩,
      hRange⟩
  · rintro ⟨hLiteral, hRange⟩
    rcases (intLiteral_iff cs v).mp hLiteral with
      ⟨hSigned, p, hWell, rfl, hFloat⟩
    have hValue : (Int32.ofInt v).toInt = v :=
      Int32.toInt_ofInt_of_le (by omega) (by omega)
    have hNarrow := (Decimal.narrow32?_eq_some_iff v _).mpr
      ⟨hValue, hRange⟩
    refine ⟨Int32.ofInt v, hValue,
      (scan_eq_number_iff rfl _).mpr ⟨p, hWell, rfl, ?_⟩⟩
    exact (NumberParts.token?_eq_int_iff hWell.runOn _).mpr
      ⟨hFloat, Option.bind_eq_some_iff.mpr ⟨v, hSigned, hNarrow⟩⟩

/- A single-width number is cut from its literals. -/
theorem scan_eq_float_iff
    (x : Single) :
    scan cs = .ok (.float x, []) ↔ SingleLiteral cs x := by
  rw [scan_eq_number_iff rfl, SingleLiteral, floatLiteral_iff]
  constructor
  · rintro ⟨p, hWell, rfl, hToken⟩
    rcases (NumberParts.token?_eq_float_iff hWell.runOn x).mp hToken with
      ⟨hFloat, hRead⟩
    exact ⟨⟨p, hWell, rfl, hFloat⟩, hRead⟩
  · rintro ⟨⟨p, hWell, rfl, hFloat⟩, hRead⟩
    exact ⟨p, hWell, rfl,
      (NumberParts.token?_eq_float_iff hWell.runOn x).mpr
        ⟨hFloat, hRead⟩⟩

/- A text of characters that run on is taken by the number whole. -/
theorem scanNumber_of_runsOn
    (h : ∀ c ∈ cs, runsOn c = true) :
    (scanNumber cs).2 = [] := by
  have hWhole : (takeDigits (takeMinus cs).2).2 <:+ cs :=
    List.IsSuffix.trans ⟨_, takeDigits_append _⟩
      ⟨_, takeMinus_append cs⟩
  have hExponent : (takeExponent (takeFraction
      (takeDigits (takeMinus cs).2).2).2).2 <:+ cs :=
    (List.IsSuffix.trans ⟨_, takeExponent_append _⟩
      ⟨_, takeFraction_append _⟩).trans hWhole
  refine List.dropWhile_eq_nil_iff.mpr ?_
  intro c hc
  exact h c (hExponent.subset hc)

end Token

------------------------------------------------------------
-- Main Statement
------------------------------------------------------------

/-
  A text without blanks is one integer token just when it is
  an integer literal in range, and one floating-point token
  just when it is a float literal of a finite number, which is
  the number of the token. A text of letters, digits,
  underscores and points that starts with a digit and is
  neither is refused, and the refusal shows the whole text.
-/
theorem numbers_are_cut_by_literal_grammar
    {cs : List Char}
    (hBlank : ∀ c ∈ cs, Text.isBlank c = false) :
    (∀ v : Int,
      (∃ n : Int32, n.toInt = v ∧ Token.ofLine cs = .ok [.int n]) ↔
        Int32Literal cs v) ∧
      (∀ x : Single,
        Token.ofLine cs = .ok [.float x] ↔ SingleLiteral cs x) ∧
      (cs.head?.any Char.isDigit = true →
        (∀ c ∈ cs, c.isAlphanum = true ∨ c = '_' ∨ c = '.') →
        (∀ v, ¬ Int32Literal cs v) →
        (∀ x, ¬ SingleLiteral cs x) →
          Token.ofLine cs =
            .error (.invalidNumber (String.ofList cs))) := by
  refine ⟨?_, ?_, ?_⟩
  · intro v
    simp only [Token.ofLine_eq_singleton_iff hBlank]
    exact Token.scan_eq_int_iff v
  · intro x
    rw [Token.ofLine_eq_singleton_iff hBlank]
    exact Token.scan_eq_float_iff x
  · intro hDigit hClass hInt hFloat
    cases cs with
    | nil => cases hDigit
    | cons c cs =>
        have hStart : Token.startsNumber (c :: cs) = true := by
          have hc : c.isDigit = true := hDigit
          simp [Token.startsNumber, hc]
        have hRest : (Token.scanNumber (c :: cs)).2 = [] := by
          apply Token.scanNumber_of_runsOn
          intro d hd
          simpa [Token.runsOn, Token.continuesWord, or_assoc] using
            hClass d hd
        have hChars := Token.scanNumber_append (c :: cs)
        rw [hRest, List.append_nil] at hChars
        cases hToken : (Token.scanNumber (c :: cs)).1.token? with
        | none =>
            have hScan := Token.scan_of_token?_eq_none hStart hToken
            rw [hChars] at hScan
            exact Token.ofCharsFrom_of_refused
              (hBlank c List.mem_cons_self) hScan []
        | some t =>
            have hScan := Token.scan_of_token? hStart hToken
            rw [hRest] at hScan
            have hNumber := Token.NumberParts.isNumber_of_token? hToken
            cases t with
            | int n =>
                exact absurd ((Token.scan_eq_int_iff _).mp
                  ⟨n, rfl, hScan⟩) (hInt _)
            | float x =>
                exact absurd ((Token.scan_eq_float_iff x).mp hScan)
                  (hFloat x)
            | _ => cases hNumber

/-
  The least integer is a literal, a quarter may be written
  with an exponent, and ten to the 39 is past the numbers of
  single width, so that its literal is refused.
-/
theorem literals_at_the_limits :
    Token.ofLine "-2147483648".toList = .ok [.int Int32.minValue] ∧
      Token.ofLine "2.5E-1".toList =
        .ok [.float (.finite false ⟨1048576000, by decide⟩)] ∧
      Token.ofLine "1e39".toList = .error (.invalidNumber "1e39") := by
  have hBlank : ∀ s ∈ ["-2147483648", "2.5E-1", "1e39"],
      ∀ c ∈ s.toList, Text.isBlank c = false := by
    simp [Text.isBlank, Text.blankRanges]
  refine ⟨?_, ?_, ?_⟩
  · have hLiteral : Int32Literal "-2147483648".toList (-2147483648) := by
      refine ⟨?_, by decide, by decide⟩
      exact @IntLiteral.negative "2147483648".toList
        ⟨by simp, by simp⟩
    rcases ((numbers_are_cut_by_literal_grammar (hBlank _ (by simp))).1 _).mpr
      hLiteral with ⟨n, hValue, hLine⟩
    rw [show n = Int32.minValue from Int32.toInt_inj.mp hValue] at hLine
    exact hLine
  · have hLiteral : FloatLiteral "2.5E-1".toList :=
      @FloatLiteral.intro [] ['2'] ['.', '5'] ['E', '-', '1'] (.inl rfl)
        ⟨by simp, by simp⟩
        (.inr ⟨['5'], ⟨by simp, by simp⟩, rfl⟩)
        (.inr ⟨'E', ['-'], ['1'], .inr rfl, .inr (.inr rfl),
          ⟨by simp, by simp⟩, rfl⟩)
        (.inl (by decide))
    exact ((numbers_are_cut_by_literal_grammar (hBlank _ (by simp))).2.1 _).mpr
      ⟨hLiteral, by decide +kernel, rfl⟩
  · have hRead : Single.ofChars? "1e39".toList =
        some (.infinite false) := by
      decide +kernel
    apply (numbers_are_cut_by_literal_grammar (hBlank _ (by simp))).2.2
    · decide
    · simp
    · intro v hInt
      have hSigned := hInt.1.signed?_eq
      rw [show Decimal.signed? "1e39".toList = none by decide] at hSigned
      cases hSigned
    · rintro x ⟨_, hSame, hFinite⟩
      rw [hRead] at hSame
      cases hSame
      cases hFinite

end ThreeAddress
