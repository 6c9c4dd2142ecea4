import ThreeAddress.Proofs.NumberText

/-
  This file shows that the text of tokens is read back as the
  tokens, as long as no word or number is directly followed
  by another one, and that only tokens that can be written in
  this way are ever read.

  Key definitions include:
    * `Token.isWord`
    * `Token.WellFormed`
    * `Token.Spelling`

  Main statements:
    * `Token.scan_of_token?`
    * `Token.scan_text`
    * `Token.NumberParts.token?_eq_some_iff`
    * `Token.wellFormed_of_ofLine`
    * `Token.Spelling.ofLine_eq_ok`
-/

namespace ThreeAddress

namespace Token

------------------------------------------------------------
-- Words
------------------------------------------------------------

/- The characters may follow the first one of a word. -/
def isWordTail : List Char → Bool
| [] => true
| c :: cs =>
    (continuesWord c || (c = '-' && cs.head?.any Char.isAlpha)) &&
      isWordTail cs

/- The characters are a word. -/
def isWord : List Char → Bool
| [] => false
| c :: cs => startsWord c && isWordTail cs

/- A character that sticks to a word or a number before it. -/
def sticks (c : Char) : Bool :=
  runsOn c || c = '-'

/- A letter may stand inside a word. -/
theorem continuesWord_of_isAlpha
    {c : Char}
    (h : c.isAlpha = true) :
    continuesWord c = true := by
  simp [continuesWord, Char.isAlphanum, h]

theorem takeTail_of_stops
    {cs : List Char}
    (h : Stops sticks cs) :
    takeTail cs = ([], cs) := by
  cases cs with
  | nil => rfl
  | cons c cs =>
      have hc : sticks c = false := h c rfl
      simp only [sticks, runsOn, Bool.or_eq_false_iff,
        decide_eq_false_iff_not] at hc
      simp [takeTail, hc.1.1, hc.2]

/- A word is cut off where nothing sticks to it. -/
theorem takeTail_of_isWordTail
    {cs rest : List Char}
    (h : isWordTail cs = true)
    (hRest : Stops sticks rest) :
    takeTail (cs ++ rest) = (cs, rest) := by
  induction cs with
  | nil => exact takeTail_of_stops hRest
  | cons c cs ih =>
      rw [isWordTail, Bool.and_eq_true] at h
      have hTest :
          (continuesWord c ||
            (c = '-' && (cs ++ rest).head?.any Char.isAlpha)) =
              true := by
        cases cs with
        | nil =>
            have hHead := h.1
            simp only [List.head?_nil, Option.any_none,
              Bool.and_false, Bool.or_false] at hHead
            simp [hHead]
        | cons d cs => exact h.1
      rw [List.cons_append, takeTail, if_pos hTest, ih h.2]

theorem takeWord_of_isWord
    {cs rest : List Char}
    (h : isWord cs = true)
    (hRest : Stops sticks rest) :
    takeWord (cs ++ rest) = (cs, rest) := by
  cases cs with
  | nil => cases h
  | cons c cs =>
      rw [isWord, Bool.and_eq_true] at h
      rw [List.cons_append, takeWord, if_pos h.1,
        takeTail_of_isWordTail h.2 hRest]

/- A letter is taken as part of a word. -/
theorem head?_takeTail
    {cs : List Char}
    (h : cs.head?.any Char.isAlpha = true) :
    (takeTail cs).1.head?.any Char.isAlpha = true := by
  cases cs with
  | nil => cases h
  | cons c cs =>
      have hc : c.isAlpha = true := h
      simp [takeTail, continuesWord_of_isAlpha hc, hc]

/- What is taken as part of a word may be part of one. -/
theorem isWordTail_takeTail
    (cs : List Char) :
    isWordTail (takeTail cs).1 = true := by
  induction cs with
  | nil => rfl
  | cons c cs ih =>
      rw [takeTail]
      split
      · next hTest =>
          rw [isWordTail, Bool.and_eq_true]
          refine ⟨?_, ih⟩
          simp only [Bool.or_eq_true, Bool.and_eq_true] at hTest ⊢
          rcases hTest with hWord | ⟨hHyphen, hLetter⟩
          · exact .inl hWord
          · exact .inr ⟨hHyphen, head?_takeTail hLetter⟩
      · rfl

/- What is taken as a word is one. -/
theorem isWord_takeWord
    {cs : List Char}
    (h : (takeWord cs).1.isEmpty = false) :
    isWord (takeWord cs).1 = true := by
  cases cs with
  | nil => cases h
  | cons c cs =>
      rw [takeWord] at h ⊢
      split
      · next hStart =>
          rw [isWord, Bool.and_eq_true]
          exact ⟨hStart, isWordTail_takeTail cs⟩
      · next hStart =>
          rw [if_neg hStart] at h
          cases h

------------------------------------------------------------
-- Characters of Tokens
------------------------------------------------------------

/- The character is printed as a mark of its own. -/
def isVisible (c : Char) : Bool :=
  33 ≤ c.toNat && c.toNat ≤ 126

theorem isBlank_of_isVisible
    {c : Char}
    (h : isVisible c = true) :
    Text.isBlank c = false := by
  simp only [isVisible, Bool.and_eq_true, decide_eq_true_eq] at h
  simp only [Text.isBlank, Text.blankRanges, List.any_cons,
    List.any_nil, Bool.or_false, Bool.or_eq_false_iff,
    Bool.and_eq_false_iff, decide_eq_false_iff_not]
  omega

theorem ne_newline_of_isVisible
    {c : Char}
    (h : isVisible c = true) :
    c ≠ '\n' := by
  intro hc
  subst hc
  exact absurd h (by decide)

theorem isVisible_of_continuesWord
    {c : Char}
    (h : continuesWord c = true) :
    isVisible c = true := by
  rw [continuesWord, Bool.or_eq_true, decide_eq_true_eq] at h
  rcases h with hLetter | hUnderscore
  · have hRanges :
        ((decide (65 ≤ c.val ∧ c.val ≤ 90) ||
            decide (97 ≤ c.val) && decide (c.val ≤ 122)) ||
          decide (48 ≤ c.val) && decide (c.val ≤ 57)) = true :=
      hLetter
    simp only [Bool.or_eq_true, Bool.and_eq_true,
      decide_eq_true_eq, UInt32.le_iff_toNat_le] at hRanges
    change ((65 ≤ c.toNat ∧ c.toNat ≤ 90) ∨
      (97 ≤ c.toNat ∧ c.toNat ≤ 122)) ∨
      (48 ≤ c.toNat ∧ c.toNat ≤ 57) at hRanges
    simp only [isVisible, Bool.and_eq_true, decide_eq_true_eq]
    omega
  · subst hUnderscore
    decide

theorem isVisible_of_isDigit
    {c : Char}
    (h : c.isDigit = true) :
    isVisible c = true := by
  apply isVisible_of_continuesWord
  simp [continuesWord, Char.isAlphanum, h]

theorem isVisible_of_isWordTail
    {cs : List Char}
    (h : isWordTail cs = true) :
    ∀ c ∈ cs, isVisible c = true := by
  induction cs with
  | nil => simp
  | cons c cs ih =>
      simp only [isWordTail, Bool.and_eq_true, Bool.or_eq_true,
        decide_eq_true_eq] at h
      rw [List.forall_mem_cons]
      refine ⟨?_, ih h.2⟩
      rcases h.1 with hWord | hHyphen
      · exact isVisible_of_continuesWord hWord
      · rw [hHyphen.1]
        decide

theorem continuesWord_of_startsWord
    {c : Char}
    (h : startsWord c = true) :
    continuesWord c = true := by
  rw [startsWord, Bool.or_eq_true, decide_eq_true_eq] at h
  rcases h with hLetter | hUnderscore
  · exact continuesWord_of_isAlpha hLetter
  · subst hUnderscore
    decide

theorem isVisible_of_isWord
    {cs : List Char}
    (h : isWord cs = true) :
    ∀ c ∈ cs, isVisible c = true := by
  cases cs with
  | nil => cases h
  | cons c cs =>
      rw [isWord, Bool.and_eq_true] at h
      rw [List.forall_mem_cons]
      exact ⟨isVisible_of_continuesWord
        (continuesWord_of_startsWord h.1),
        isVisible_of_isWordTail h.2⟩

theorem NumberParts.WellFormed.isVisible
    {p : NumberParts}
    (h : p.WellFormed) :
    ∀ c ∈ p.chars, Token.isVisible c = true := by
  have hDigits : ∀ ds, IsDigits ds →
      ∀ c ∈ ds, Token.isVisible c = true := by
    intro ds hd c hc
    exact isVisible_of_isDigit (hd.2 c hc)
  intro c hc
  simp only [NumberParts.chars, h.runOn, List.append_nil,
    List.mem_append] at hc
  rcases hc with ((hc | hc) | hc) | hc
  · rcases h.sign with hSign | hSign
    · rw [hSign] at hc
      cases hc
    · rw [hSign, List.mem_singleton] at hc
      subst hc
      decide
  · exact hDigits _ h.whole c hc
  · rcases h.fraction with hNone | ⟨ds, hd, hSome⟩
    · rw [hNone] at hc
      cases hc
    · rw [hSome, List.mem_cons] at hc
      rcases hc with rfl | hc
      · decide
      · exact hDigits ds hd c hc
  · rcases h.exponent with
      hNone | ⟨mark, sign, ds, hMark, hSign, hd, hSome⟩
    · rw [hNone] at hc
      cases hc
    · rw [hSome, List.mem_cons, List.mem_append] at hc
      rcases hc with rfl | hc | hc
      · rcases hMark with rfl | rfl
        · decide
        · decide
      · rcases hSign with rfl | rfl | rfl
        · cases hc
        · rw [List.mem_singleton] at hc
          subst hc
          decide
        · rw [List.mem_singleton] at hc
          subst hc
          decide
      · exact hDigits ds hd c hc

------------------------------------------------------------
-- Text of One Token
------------------------------------------------------------

/- The token can be written and read. -/
def WellFormed : Token → Prop
| .ident name => isWord name.toList = true
| .directive name => isWord name.toList = true
| .float x => x.isFinite = true
| _ => True

/- The token is a word or a number, so that others stick to it. -/
def isOpen : Token → Bool
| .ident _ => true
| .directive _ => true
| .int _ => true
| .float _ => true
| _ => false

/- The text of an integer is that of parts that are read as it. -/
theorem exists_parts_int
    (n : Int32) :
    ∃ p : NumberParts,
      p.WellFormed ∧
        p.chars = (Token.int n).text.toList ∧
        p.token? = some (.int n) := by
  have hText : (Token.int n).text.toList =
      Decimal.ofInt n.toInt := String.toList_ofList
  have hRead : (Decimal.int32? (Decimal.ofInt n.toInt)).map
      Token.int = some (.int n) := by
    rw [Decimal.int32?_ofInt, Option.map_some]
  have hd := Decimal.isDigits_digits n.toInt.natAbs
  by_cases hNegative : n.toInt < 0
  · have hChars : Decimal.ofInt n.toInt =
        '-' :: Decimal.digits n.toInt.natAbs := if_pos hNegative
    refine ⟨⟨['-'], Decimal.digits n.toInt.natAbs, [], [], []⟩,
      ⟨.inr rfl, hd, .inl rfl, .inl rfl, rfl⟩, ?_, ?_⟩
    · rw [hText, hChars]
      simp [NumberParts.chars]
    · rw [hChars] at hRead
      simpa [NumberParts.token?, NumberParts.isFloat,
        NumberParts.chars] using hRead
  · have hChars : Decimal.ofInt n.toInt =
        Decimal.digits n.toInt.natAbs := if_neg hNegative
    refine ⟨⟨[], Decimal.digits n.toInt.natAbs, [], [], []⟩,
      ⟨.inl rfl, hd, .inl rfl, .inl rfl, rfl⟩, ?_, ?_⟩
    · rw [hText, hChars]
      simp [NumberParts.chars]
    · rw [hChars] at hRead
      simpa [NumberParts.token?, NumberParts.isFloat,
        NumberParts.chars] using hRead

/- The text of a finite number is that of parts read as it. -/
theorem exists_parts_float
    {x : Single}
    (h : x.isFinite = true) :
    ∃ p : NumberParts,
      p.WellFormed ∧
        p.chars = (Token.float x).text.toList ∧
        p.token? = some (.float x) := by
  rcases Single.exists_parts h with
    ⟨p, hWell, hFloat, hChars, hRead⟩
  refine ⟨p, hWell, ?_, ?_⟩
  · rw [hChars]
    exact String.toList_ofList.symm
  · simp [NumberParts.token?, hWell.runOn, hFloat, hChars, hRead, h]

/- Every character of a token is visible. -/
theorem WellFormed.isVisible
    {t : Token}
    (h : t.WellFormed) :
    ∀ c ∈ t.text.toList, Token.isVisible c = true := by
  cases t with
  | ident name => exact isVisible_of_isWord h
  | directive name =>
      have hText : (Token.directive name).text.toList =
          '#' :: name.toList := by
        simp [text]
      rw [hText, List.forall_mem_cons]
      exact ⟨by decide, isVisible_of_isWord h⟩
  | int n =>
      rcases exists_parts_int n with ⟨p, hWell, hChars, _⟩
      rw [← hChars]
      exact hWell.isVisible
  | float x =>
      rcases exists_parts_float h with ⟨p, hWell, hChars, _⟩
      rw [← hChars]
      exact hWell.isVisible
  | comma | colon | lparen | rparen | lbracket | rbracket =>
      simp [text, Token.isVisible]

------------------------------------------------------------
-- Reading One Token
------------------------------------------------------------

/- A character of a class that holds no mark is no mark. -/
theorem ofMark?_eq_none
    {class_ : Char → Bool}
    {c : Char}
    (h : class_ c = true)
    (hMarks : [',', ':', '(', ')', '[', ']'].any class_ = false) :
    ofMark? c = none := by
  rw [List.any_eq_false] at hMarks
  unfold ofMark?
  split
  all_goals first
    | rfl
    | exact absurd h (hMarks _ (by simp))

/- A word starts with no mark. -/
theorem ofMark?_of_startsWord
    {c : Char}
    (h : startsWord c = true) :
    ofMark? c = none ∧ c ≠ '#' := by
  refine ⟨ofMark?_eq_none h (by decide), ?_⟩
  intro hc
  subst hc
  exact absurd h (by decide)

/- A digit starts no word. -/
theorem startsWord_of_isDigit
    {c : Char}
    (h : c.isDigit = true) :
    startsWord c = false := by
  rw [Char.isDigit_iff_toNat] at h
  by_contra hStart
  have hWord : startsWord c = true := by simpa using hStart
  rw [startsWord, Bool.or_eq_true, decide_eq_true_eq] at hWord
  rcases hWord with hLetter | hUnderscore
  · have hRanges :
        (decide (65 ≤ c.val ∧ c.val ≤ 90) ||
          decide (97 ≤ c.val) && decide (c.val ≤ 122)) = true :=
      hLetter
    simp only [Bool.or_eq_true, Bool.and_eq_true,
      decide_eq_true_eq, UInt32.le_iff_toNat_le] at hRanges
    change (65 ≤ c.toNat ∧ c.toNat ≤ 90) ∨
      (97 ≤ c.toNat ∧ c.toNat ≤ 122) at hRanges
    change 48 ≤ c.toNat ∧ c.toNat ≤ 57 at h
    omega
  · subst hUnderscore
    exact absurd h (by decide)

/- A number starts with no mark and no word. -/
theorem ofMark?_of_startsNumber
    {c : Char}
    {cs : List Char}
    (h : startsNumber (c :: cs) = true) :
    ofMark? c = none ∧ c ≠ '#' ∧ startsWord c = false := by
  have hFirst : c.isDigit = true ∨ c = '-' := by
    simp only [startsNumber, Bool.or_eq_true, Bool.and_eq_true,
      decide_eq_true_eq] at h
    rcases h with hDigit | hMinus
    · exact .inl hDigit
    · exact .inr hMinus.1
  rcases hFirst with hDigit | hMinus
  · refine ⟨ofMark?_eq_none hDigit (by decide), ?_,
      startsWord_of_isDigit hDigit⟩
    intro hc
    subst hc
    exact absurd hDigit (by decide)
  · subst hMinus
    exact ⟨rfl, by decide, by decide⟩

section Scan

variable {cs : List Char} (h : startsNumber cs = true)

include h

/- A number is scanned by its parts. -/
theorem scan_of_token?
    {t : Token}
    (hToken : (scanNumber cs).1.token? = some t) :
    scan cs = .ok (t, (scanNumber cs).2) := by
  cases cs with
  | nil => cases h
  | cons c cs =>
      rcases ofMark?_of_startsNumber h with ⟨hMark, hHash, hWord⟩
      simp only [scan, hMark, hHash, hWord, h, hToken, if_true,
        if_false, Bool.false_eq_true]

/- A number without a token is refused with all of its text. -/
theorem scan_of_token?_eq_none
    (hToken : (scanNumber cs).1.token? = none) :
    scan cs =
      .error (.invalidNumber (String.ofList (scanNumber cs).1.chars)) := by
  cases cs with
  | nil => cases h
  | cons c cs =>
      rcases ofMark?_of_startsNumber h with ⟨hMark, hHash, hWord⟩
      simp only [scan, hMark, hHash, hWord, h, hToken, if_true,
        if_false, Bool.false_eq_true]

end Scan

/- Well-formed parts are read as their token. -/
theorem scan_number
    {p : NumberParts}
    {rest : List Char}
    {t : Token}
    (h : p.WellFormed)
    (hToken : p.token? = some t)
    (hRest : Stops runsOn rest) :
    scan (p.chars ++ rest) = .ok (t, rest) := by
  have hScan := scanNumber_of_wellFormed h hRest
  have hStart : startsNumber (p.chars ++ rest) = true := by
    rcases h.whole with ⟨hNe, hAll⟩
    cases hWhole : p.whole with
    | nil => exact absurd hWhole hNe
    | cons d ds =>
        have hd : d.isDigit = true := hAll d (by rw [hWhole]; simp)
        rcases h.sign with hSign | hSign
        · simp [NumberParts.chars, hSign, hWhole, startsNumber, hd]
        · simp [NumberParts.chars, hSign, hWhole, startsNumber, hd]
  have hCut := scan_of_token? hStart (t := t) (by rw [hScan]; exact hToken)
  rwa [hScan] at hCut

theorem Stops.runsOn_of_sticks
    {cs : List Char}
    (h : Stops sticks cs) :
    Stops runsOn cs := by
  apply h.mono
  intro c hc
  simp [sticks, hc]

/- A token's text is read as the token, unless more sticks to it. -/
theorem scan_text
    {t : Token}
    {rest : List Char}
    (h : t.WellFormed)
    (hRest : t.isOpen = true → Stops sticks rest) :
    scan (t.text.toList ++ rest) = .ok (t, rest) := by
  cases t with
  | ident name =>
      have hWord : isWord name.toList = true := h
      have hText : (Token.ident name).text.toList = name.toList := rfl
      rw [hText]
      cases hName : name.toList with
      | nil =>
          rw [hName] at hWord
          cases hWord
      | cons c cs =>
          rw [hName, isWord, Bool.and_eq_true] at hWord
          rcases ofMark?_of_startsWord hWord.1 with ⟨hMark, hHash⟩
          have hString : String.ofList (c :: cs) = name := by
            rw [← hName, String.ofList_toList]
          simp only [List.cons_append, scan, hMark, hHash, hWord.1,
            takeTail_of_isWordTail hWord.2 (hRest rfl), hString,
            if_true, if_false]
  | directive name =>
      have hWord : isWord name.toList = true := h
      have hText : (Token.directive name).text.toList =
          '#' :: name.toList := by
        simp [text]
      have hMark : ofMark? '#' = none := rfl
      have hEmpty : name.toList.isEmpty = false := by
        cases hName : name.toList with
        | nil =>
            rw [hName] at hWord
            cases hWord
        | cons c cs => rfl
      simp only [hText, List.cons_append, scan, hMark,
        takeWord_of_isWord hWord (hRest rfl), hEmpty,
        String.ofList_toList, if_true, if_false,
        Bool.false_eq_true]
  | int n =>
      rcases exists_parts_int n with ⟨p, hWell, hChars, hToken⟩
      rw [← hChars]
      exact scan_number hWell hToken
        (Stops.runsOn_of_sticks (hRest rfl))
  | float x =>
      rcases exists_parts_float h with ⟨p, hWell, hChars, hToken⟩
      rw [← hChars]
      exact scan_number hWell hToken
        (Stops.runsOn_of_sticks (hRest rfl))
  | comma | colon | lparen | rparen | lbracket | rbracket => rfl

/- A mark is no word and no number. -/
theorem isOpen_of_ofMark?
    {c : Char}
    {t : Token}
    (h : ofMark? c = some t) :
    t.isOpen = false := by
  unfold ofMark? at h
  split at h
  all_goals first
    | cases h; rfl
    | cases h

/-
  A number that does not run on is read as an integer, or as
  a finite number if it has a fraction or an exponent.
-/
theorem NumberParts.token?_eq_some_iff
    {p : NumberParts}
    {t : Token} :
    p.token? = some t ↔
      p.runOn = [] ∧
        ((p.isFloat = false ∧
            ∃ n, Decimal.int32? p.chars = some n ∧ t = .int n) ∨
          (p.isFloat = true ∧
            ∃ x, Single.ofChars? p.chars = some x ∧
              x.isFinite = true ∧ t = .float x)) := by
  constructor
  · intro h
    unfold token? at h
    split at h
    · cases h
    · next hRun =>
        refine ⟨by simpa using hRun, ?_⟩
        split at h
        · next hFloat =>
            rcases Option.bind_eq_some_iff.mp h with ⟨x, hRead, hToken⟩
            split at hToken
            · next hFinite =>
                cases hToken
                exact .inr ⟨hFloat, x, hRead, hFinite, rfl⟩
            · cases hToken
        · next hFloat =>
            rcases Option.map_eq_some_iff.mp h with ⟨n, hRead, rfl⟩
            exact .inl ⟨by simpa using hFloat, n, hRead, rfl⟩
  · rintro ⟨hRun, ⟨hFloat, n, hRead, rfl⟩ |
      ⟨hFloat, x, hRead, hFinite, rfl⟩⟩
    · simp [token?, hRun, hFloat, hRead]
    · simp [token?, hRun, hFloat, hRead, hFinite]

/- Only tokens that can be written are read. -/
theorem wellFormed_of_scan
    {cs rest : List Char}
    {t : Token}
    (h : scan cs = .ok (t, rest)) :
    t.WellFormed := by
  cases scanned_of_scan h with
  | mark hMark =>
      have hClosed := isOpen_of_ofMark? hMark
      cases t with
      | ident | directive | int | float => cases hClosed
      | comma | colon | lparen | rparen | lbracket | rbracket => trivial
  | directive hWord =>
      show isWord (String.ofList _).toList = true
      rw [String.toList_ofList]
      exact isWord_takeWord hWord
  | @word c cs hStart =>
      show isWord (String.ofList _).toList = true
      rw [String.toList_ofList, isWord, Bool.and_eq_true]
      exact ⟨hStart, isWordTail_takeTail cs⟩
  | number _ hToken =>
      rcases NumberParts.token?_eq_some_iff.mp hToken with
        ⟨_, ⟨_, n, _, rfl⟩ | ⟨_, x, _, hFinite, rfl⟩⟩
      · trivial
      · exact hFinite

------------------------------------------------------------
-- Reading a Line
------------------------------------------------------------

theorem ofCharsFrom_blank
    {c : Char}
    (h : Text.isBlank c = true)
    (found : List Token)
    (cs : List Char) :
    ofCharsFrom found (c :: cs) = ofCharsFrom found cs := by
  rw [ofCharsFrom, if_pos h]

theorem ofCharsFrom_scan
    {c : Char}
    {cs rest : List Char}
    {t : Token}
    (hBlank : Text.isBlank c = false)
    (h : scan (c :: cs) = .ok (t, rest))
    (found : List Token) :
    ofCharsFrom found (c :: cs) = ofCharsFrom (t :: found) rest := by
  rw [ofCharsFrom, if_neg (by simp [hBlank])]
  split
  · next cause hError =>
      rw [h] at hError
      cases hError
  · next token tail hOk =>
      rw [h] at hOk
      cases hOk
      rfl

/- A text is refused where the token at its front is. -/
theorem ofCharsFrom_of_refused
    {c : Char}
    {cs : List Char}
    {cause : SyntaxCause}
    (hBlank : Text.isBlank c = false)
    (h : scan (c :: cs) = .error cause)
    (found : List Token) :
    ofCharsFrom found (c :: cs) = .error cause := by
  rw [ofCharsFrom, if_neg (by simp [hBlank])]
  split
  · next other hError =>
      rw [h] at hError
      cases hError
      rfl
  · next hOk =>
      rw [h] at hOk
      cases hOk

/- Every token of a line can be written. -/
theorem wellFormed_of_ofCharsFrom
    {found ts : List Token}
    {cs : List Char}
    (hFound : ∀ t ∈ found, t.WellFormed)
    (h : ofCharsFrom found cs = .ok ts) :
    ∀ t ∈ ts, t.WellFormed := by
  induction found, cs using ofCharsFrom.induct with
  | case1 found =>
      rw [ofCharsFrom] at h
      cases h
      simpa using hFound
  | case2 found c cs hBlank ih =>
      rw [ofCharsFrom_blank hBlank] at h
      exact ih hFound h
  | case3 found c cs hBlank cause hScan =>
      rw [ofCharsFrom_of_refused (by simpa using hBlank) hScan] at h
      cases h
  | case4 found c cs hBlank t rest hScan _ ih =>
      rw [ofCharsFrom_scan (by simpa using hBlank) hScan] at h
      apply ih _ h
      intro u hu
      rcases List.mem_cons.mp hu with hHead | hTail
      · subst hHead
        exact wellFormed_of_scan hScan
      · exact hFound u hTail

theorem wellFormed_of_ofLine
    {cs : List Char}
    {ts : List Token}
    (h : ofLine cs = .ok ts) :
    ∀ t ∈ ts, t.WellFormed :=
  wellFormed_of_ofCharsFrom (fun t ht => by cases ht) h

/-
  The characters are the texts of the tokens with characters
  of `gap` between them, and nothing sticks to a word or a
  number.
-/
inductive Spelling
    (gap : Char → Prop) : List Char → List Token → Prop
| nil : Spelling gap [] []
| gap
    {c : Char}
    {cs : List Char}
    {ts : List Token}
    (hGap : gap c)
    (hRest : Spelling gap cs ts) :
    Spelling gap (c :: cs) ts
| token
    {t : Token}
    {cs : List Char}
    {ts : List Token}
    (hToken : t.WellFormed)
    (hApart : t.isOpen = true → Stops sticks cs)
    (hRest : Spelling gap cs ts) :
    Spelling gap (t.text.toList ++ cs) (t :: ts)

namespace Spelling

theorem isVisible_or_gap
    {gap : Char → Prop}
    {cs : List Char}
    {ts : List Token}
    (h : Spelling gap cs ts) :
    ∀ c ∈ cs, Token.isVisible c = true ∨ gap c := by
  induction h with
  | nil =>
      intro c hc
      cases hc
  | gap hGap _ ih =>
      intro c hc
      rcases List.mem_cons.mp hc with hHead | hTail
      · subst hHead
        exact .inr hGap
      · exact ih c hTail
  | token hToken _ _ ih =>
      intro c hc
      rcases List.mem_append.mp hc with hText | hTail
      · exact .inl (hToken.isVisible c hText)
      · exact ih c hTail

/- A token has some text. -/
theorem exists_text_cons
    {t : Token}
    (h : t.WellFormed)
    (rest : List Char) :
    ∃ c cs, t.text.toList ++ rest = c :: cs ∧
      Text.isBlank c = false := by
  cases hText : t.text.toList with
  | nil =>
      have hScan : scan (t.text.toList ++ []) = .ok (t, []) :=
        scan_text h (by simp [Stops])
      rw [hText] at hScan
      cases hScan
  | cons c cs =>
      refine ⟨c, cs ++ rest, rfl, ?_⟩
      apply isBlank_of_isVisible
      apply h.isVisible
      rw [hText]
      exact List.mem_cons_self

theorem ofCharsFrom_eq_ok
    {gap : Char → Prop}
    {cs : List Char}
    {ts : List Token}
    (hGap : ∀ c, gap c → Text.isBlank c = true)
    (h : Spelling gap cs ts)
    (found : List Token) :
    ofCharsFrom found cs = .ok (found.reverse ++ ts) := by
  induction h generalizing found with
  | nil =>
      rw [ofCharsFrom, List.append_nil]
  | gap hBlank _ ih =>
      rw [ofCharsFrom_blank (hGap _ hBlank), ih]
  | @token t cs ts hToken hApart _ ih =>
      have hScan := scan_text hToken hApart
      rcases exists_text_cons hToken cs with ⟨c, tail, hText, hBlank⟩
      rw [hText] at hScan ⊢
      rw [ofCharsFrom_scan hBlank hScan, ih]
      simp

/- Spelled tokens are read, whatever blanks stand between them. -/
theorem ofLine_eq_ok
    {gap : Char → Prop}
    {cs : List Char}
    {ts : List Token}
    (hGap : ∀ c, gap c → Text.isBlank c = true)
    (h : Spelling gap cs ts) :
    ofLine cs = .ok ts :=
  h.ofCharsFrom_eq_ok hGap []

end Spelling

end Token

end ThreeAddress
