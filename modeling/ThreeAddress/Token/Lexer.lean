import ThreeAddress.Text.Blank
import ThreeAddress.Token.Basic
import ThreeAddress.SyntaxError

/-
  This file cuts a line of program text into tokens.

  A word starts with a letter or an underscore and goes on
  with letters, digits and underscores, and with a hyphen
  that a letter follows. A number is a run of digits with an
  optional minus sign before it and an optional fraction and
  exponent behind it, and must not run into a word.

  Each part is cut off the front of the text as a pair of
  what was taken and what is left, and the rest behind a
  token is shorter than the text before it.

  Key definitions include:
    * `Token.takeWord`
    * `Token.NumberParts`
    * `Token.scanNumber`
    * `Token.scan`, `Token.Scanned`
    * `Token.ofLine`

  Main statements:
    * `Token.scanned_of_scan`
    * `Token.length_scan_lt`
-/

namespace ThreeAddress.Token

------------------------------------------------------------
-- Words
------------------------------------------------------------

/- A character that may start a word. -/
def startsWord (c : Char) : Bool :=
  c.isAlpha || c = '_'

/- A character that may stand inside a word. -/
def continuesWord (c : Char) : Bool :=
  c.isAlphanum || c = '_'

/- The longest continuation of a word, and what is left. -/
def takeTail : List Char → List Char × List Char
| [] => ([], [])
| c :: cs =>
    if continuesWord c || (c = '-' && (cs.head?.any Char.isAlpha)) then
      let tail := takeTail cs
      (c :: tail.1, tail.2)
    else
      ([], c :: cs)

/- The longest word at the front, and what is left. -/
def takeWord : List Char → List Char × List Char
| [] => ([], [])
| c :: cs =>
    if startsWord c then
      let tail := takeTail cs
      (c :: tail.1, tail.2)
    else
      ([], c :: cs)

------------------------------------------------------------
-- Numbers
------------------------------------------------------------

/- The longest run of digits, and what is left. -/
def takeDigits (cs : List Char) : List Char × List Char :=
  (cs.takeWhile Char.isDigit, cs.dropWhile Char.isDigit)

/- An optional minus sign, and what is left. -/
def takeMinus : List Char → List Char × List Char
| '-' :: cs => (['-'], cs)
| cs => ([], cs)

/- An optional sign, and what is left. -/
def takeSign : List Char → List Char × List Char
| '+' :: cs => (['+'], cs)
| '-' :: cs => (['-'], cs)
| cs => ([], cs)

/- A point with digits behind it, and what is left. -/
def takeFraction : List Char → List Char × List Char
| '.' :: cs =>
    let ds := takeDigits cs
    if ds.1.isEmpty then ([], '.' :: cs) else ('.' :: ds.1, ds.2)
| cs => ([], cs)

/- An exponent mark, a sign and digits, and what is left. -/
def takeExponent : List Char → List Char × List Char
| [] => ([], [])
| mark :: cs =>
    if mark = 'e' || mark = 'E' then
      let sign := takeSign cs
      let ds := takeDigits sign.2
      if ds.1.isEmpty then
        ([], mark :: cs)
      else
        (mark :: (sign.1 ++ ds.1), ds.2)
    else
      ([], mark :: cs)

/-
  The parts of a number at the front of a text. What runs on
  behind the last part makes the number malformed.
-/
structure NumberParts where
  sign : List Char
  whole : List Char
  fraction : List Char
  exponent : List Char
  runOn : List Char

namespace NumberParts

/- The text of the parts. -/
def chars (p : NumberParts) : List Char :=
  p.sign ++ p.whole ++ p.fraction ++ p.exponent ++ p.runOn

/- The number has a fraction or an exponent. -/
def isFloat (p : NumberParts) : Bool :=
  !(p.fraction.isEmpty && p.exponent.isEmpty)

/- The token of a number, if it is well formed and in range. -/
def token? (p : NumberParts) : Option Token :=
  if !p.runOn.isEmpty then
    none
  else if p.isFloat then
    (Single.ofChars? p.chars).bind fun x =>
      if x.isFinite then some (.float x) else none
  else
    (Decimal.int32? p.chars).map .int

end NumberParts

/- A character that a number must not run into. -/
def runsOn (c : Char) : Bool :=
  continuesWord c || c = '.'

/- The parts of the number at the front, and what is left. -/
def scanNumber (cs : List Char) : NumberParts × List Char :=
  let sign := takeMinus cs
  let whole := takeDigits sign.2
  let fraction := takeFraction whole.2
  let exponent := takeExponent fraction.2
  let runOn := exponent.2.takeWhile runsOn
  ( ⟨sign.1, whole.1, fraction.1, exponent.1, runOn⟩
  , exponent.2.dropWhile runsOn )

/- A number starts here. -/
def startsNumber : List Char → Bool
| [] => false
| c :: cs => c.isDigit || (c = '-' && cs.head?.any Char.isDigit)

------------------------------------------------------------
-- One Token
------------------------------------------------------------

/- The token at the front of a text, and what is left. -/
def scan : List Char → Except SyntaxCause (Token × List Char)
| [] => .error (.unexpectedEnd "token")
| c :: cs =>
    match ofMark? c with
    | some mark => .ok (mark, cs)
    | none =>
        if c = '#' then
          let word := takeWord cs
          if word.1.isEmpty then
            .error (.unexpectedCharacter c)
          else
            .ok (.directive (String.ofList word.1), word.2)
        else if startsWord c then
          let tail := takeTail cs
          .ok (.ident (String.ofList (c :: tail.1)), tail.2)
        else if startsNumber (c :: cs) then
          let number := scanNumber (c :: cs)
          match number.1.token? with
          | some token => .ok (token, number.2)
          | none =>
              .error
                (.invalidNumber (String.ofList number.1.chars))
        else
          .error (.unexpectedCharacter c)

/- The continuation of a word is cut off the front. -/
theorem takeTail_append
    (cs : List Char) :
    (takeTail cs).1 ++ (takeTail cs).2 = cs := by
  induction cs with
  | nil => rfl
  | cons c cs ih =>
      rw [takeTail]
      split
      · simpa using ih
      · rfl

/- A word is cut off the front. -/
theorem takeWord_append
    (cs : List Char) :
    (takeWord cs).1 ++ (takeWord cs).2 = cs := by
  cases cs with
  | nil => rfl
  | cons c cs =>
      rw [takeWord]
      split
      · simpa using takeTail_append cs
      · rfl

/- Digits are cut off the front. -/
theorem takeDigits_append
    (cs : List Char) :
    (takeDigits cs).1 ++ (takeDigits cs).2 = cs :=
  List.takeWhile_append_dropWhile

/- A minus sign is cut off the front. -/
theorem takeMinus_append
    (cs : List Char) :
    (takeMinus cs).1 ++ (takeMinus cs).2 = cs := by
  unfold takeMinus
  split <;> rfl

/- A sign is cut off the front. -/
theorem takeSign_append
    (cs : List Char) :
    (takeSign cs).1 ++ (takeSign cs).2 = cs := by
  unfold takeSign
  split <;> rfl

/- A fraction is cut off the front. -/
theorem takeFraction_append
    (cs : List Char) :
    (takeFraction cs).1 ++ (takeFraction cs).2 = cs := by
  unfold takeFraction
  split
  · next tail =>
      dsimp only
      split
      · rfl
      · simpa using takeDigits_append tail
  · rfl

/- An exponent is cut off the front. -/
theorem takeExponent_append
    (cs : List Char) :
    (takeExponent cs).1 ++ (takeExponent cs).2 = cs := by
  cases cs with
  | nil => rfl
  | cons mark tail =>
      rw [takeExponent]
      have hSign := takeSign_append tail
      have hDigits := takeDigits_append (takeSign tail).2
      split
      · dsimp only
        split
        · rfl
        · simp only [List.cons_append, List.append_assoc,
            hDigits, hSign]
      · rfl

/- A number's parts are cut off the front. -/
theorem scanNumber_append
    (cs : List Char) :
    (scanNumber cs).1.chars ++ (scanNumber cs).2 = cs := by
  unfold scanNumber NumberParts.chars
  simp only [List.append_assoc, List.takeWhile_append_dropWhile,
    takeExponent_append, takeFraction_append,
    takeDigits_append, takeMinus_append]

/- The text of a number that starts here is not empty. -/
theorem chars_scanNumber_ne_nil
    {cs : List Char}
    (h : startsNumber cs = true) :
    (scanNumber cs).1.chars ≠ [] := by
  cases cs with
  | nil => simp [startsNumber] at h
  | cons c cs =>
      simp only [startsNumber, Bool.or_eq_true, Bool.and_eq_true,
        decide_eq_true_eq] at h
      rcases h with h | ⟨h, _⟩
      · have hMinus : takeMinus (c :: cs) = ([], c :: cs) := by
          unfold takeMinus
          split
          · next heq =>
              cases heq
              simp [Char.isDigit] at h
          · rfl
        simp [scanNumber, NumberParts.chars, hMinus, takeDigits, h]
      · subst h
        simp [scanNumber, NumberParts.chars, takeMinus]

/-
  The ways in which a token is cut off a text: the text, the
  token, and what is left.
-/
inductive Scanned : List Char → Token → List Char → Prop
| mark
    {c : Char}
    {cs : List Char}
    {t : Token}
    (hMark : ofMark? c = some t) :
    Scanned (c :: cs) t cs
| directive
    {cs : List Char}
    (hWord : (takeWord cs).1.isEmpty = false) :
    Scanned ('#' :: cs)
      (.directive (String.ofList (takeWord cs).1)) (takeWord cs).2
| word
    {c : Char}
    {cs : List Char}
    (hStart : startsWord c = true) :
    Scanned (c :: cs)
      (.ident (String.ofList (c :: (takeTail cs).1))) (takeTail cs).2
| number
    {cs : List Char}
    {t : Token}
    (hStart : startsNumber cs = true)
    (hToken : (scanNumber cs).1.token? = some t) :
    Scanned cs t (scanNumber cs).2

theorem scanned_of_scan
    {cs rest : List Char}
    {t : Token}
    (h : scan cs = .ok (t, rest)) :
    Scanned cs t rest := by
  cases cs with
  | nil => cases h
  | cons c cs =>
      rw [scan] at h
      split at h
      · next mark hMark =>
          cases h
          exact .mark hMark
      · dsimp only at h
        split at h
        · next hHash =>
            subst hHash
            split at h
            · cases h
            · next hWord =>
                cases h
                exact .directive (by simpa using hWord)
        · split at h
          · next hStart =>
              cases h
              exact .word hStart
          · split at h
            · next hStart =>
                split at h
                · next token hToken =>
                    cases h
                    exact .number hStart hToken
                · cases h
            · cases h

/- Some text is cut off the front with a token. -/
theorem exists_front_of_scan
    {cs rest : List Char}
    {t : Token}
    (h : scan cs = .ok (t, rest)) :
    ∃ front, front ≠ [] ∧ front ++ rest = cs := by
  cases scanned_of_scan h with
  | @mark c _ _ _ => exact ⟨[c], List.cons_ne_nil c [], rfl⟩
  | @directive cs _ =>
      exact ⟨'#' :: (takeWord cs).1, List.cons_ne_nil _ _,
        congrArg ('#' :: ·) (takeWord_append cs)⟩
  | @word c cs _ =>
      exact ⟨c :: (takeTail cs).1, List.cons_ne_nil _ _,
        congrArg (c :: ·) (takeTail_append cs)⟩
  | number hStart _ =>
      exact ⟨_, chars_scanNumber_ne_nil hStart, scanNumber_append cs⟩

/- What is left behind a token is shorter. -/
theorem length_scan_lt
    {cs rest : List Char}
    {token : Token}
    (h : scan cs = .ok (token, rest)) :
    rest.length < cs.length := by
  rcases exists_front_of_scan h with ⟨front, hSome, rfl⟩
  have hLength := List.length_pos_iff.mpr hSome
  rw [List.length_append]
  omega

------------------------------------------------------------
-- All Tokens of a Line
------------------------------------------------------------

/- The tokens of a text, behind those found before it. -/
def ofCharsFrom
    (found : List Token)
    (cs : List Char) : Except SyntaxCause (List Token) :=
  match cs with
  | [] => .ok found.reverse
  | c :: tail =>
      if Text.isBlank c then
        ofCharsFrom found tail
      else
        match h : scan (c :: tail) with
        | .error cause => .error cause
        | .ok (token, rest) =>
            have : rest.length < tail.length + 1 :=
              length_scan_lt h
            ofCharsFrom (token :: found) rest
termination_by cs.length

/- The tokens of a line. A blank line has none. -/
def ofLine (cs : List Char) : Except SyntaxCause (List Token) :=
  ofCharsFrom [] cs

end ThreeAddress.Token
