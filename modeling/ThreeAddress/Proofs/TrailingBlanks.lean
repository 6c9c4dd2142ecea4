import Mathlib.Data.List.DropRight
import ThreeAddress.Proofs.TokenText

/-
  This file shows that blanks at the end of a line do not
  matter: the line is cut into the same tokens without them,
  or refused for the same cause.

  Each part of a token is cut off the front of a text. Where
  one blank more stands at the end, the same is cut off, and
  the blank is left behind what was left before.

  Key definitions include:
    * `Token.LeavesLast`
    * `Text.trimEnd`

  Main statements:
    * `Token.scan_concat`
    * `Token.ofLine_trimEnd`
-/

namespace ThreeAddress

/- The line without the blanks at its end. -/
def Text.trimEnd (cs : List Char) : List Char :=
  cs.rdropWhile isBlank

namespace Token

/- The last character is not cut off, and changes nothing else. -/
def LeavesLast
    (take : List Char → List Char × List Char)
    (b : Char) : Prop :=
  ∀ cs, take (cs ++ [b]) = ((take cs).1, (take cs).2 ++ [b])

------------------------------------------------------------
-- Parts of Tokens
------------------------------------------------------------

/- A run of characters of a class ends before others. -/
theorem leavesLast_run
    {p : Char → Bool}
    {b : Char}
    (h : p b = false) :
    LeavesLast (fun cs => (cs.takeWhile p, cs.dropWhile p)) b := by
  intro cs
  induction cs with
  | nil => simp [h]
  | cons c cs ih =>
      rw [Prod.mk.injEq] at ih
      cases hc : p c with
      | false => simp [hc]
      | true => simp [hc, ih.1, ih.2]

section

variable {b : Char} (hb : Text.isBlank b = true)

include hb

/- A blank is in no class of visible characters. -/
theorem eq_false_of_isBlank
    {p : Char → Bool}
    (hp : ∀ c, p c = true → isVisible c = true) :
    p b = false := by
  cases h : p b with
  | false => rfl
  | true =>
      have hVisible := isBlank_of_isVisible (hp b h)
      rw [hb] at hVisible
      cases hVisible

theorem ne_of_isBlank
    {c : Char}
    (hc : Text.isBlank c = false) :
    b ≠ c := by
  rintro rfl
  rw [hb] at hc
  cases hc

theorem continuesWord_of_isBlank :
    continuesWord b = false :=
  eq_false_of_isBlank hb fun _ => isVisible_of_continuesWord

theorem runsOn_of_isBlank :
    runsOn b = false := by
  have hPoint : b ≠ '.' := ne_of_isBlank hb (by decide)
  simp [runsOn, continuesWord_of_isBlank hb, hPoint]

theorem leavesLast_takeTail :
    LeavesLast takeTail b := by
  have hHyphen : b ≠ '-' := ne_of_isBlank hb (by decide)
  have hLetter : b.isAlpha = false :=
    eq_false_of_isBlank hb fun c h =>
      isVisible_of_continuesWord (continuesWord_of_isAlpha h)
  intro cs
  induction cs with
  | nil => simp [takeTail, continuesWord_of_isBlank hb, hHyphen]
  | cons c cs ih =>
      have hHead : (cs ++ [b]).head?.any Char.isAlpha =
          cs.head?.any Char.isAlpha := by
        cases cs with
        | nil => exact hLetter
        | cons d cs => rfl
      rw [List.cons_append, takeTail, takeTail, hHead, ih]
      split <;> rfl

theorem leavesLast_takeWord :
    LeavesLast takeWord b := by
  have hStart : startsWord b = false :=
    eq_false_of_isBlank hb fun c h =>
      isVisible_of_continuesWord (continuesWord_of_startsWord h)
  intro cs
  cases cs with
  | nil => simp [takeWord, hStart]
  | cons c cs =>
      rw [List.cons_append, takeWord, takeWord, leavesLast_takeTail hb]
      split <;> rfl

theorem leavesLast_takeDigits :
    LeavesLast takeDigits b :=
  leavesLast_run (eq_false_of_isBlank hb fun _ => isVisible_of_isDigit)

theorem leavesLast_takeMinus :
    LeavesLast takeMinus b := by
  have hMinus : b ≠ '-' := ne_of_isBlank hb (by decide)
  intro cs
  cases cs with
  | nil => simp [takeMinus, hMinus]
  | cons c cs =>
      by_cases hc : c = '-'
      · subst hc
        rfl
      · simp [takeMinus, hc]

theorem leavesLast_takeSign :
    LeavesLast takeSign b := by
  have hPlus : b ≠ '+' := ne_of_isBlank hb (by decide)
  have hMinus : b ≠ '-' := ne_of_isBlank hb (by decide)
  intro cs
  cases cs with
  | nil => simp [takeSign, hPlus, hMinus]
  | cons c cs =>
      by_cases hPlus : c = '+'
      · subst hPlus
        rfl
      · by_cases hMinus : c = '-'
        · subst hMinus
          rfl
        · simp [takeSign, hPlus, hMinus]

theorem leavesLast_takeFraction :
    LeavesLast takeFraction b := by
  have hPoint : b ≠ '.' := ne_of_isBlank hb (by decide)
  intro cs
  cases cs with
  | nil => simp [takeFraction, hPoint]
  | cons c cs =>
      by_cases hc : c = '.'
      · subst hc
        rw [List.cons_append, takeFraction, takeFraction,
          leavesLast_takeDigits hb]
        split <;> rfl
      · simp [takeFraction, hc]

theorem leavesLast_takeExponent :
    LeavesLast takeExponent b := by
  have hMark : ¬ (b = 'e' ∨ b = 'E') := by
    rw [not_or]
    exact ⟨ne_of_isBlank hb (by decide), ne_of_isBlank hb (by decide)⟩
  intro cs
  cases cs with
  | nil => simp [takeExponent, hMark]
  | cons mark cs =>
      simp only [List.cons_append, takeExponent, leavesLast_takeSign hb cs,
        leavesLast_takeDigits hb _]
      split
      · split <;> rfl
      · rfl

/- The parts of a number are the same. -/
theorem scanNumber_concat
    (cs : List Char) :
    scanNumber (cs ++ [b]) = ((scanNumber cs).1, (scanNumber cs).2 ++ [b]) := by
  have hRun := leavesLast_run (runsOn_of_isBlank hb)
  simp only [LeavesLast, Prod.mk.injEq] at hRun
  simp only [scanNumber, leavesLast_takeMinus hb _, leavesLast_takeDigits hb _,
    leavesLast_takeFraction hb _, leavesLast_takeExponent hb _, hRun]

------------------------------------------------------------
-- Tokens
------------------------------------------------------------

theorem startsNumber_concat
    (c : Char)
    (cs : List Char) :
    startsNumber (c :: (cs ++ [b])) = startsNumber (c :: cs) := by
  have hDigit : b.isDigit = false :=
    eq_false_of_isBlank hb fun _ => isVisible_of_isDigit
  cases cs with
  | nil => simp [startsNumber, hDigit]
  | cons d cs => rfl

/- The same token is at the front, or the same cause refuses it. -/
theorem scan_concat
    (c : Char)
    (cs : List Char) :
    scan (c :: (cs ++ [b])) =
      (scan (c :: cs)).map fun found => (found.1, found.2 ++ [b]) := by
  have hNumber := scanNumber_concat hb (c :: cs)
  rw [List.cons_append] at hNumber
  rw [scan, scan, leavesLast_takeWord hb, leavesLast_takeTail hb,
    startsNumber_concat hb, hNumber]
  cases ofMark? c with
  | some mark => rfl
  | none =>
      dsimp only
      split
      · split <;> rfl
      · split
        · rfl
        · split
          · cases (scanNumber (c :: cs)).1.token? <;> rfl
          · rfl

/- One blank more at the end of a text changes no token. -/
theorem ofCharsFrom_concat
    (found : List Token)
    (cs : List Char) :
    ofCharsFrom found (cs ++ [b]) = ofCharsFrom found cs := by
  induction hLength : cs.length using Nat.strong_induction_on
    generalizing found cs with
  | _ n ih =>
      cases cs with
      | nil => exact ofCharsFrom_blank hb found []
      | cons c cs =>
          subst hLength
          cases hBlank : Text.isBlank c with
          | true =>
              rw [List.cons_append, ofCharsFrom_blank hBlank,
                ofCharsFrom_blank hBlank]
              exact ih _ (Nat.lt_succ_self _) found cs rfl
          | false =>
              have hConcat := scan_concat hb c cs
              cases hScan : scan (c :: cs) with
              | error cause =>
                  rw [hScan] at hConcat
                  rw [List.cons_append, ofCharsFrom_of_refused hBlank hScan,
                    ofCharsFrom_of_refused hBlank hConcat]
              | ok scanned =>
                  rw [hScan] at hConcat
                  rw [List.cons_append, ofCharsFrom_scan hBlank hScan,
                    ofCharsFrom_scan hBlank hConcat]
                  exact ih _ (length_scan_lt hScan) _ _ rfl

end

/- Blanks at the end of a line do not change its tokens. -/
theorem ofLine_trimEnd
    (cs : List Char) :
    ofLine (Text.trimEnd cs) = ofLine cs := by
  induction cs using List.reverseRecOn with
  | nil => rfl
  | append_singleton cs c ih =>
      cases hc : Text.isBlank c with
      | true =>
          rw [Text.trimEnd, List.rdropWhile_concat_pos _ _ _ hc]
          exact ih.trans (ofCharsFrom_concat hc [] cs).symm
      | false =>
          rw [Text.trimEnd, List.rdropWhile_concat_neg _ _ _ (by simp [hc])]

end Token

end ThreeAddress
