import ThreeAddress.Proofs.TrailingBlanks

/-
  This file shows that tokens are read back from their texts
  under any spacing: as long as there is some blank between
  two of them, it does not matter which blanks and how many.
  In particular, the tokens of any line are read back from
  their texts with single spaces between them.

  Key definitions include:
    * `Token.spaced`
    * `Token.WellSpaced`
    * `Token.spaceOut`

  Main statements:
    * `Token.WellSpaced.spelling`
    * `Token.spaced_spaceOut`
    * `tokens_are_read_back_under_any_spacing`
-/

namespace ThreeAddress

namespace Token

------------------------------------------------------------
-- Spaced Tokens
------------------------------------------------------------

/- The texts of tokens, each with what stands behind it. -/
def spaced (items : List (Token × List Char)) : List Char :=
  items.flatMap fun item => item.1.text.toList ++ item.2

/-
  Tokens that can be written, with blanks behind them: at
  least one behind each token that another one follows.
-/
inductive WellSpaced : List (Token × List Char) → Prop
| nil : WellSpaced []
| cons
    {t : Token}
    {gap : List Char}
    {items : List (Token × List Char)}
    (hToken : t.WellFormed)
    (hBlanks : ∀ c ∈ gap, Text.isBlank c = true)
    (hApart : items ≠ [] → gap ≠ [])
    (hRest : WellSpaced items) :
    WellSpaced ((t, gap) :: items)

/- The tokens, with one space between each two of them. -/
def spaceOut : List Token → List (Token × List Char)
| [] => []
| [t] => [(t, [])]
| t :: u :: ts => (t, [' ']) :: spaceOut (u :: ts)

------------------------------------------------------------
-- Spelling
------------------------------------------------------------

/- A blank sticks to nothing. -/
theorem sticks_of_isBlank
    {b : Char}
    (hb : Text.isBlank b = true) :
    sticks b = false := by
  have hHyphen : b ≠ '-' := ne_of_isBlank hb (by decide)
  simp [sticks, runsOn_of_isBlank hb, hHyphen]

/- Nothing sticks to a token that blanks follow. -/
theorem stops_blanks
    {gap rest : List Char}
    (hBlanks : ∀ c ∈ gap, Text.isBlank c = true)
    (hApart : rest ≠ [] → gap ≠ []) :
    Stops sticks (gap ++ rest) := by
  intro c hc
  cases gap with
  | nil =>
      cases rest with
      | nil => cases hc
      | cons d rest => exact absurd rfl (hApart (List.cons_ne_nil d rest))
  | cons b gap =>
      cases hc
      exact sticks_of_isBlank (hBlanks _ List.mem_cons_self)

/- Blanks may stand before what is spelled. -/
theorem Spelling.append_blanks
    {lead cs : List Char}
    {ts : List Token}
    (hLead : ∀ c ∈ lead, Text.isBlank c = true)
    (h : Spelling (Text.isBlank · = true) cs ts) :
    Spelling (Text.isBlank · = true) (lead ++ cs) ts := by
  induction lead with
  | nil => exact h
  | cons c lead ih =>
      rw [List.forall_mem_cons] at hLead
      exact .gap hLead.1 (ih hLead.2)

/- Tokens with blanks between them are spelled. -/
theorem WellSpaced.spelling
    {items : List (Token × List Char)}
    (h : WellSpaced items) :
    Spelling (Text.isBlank · = true) (spaced items)
      (items.map Prod.fst) := by
  induction h with
  | nil => exact .nil
  | @cons t gap items hToken hBlanks hApart _ ih =>
      have hText : spaced ((t, gap) :: items) =
          t.text.toList ++ (gap ++ spaced items) := by
        rw [spaced, List.flatMap_cons, List.append_assoc]
        rfl
      have hGap : spaced items ≠ [] → gap ≠ [] := by
        intro hMore
        apply hApart
        rintro rfl
        exact hMore rfl
      rw [hText, List.map_cons]
      refine .token hToken ?_ (ih.append_blanks hBlanks)
      intro _
      exact stops_blanks hBlanks hGap

------------------------------------------------------------
-- Single Spaces
------------------------------------------------------------

@[simp]
theorem map_fst_spaceOut
    (ts : List Token) :
    (spaceOut ts).map Prod.fst = ts := by
  induction ts using spaceOut.induct with
  | case1 => rfl
  | case2 t => rfl
  | case3 t u ts ih => rw [spaceOut, List.map_cons, ih]

theorem wellSpaced_spaceOut
    {ts : List Token}
    (h : ∀ t ∈ ts, t.WellFormed) :
    WellSpaced (spaceOut ts) := by
  induction ts using spaceOut.induct with
  | case1 => exact .nil
  | case2 t =>
      exact .cons (h t List.mem_cons_self) (List.forall_mem_nil _)
        (fun hMore => absurd rfl hMore) .nil
  | case3 t u ts ih =>
      rw [List.forall_mem_cons] at h
      refine .cons h.1 ?_ (fun _ => List.cons_ne_nil _ _) (ih h.2)
      rw [List.forall_mem_singleton]
      decide

/- This is the text of the tokens, joined by spaces. -/
theorem spaced_spaceOut
    (ts : List Token) :
    spaced (spaceOut ts) = (" ".intercalate (ts.map text)).toList := by
  rw [String.toList_intercalate]
  induction ts using spaceOut.induct with
  | case1 => rfl
  | case2 t => simp [spaceOut, spaced]
  | case3 t u ts ih =>
      have hText : spaced (spaceOut (t :: u :: ts)) =
          t.text.toList ++ ([' '] ++ spaced (spaceOut (u :: ts))) := by
        rw [spaceOut, spaced, List.flatMap_cons, List.append_assoc]
        rfl
      simp only [List.map_cons] at ih ⊢
      rw [hText, ih, List.intercalate_cons_cons, List.append_assoc]
      rfl

end Token

------------------------------------------------------------
-- Main Statement
------------------------------------------------------------

/-
  Tokens that can be written are read back from their texts,
  whatever blanks stand between them and at both ends. Only
  such tokens are ever read, so that the tokens of any line
  are read back from their texts joined by spaces.
-/
theorem tokens_are_read_back_under_any_spacing :
    (∀ (lead : List Char) (items : List (Token × List Char)),
      (∀ c ∈ lead, Text.isBlank c = true) →
        Token.WellSpaced items →
          Token.ofLine (lead ++ Token.spaced items) =
            .ok (items.map Prod.fst)) ∧
      ∀ (cs : List Char) (ts : List Token),
        Token.ofLine cs = .ok ts →
          (∀ t ∈ ts, t.WellFormed) ∧
            Token.ofLine (" ".intercalate (ts.map Token.text)).toList =
              .ok ts := by
  constructor
  · intro lead items hLead hItems
    exact (hItems.spelling.append_blanks hLead).ofLine_eq_ok
      fun _ hBlank => hBlank
  · intro cs ts h
    have hWell := Token.wellFormed_of_ofLine h
    have hSpelled := (Token.wellSpaced_spaceOut hWell).spelling
    rw [Token.spaced_spaceOut, Token.map_fst_spaceOut] at hSpelled
    exact ⟨hWell, hSpelled.ofLine_eq_ok fun _ hBlank => hBlank⟩

/-
  A hyphenated word, a directive, the least integer and the
  negative zero, with wide and narrow blanks between them; and
  a line without blanks that is cut at its marks.
-/
theorem spaced_words_and_numbers :
    Token.ofLine
        "\t int-list\u3000#end\n-2147483648\r\n-0.0 ".toList =
        .ok
          [ .ident "int-list", .directive "end"
          , .int Int32.minValue, .float (.zero true) ] ∧
      Token.ofLine "a-b,-3".toList =
        .ok [.ident "a-b", .comma, .int (-3)] ∧
      Token.ofLine "a-b , -3".toList =
        .ok [.ident "a-b", .comma, .int (-3)] := by
  rcases tokens_are_read_back_under_any_spacing with ⟨hSpaced, hLine⟩
  have hGlued : Token.ofLine "a-b,-3".toList =
      .ok [.ident "a-b", .comma, .int (-3)] := by
    decide +kernel
  refine ⟨?_, hGlued, (hLine _ _ hGlued).2⟩
  have hBlanks : ∀ gap ∈
      [['\t', ' '], ['\u3000'], ['\n'], ['\r', '\n'], [' ']],
      ∀ c ∈ gap, Text.isBlank c = true := by
    simp [Text.isBlank, Text.blankRanges]
  have hItems : Token.WellSpaced
      [ (.ident "int-list", ['\u3000']), (.directive "end", ['\n'])
      , (.int Int32.minValue, ['\r', '\n'])
      , (.float (.zero true), [' ']) ] :=
    .cons rfl (hBlanks _ (by simp)) (by simp) <|
      .cons rfl (hBlanks _ (by simp)) (by simp) <|
      .cons trivial (hBlanks _ (by simp)) (by simp) <|
      .cons rfl (hBlanks _ (by simp)) (by simp) .nil
  exact hSpaced ['\t', ' '] _ (hBlanks _ (by simp)) hItems

end ThreeAddress
