import ThreeAddress.Proofs.RoundTrip
import ThreeAddress.Proofs.TrailingBlanks

/-
  This file shows that the first syntax error of a text is
  final and local. It is found on the line that it names,
  from that line and the lines before it alone. The lines
  before it are in order, except that a block may still be
  open behind them.

  The one error that no line gives is that a block is left
  open at the end of a text. It names the start mark behind
  which no other mark of a block stands.

  Key definitions include:
    * `Line.ofChars`
    * `DecidedOnLine`
    * `OpensLast`
    * `trimmedLines`
    * `Assembly.Accounted`

  Main statements:
    * `Line.decidedOnLine_ofChars`
    * `Assembly.exists_refused_line`
    * `Assembly.readLines_of_refused`
    * `Assembly.Accounted.readLines`
    * `first_syntax_error_is_final`
-/

namespace ThreeAddress

/- What a line is classified as; a blank line is none. -/
def Line.ofChars (chars : List Char) : Except SyntaxCause (Option Line) :=
  Token.ofLine chars >>= Line.ofTokens

/-
  The line with the number is a start mark, and no line behind
  it is a mark of a block.
-/
def OpensLast (lines : List (List Char)) (number : Nat) : Prop :=
  ∃ before mark behind,
    lines = before ++ mark :: behind ∧
      number = before.length + 1 ∧
      Line.ofChars mark = .ok (some .startFunction) ∧
      ∀ chars ∈ behind,
        Line.ofChars chars ≠ .ok (some .startFunction) ∧
          Line.ofChars chars ≠ .ok (some .endFunction)

/- The lines of a text, without the blanks at their ends. -/
def trimmedLines (text : String) : List (List Char) :=
  (Text.lines text.toList).map Text.trimEnd

------------------------------------------------------------
-- Causes That Lines Give
------------------------------------------------------------

/- The outcome is not that a block is left open. -/
def DecidedOnLine {α : Type} (x : Except SyntaxCause α) : Prop :=
  x ≠ .error .unterminatedFunction

namespace DecidedOnLine

variable {α β : Type}

theorem ok
    (a : α) :
    DecidedOnLine (.ok a) := by
  intro h
  cases h

theorem error
    {cause : SyntaxCause}
    (h : cause ≠ .unterminatedFunction) :
    DecidedOnLine (.error cause : Except SyntaxCause α) := by
  intro hError
  cases hError
  exact h rfl

/- A cause that is handed on comes from an outcome on a line. -/
theorem rethrow
    {x : Except SyntaxCause β}
    {cause : SyntaxCause}
    (h : DecidedOnLine x)
    (hError : x = .error cause) :
    DecidedOnLine (.error cause : Except SyntaxCause α) := by
  apply DecidedOnLine.error
  rintro rfl
  exact h hError

theorem map
    {x : Except SyntaxCause α}
    (h : DecidedOnLine x)
    (f : α → β) :
    DecidedOnLine (x.map f) :=
  fun hError => h (Outcome.map_eq_error.mp hError)

theorem unexpected
    (t : Token) :
    DecidedOnLine (Line.unexpected t : Except SyntaxCause α) := by
  intro h
  cases h

end DecidedOnLine

namespace Token

theorem decidedOnLine_scan
    (cs : List Char) :
    DecidedOnLine (scan cs) := by
  intro h
  cases cs with
  | nil => cases h
  | cons c cs =>
      rw [scan] at h
      dsimp only at h
      split at h
      · cases h
      · split at h
        · split at h <;> cases h
        · split at h
          · cases h
          · split at h
            · split at h <;> cases h
            · cases h

theorem decidedOnLine_ofCharsFrom
    (found : List Token)
    (cs : List Char) :
    DecidedOnLine (ofCharsFrom found cs) := by
  fun_induction ofCharsFrom found cs with
  | case1 found => exact .ok _
  | case2 found c tail hBlank ih => exact ih
  | case3 found c tail hBlank cause hScan =>
      exact (decidedOnLine_scan _).rethrow hScan
  | case4 found c tail hBlank token rest hScan hLess ih => exact ih

end Token

namespace Line

theorem decidedOnLine_readLength
    (n : Int32) :
    DecidedOnLine (readLength n) := by
  rw [readLength]
  split
  · exact .error (by simp)
  · exact .ok _

theorem decidedOnLine_readParameter
    (ts : List Token) :
    DecidedOnLine (readParameter ts) := by
  fun_cases readParameter ts
  case case4 => exact (decidedOnLine_readLength _).map _
  all_goals
    intro h
    cases h

theorem decidedOnLine_readParameters
    (ts : List Token) :
    DecidedOnLine (readParameters ts) := by
  rw [readParameters]
  split
  · exact .ok _
  · exact Outcome.mapM_ne_error fun run _ => decidedOnLine_readParameter run

theorem decidedOnLine_headerEnd
    (ts : List Token) :
    DecidedOnLine (headerEnd ts) := by
  fun_cases headerEnd ts
  all_goals
    intro h
    cases h

theorem decidedOnLine_readHeader
    (returns : ReturnType)
    (name : String)
    (ts : List Token) :
    DecidedOnLine (readHeader returns name ts) := by
  rw [readHeader]
  split
  · exact .error (by simp)
  · split
    · next hParams => exact (decidedOnLine_readParameters _).rethrow hParams
    · exact (decidedOnLine_headerEnd _).map _

theorem decidedOnLine_readDeclaration
    (ts : List Token) :
    DecidedOnLine (readDeclaration ts) := by
  intro h
  -- Only the length in brackets is read by a function of its own.
  rcases ts with _ | ⟨t, ts⟩
  · cases h
  · cases t with
    | ident name =>
        rcases ts with _ | ⟨u, _ | ⟨v, _ | ⟨w, ts⟩⟩⟩
        · cases h
        · cases u <;> cases h
        · cases u
          case lbracket => cases v <;> cases h
          all_goals cases h
        · cases u
          case lbracket =>
            cases v
            case int n =>
              cases w
              case rbracket =>
                cases ts with
                | nil => exact (decidedOnLine_readLength n).map _ h
                | cons extra ts => cases h
              all_goals cases h
            all_goals cases h
          all_goals cases h
    | _ => cases h

theorem decidedOnLine_readDeclarations
    (type : Scalar)
    (ts : List Token) :
    DecidedOnLine (readDeclarations type ts) := by
  rw [readDeclarations]
  split
  · exact .ok _
  · apply DecidedOnLine.map
    exact Outcome.mapM_ne_error fun run _ => decidedOnLine_readDeclaration run

theorem decidedOnLine_readName
    (ts : List Token) :
    DecidedOnLine (readName ts) := by
  fun_cases readName ts
  all_goals
    intro h
    cases h

theorem decidedOnLine_readIndex
    (t : Token) :
    DecidedOnLine (readIndex t) := by
  cases t
  all_goals
    intro h
    cases h

theorem decidedOnLine_readValue
    (ts : List Token) :
    DecidedOnLine (readValue ts) := by
  fun_cases readValue ts
  case case4 => exact (decidedOnLine_readIndex _).map _
  all_goals
    intro h
    cases h

theorem decidedOnLine_readOperand
    (kind : OperandKind)
    (ts : List Token) :
    DecidedOnLine (readOperand kind ts) := by
  cases kind with
  | label | function | array => exact (decidedOnLine_readName ts).map _
  | destination | value => exact decidedOnLine_readValue ts

theorem decidedOnLine_readOpcode
    (ts : List Token) :
    DecidedOnLine (readOpcode ts) := by
  rw [readOpcode]
  split
  · next hName => exact (decidedOnLine_readName _).rethrow hName
  · split
    · exact .error (by simp)
    · exact .ok _

theorem decidedOnLine_checkCount
    (op : Opcode)
    (count : Nat) :
    DecidedOnLine (checkCount op count) := by
  rw [checkCount]
  split
  · exact .error (by simp)
  · split
    · exact .ok _
    · exact .error (by simp)

theorem decidedOnLine_readInstruction
    (label : Option String)
    (ts : List Token) :
    DecidedOnLine (readInstruction label ts) := by
  rw [readInstruction]
  split
  · exact .unexpected _
  · split
    · next hOpcode => exact (decidedOnLine_readOpcode _).rethrow hOpcode
    · split
      · next hCount => exact (decidedOnLine_checkCount _ _).rethrow hCount
      · apply DecidedOnLine.map
        exact Outcome.mapM_ne_error fun run _ => decidedOnLine_readOperand _ _

theorem decidedOnLine_readDirective
    (word : String)
    (ts : List Token) :
    DecidedOnLine (readDirective word ts) := by
  cases ts with
  | cons extra ts => exact .unexpected _
  | nil =>
      rw [readDirective]
      split
      · exact .ok _
      · split
        · exact .ok _
        · exact .unexpected _

theorem decidedOnLine_readLabelled
    (word : String)
    (ts : List Token) :
    DecidedOnLine (readLabelled word ts) := by
  rw [readLabelled]
  split
  · exact decidedOnLine_readDeclarations _ _
  · split
    · exact decidedOnLine_readDeclarations _ _
    · split
      · exact .ok _
      · exact decidedOnLine_readInstruction _ _

theorem decidedOnLine_readWordLine
    (word : String)
    (rest : List Token) :
    DecidedOnLine (readWordLine word rest) := by
  rw [readWordLine.eq_def]
  split
  · exact decidedOnLine_readHeader _ _ _
  · exact decidedOnLine_readLabelled _ _
  · exact decidedOnLine_readInstruction _ _

theorem decidedOnLine_ofTokens
    (ts : List Token) :
    DecidedOnLine (ofTokens ts) := by
  cases ts with
  | nil => exact .ok _
  | cons t rest =>
      cases t with
      | directive word => exact (decidedOnLine_readDirective word rest).map _
      | ident word => exact (decidedOnLine_readWordLine word rest).map _
      | _ => exact .unexpected _

/- A line is never refused for a block that is left open. -/
theorem decidedOnLine_ofChars
    (chars : List Char) :
    DecidedOnLine (ofChars chars) :=
  Outcome.bind_ne_error (Token.decidedOnLine_ofCharsFrom [] chars)
    fun tokens _ => decidedOnLine_ofTokens tokens

theorem ofChars_trimEnd
    (chars : List Char) :
    ofChars (Text.trimEnd chars) = ofChars chars := by
  rw [ofChars, Token.ofLine_trimEnd, ← ofChars]

end Line

------------------------------------------------------------
-- Lines in Order
------------------------------------------------------------

/- A line behind a header is refused for what it is. -/
theorem Draft.decidedOnLine_accept
    (d : Draft)
    (number : Nat)
    (line : Line) :
    DecidedOnLine (d.accept number line) := by
  cases line with
  | declarations type items =>
      rw [Draft.accept]
      split
      · exact .error (by simp)
      · split
        · exact .error (by simp)
        · exact .ok _
  | _ =>
      intro h
      cases h

namespace Assembly

/- Fit a line into the blocks, unless it is blank. -/
def acceptFound
    (a : Assembly)
    (number : Nat) : Option Line → Except SyntaxCause Assembly
| none => .ok a
| some line => a.accept number line

/- Of a line it matters only what it is classified as. -/
theorem readLine_eq
    (a : Assembly)
    (number : Nat)
    (chars : List Char) :
    a.readLine number chars = Line.ofChars chars >>= a.acceptFound number := by
  rw [readLine, Line.ofChars]
  cases Token.ofLine chars with
  | error cause => rfl
  | ok tokens =>
      have hTokens : (Except.ok tokens >>= Line.ofTokens) =
          Line.ofTokens tokens := rfl
      rw [hTokens]
      dsimp only
      rcases Line.ofTokens tokens with cause | _ | line
      · rfl
      · rfl
      · rfl

theorem decidedOnLine_accept
    (a : Assembly)
    (number : Nat)
    (line : Line) :
    DecidedOnLine (a.accept number line) := by
  fun_cases Assembly.accept a number line
  case case8 hDraft =>
    exact (Draft.decidedOnLine_accept _ _ _).rethrow hDraft
  all_goals
    intro h
    cases h

theorem decidedOnLine_readLine
    (a : Assembly)
    (number : Nat)
    (chars : List Char) :
    DecidedOnLine (a.readLine number chars) := by
  rw [readLine_eq]
  apply Outcome.bind_ne_error (Line.decidedOnLine_ofChars chars)
  intro found _
  cases found with
  | none => exact DecidedOnLine.ok a
  | some line => exact a.decidedOnLine_accept number line

/- Lines are read up to the end of the first ones, and then on. -/
theorem readLines_append
    (a : Assembly)
    (number : Nat)
    (first second : List (List Char)) :
    a.readLines number (first ++ second) =
      a.readLines number first >>= fun b =>
        b.readLines (number + first.length) second := by
  induction first generalizing a number with
  | nil => rfl
  | cons chars first ih =>
      rw [List.cons_append, readLines, readLines]
      cases a.readLine number chars with
      | error cause => rfl
      | ok b =>
          have hNumber : number + (chars :: first).length =
              number + 1 + first.length := by
            rw [List.length_cons]
            omega
          rw [hNumber]
          exact ih b (number + 1)

/-
  Lines are refused on the line that the error names, and the
  lines before it are read.
-/
theorem exists_refused_line
    {a : Assembly}
    {number : Nat}
    {lines : List (List Char)}
    {e : SyntaxError}
    (h : a.readLines number lines = .error e) :
    ∃ before chars behind b,
      lines = before ++ chars :: behind ∧
        e.line = number + before.length ∧
        a.readLines number before = .ok b ∧
        b.readLine e.line chars = .error e.cause := by
  induction lines generalizing a number with
  | nil => cases h
  | cons chars lines ih =>
      rw [readLines] at h
      cases hLine : a.readLine number chars with
      | error cause =>
          rw [hLine] at h
          cases h
          exact ⟨[], chars, lines, a, rfl, rfl, rfl, hLine⟩
      | ok next =>
          rw [hLine] at h
          rcases ih h with ⟨before, refused, behind, b, rfl, hNumber, hRead,
            hRefused⟩
          refine ⟨chars :: before, refused, behind, b, rfl, ?_, ?_, hRefused⟩
          · rw [hNumber, List.length_cons]
            omega
          · rw [readLines, hLine]
            exact hRead

/- What stands behind the refused line is not looked at. -/
theorem readLines_of_refused
    {a b : Assembly}
    {number : Nat}
    {before : List (List Char)}
    {chars : List Char}
    {e : SyntaxError}
    (hNumber : e.line = number + before.length)
    (hRead : a.readLines number before = .ok b)
    (hRefused : b.readLine e.line chars = .error e.cause)
    (behind : List (List Char)) :
    a.readLines number (before ++ chars :: behind) = .error e := by
  rw [readLines_append, hRead]
  show b.readLines (number + before.length) (chars :: behind) = .error e
  rw [← hNumber, readLines, hRefused]

/- Blanks at the ends of lines do not matter. -/
theorem readLines_map_trimEnd
    (a : Assembly)
    (number : Nat)
    (lines : List (List Char)) :
    a.readLines number (lines.map Text.trimEnd) = a.readLines number lines := by
  induction lines generalizing a number with
  | nil => rfl
  | cons chars lines ih =>
      have hLine : a.readLine number (Text.trimEnd chars) =
          a.readLine number chars := by
        rw [readLine_eq, readLine_eq, Line.ofChars_trimEnd]
      rw [List.map_cons, readLines, readLines, hLine]
      cases a.readLine number chars with
      | error cause => rfl
      | ok b => exact ih b (number + 1)

------------------------------------------------------------
-- The Block That Is Open
------------------------------------------------------------

/- The line of the start mark, if a block is open. -/
def start? (a : Assembly) : Option Nat :=
  match a.block with
  | .outside => none
  | .awaitingHeader start => some start
  | .started start _ => some start

/-
  A start mark opens a block on its own line, an end mark
  leaves none open, and other lines change nothing of this.
-/
theorem start?_of_accept
    {a b : Assembly}
    {number : Nat}
    {line : Line}
    (h : a.accept number line = .ok b) :
    (line = .startFunction ∧ b.start? = some number) ∨
      b.start? = none ∨
        (line ≠ .startFunction ∧ line ≠ .endFunction ∧
          b.start? = a.start?) := by
  revert h
  fun_cases Assembly.accept a number line
  case case1 =>
    intro h
    cases h
    exact .inl ⟨rfl, rfl⟩
  case case5 =>
    intro h
    cases h
    exact .inr (.inr ⟨by simp, by simp, rfl⟩)
  case case7 =>
    intro h
    cases h
    exact .inr (.inl rfl)
  case case9 hStart hEnd _ =>
    intro h
    cases h
    exact .inr (.inr ⟨hStart, hEnd, rfl⟩)
  all_goals
    intro h
    cases h

end Assembly

theorem OpensLast.concat
    {lines : List (List Char)}
    {number : Nat}
    {chars : List Char}
    (h : OpensLast lines number)
    (hStart : Line.ofChars chars ≠ .ok (some .startFunction))
    (hEnd : Line.ofChars chars ≠ .ok (some .endFunction)) :
    OpensLast (lines ++ [chars]) number := by
  rcases h with ⟨before, mark, behind, rfl, hNumber, hMark, hBehind⟩
  refine ⟨before, mark, behind ++ [chars], ?_, hNumber, hMark, ?_⟩
  · rw [List.append_assoc, List.cons_append]
  · rw [List.forall_mem_append, List.forall_mem_singleton]
    exact ⟨hBehind, hStart, hEnd⟩

namespace Assembly

/- The lines that are read account for the block that is open. -/
def Accounted (lines : List (List Char)) (a : Assembly) : Prop :=
  ∀ start, a.start? = some start → OpensLast lines start

theorem Accounted.readLine
    {lines : List (List Char)}
    {chars : List Char}
    {a b : Assembly}
    (h : a.Accounted lines)
    (hRead : a.readLine (lines.length + 1) chars = .ok b) :
    b.Accounted (lines ++ [chars]) := by
  rw [readLine_eq, Outcome.bind_eq_ok] at hRead
  rcases hRead with ⟨found, hFound, hAccept⟩
  intro start hOpen
  cases found with
  | none =>
      cases hAccept
      exact (h start hOpen).concat (by simp [hFound]) (by simp [hFound])
  | some line =>
      rcases start?_of_accept hAccept with
        ⟨rfl, hMark⟩ | hNone | ⟨hStart, hEnd, hSame⟩
      · rw [hMark] at hOpen
        cases hOpen
        refine ⟨lines, chars, [], rfl, rfl, hFound, ?_⟩
        exact List.forall_mem_nil _
      · rw [hNone] at hOpen
        cases hOpen
      · rw [hSame] at hOpen
        exact (h start hOpen).concat (by simp [hFound, hStart])
          (by simp [hFound, hEnd])

theorem Accounted.readLines
    {before lines : List (List Char)}
    {a b : Assembly}
    (h : a.Accounted before)
    (hRead : a.readLines (before.length + 1) lines = .ok b) :
    b.Accounted (before ++ lines) := by
  induction lines generalizing before a with
  | nil =>
      cases hRead
      rwa [List.append_nil]
  | cons chars lines ih =>
      rw [Assembly.readLines] at hRead
      cases hLine : a.readLine (before.length + 1) chars with
      | error cause =>
          rw [hLine] at hRead
          cases hRead
      | ok next =>
          rw [hLine] at hRead
          rw [List.append_cons]
          apply ih (h.readLine hLine)
          rw [List.length_append, List.length_singleton]
          exact hRead

/- Lines that are read are all classified. -/
theorem exists_ofChars_of_readLines
    {lines : List (List Char)}
    {number : Nat}
    {a b : Assembly}
    (h : a.readLines number lines = .ok b) :
    ∀ chars ∈ lines, ∃ found, Line.ofChars chars = .ok found := by
  induction lines generalizing a number with
  | nil => exact List.forall_mem_nil _
  | cons chars lines ih =>
      rw [readLines] at h
      cases hLine : a.readLine number chars with
      | error cause =>
          rw [hLine] at h
          cases h
      | ok next =>
          rw [hLine] at h
          rw [readLine_eq, Outcome.bind_eq_ok] at hLine
          rcases hLine with ⟨found, hFound, _⟩
          rw [List.forall_mem_cons]
          exact ⟨⟨found, hFound⟩, ih h⟩

/- Only a block that is left open refuses the end of a text. -/
theorem finish_cases
    (a : Assembly) :
    (∃ p, a.finish = .ok p) ∨
      ∃ start,
        a.start? = some start ∧
          a.finish = .error ⟨start, .unterminatedFunction⟩ := by
  rcases a with ⟨functions, _ | start | ⟨start, draft⟩⟩
  · exact .inl ⟨_, rfl⟩
  · exact .inr ⟨start, rfl, rfl⟩
  · exact .inr ⟨start, rfl, rfl⟩

end Assembly

------------------------------------------------------------
-- Texts of Lines
------------------------------------------------------------

theorem Text.newline_notMem_of_mem_lines
    {cs line : List Char}
    (h : line ∈ Text.lines cs) :
    '\n' ∉ line := by
  induction cs generalizing line with
  | nil => cases h
  | cons c cs ih =>
      have hPush : Text.lines (c :: cs) = Text.pushChar c (Text.lines cs) := rfl
      rw [hPush, Text.pushChar.eq_def] at h
      split at h
      · rcases List.mem_cons.mp h with rfl | hLater
        · exact List.not_mem_nil
        · exact ih hLater
      · next hc =>
          cases hLines : Text.lines cs with
          | nil =>
              rw [hLines] at h
              cases List.mem_singleton.mp h
              simpa using Ne.symm hc
          | cons first later =>
              rw [hLines] at h ih
              rcases List.mem_cons.mp h with rfl | hLater
              · rw [List.mem_cons, not_or]
                exact ⟨Ne.symm hc, ih List.mem_cons_self⟩
              · exact ih (List.mem_cons_of_mem _ hLater)

/- Lines of a text are the lines of a text of their own. -/
theorem exists_text_of_lines
    {lines : List (List Char)}
    (h : ∀ line ∈ lines, '\n' ∉ line) :
    ∃ text : String, Text.lines text.toList = lines := by
  refine ⟨String.ofList (lines.flatMap (· ++ ['\n'])), ?_⟩
  rw [String.toList_ofList]
  induction lines with
  | nil => rfl
  | cons line lines ih =>
      rw [List.forall_mem_cons] at h
      rw [List.flatMap_cons, List.append_assoc]
      exact (Text.lines_append_newline h.1 _).trans (congrArg _ (ih h.2))

theorem assemble_eq
    (text : String) :
    assemble text =
      Assembly.empty.readLines 1 (trimmedLines text) >>= Assembly.finish := by
  rw [trimmedLines, Assembly.readLines_map_trimEnd, assemble]
  cases Assembly.empty.readLines 1 (Text.lines text.toList) <;> rfl

/- A text whose lines are read gives a program, or leaves a block open. -/
theorem assemble_of_readLines
    {text : String}
    {a : Assembly}
    (h : Assembly.empty.readLines 1 (trimmedLines text) = .ok a) :
    (∃ p, assemble text = .ok p) ∨
      ∃ start,
        a.start? = some start ∧
          assemble text = .error ⟨start, .unterminatedFunction⟩ := by
  rw [assemble_eq, h]
  exact a.finish_cases

------------------------------------------------------------
-- Main Statement
------------------------------------------------------------

/-
  The first syntax error of a text is final and local. Unless
  it is that a block is left open, it names a line of the
  text; every text with the same lines up to this one has the
  same error; and the lines before it, as a text, give a
  program or leave a block open. If a block is left open,
  every line is classified, and the error names the start mark
  behind which there is no other mark. Lines are the same when
  they differ in blanks at their ends only.
-/
theorem first_syntax_error_is_final
    {text : String}
    {e : SyntaxError}
    (h : assemble text = .error e) :
    (e.cause ≠ .unterminatedFunction →
      1 ≤ e.line ∧
        e.line ≤ (Text.lines text.toList).length ∧
        (∀ other,
          (trimmedLines other).take e.line =
              (trimmedLines text).take e.line →
            assemble other = .error e) ∧
        (∃ before : String,
          Text.lines before.toList =
            (Text.lines text.toList).take (e.line - 1)) ∧
        ∀ before,
          trimmedLines before = (trimmedLines text).take (e.line - 1) →
            (∃ p, assemble before = .ok p) ∨
              ∃ start,
                assemble before = .error ⟨start, .unterminatedFunction⟩) ∧
    (e.cause = .unterminatedFunction →
      (∀ chars ∈ Text.lines text.toList,
        ∃ found, Line.ofChars chars = .ok found) ∧
      OpensLast (Text.lines text.toList) e.line) := by
  cases hRead : Assembly.empty.readLines 1 (trimmedLines text) with
  | error refusal =>
      rw [assemble_eq, hRead] at h
      cases h
      rcases Assembly.exists_refused_line hRead with
        ⟨before, chars, behind, a, hLines, hNumber, hBefore, hRefused⟩
      have hTake : (trimmedLines text).take e.line = before ++ [chars] := by
        rw [hLines, hNumber]
        simp [List.take_append]
      have hTakeBefore : (trimmedLines text).take (e.line - 1) = before := by
        rw [hLines, hNumber, Nat.add_sub_cancel_left, List.take_left]
      refine ⟨fun _ => ⟨?_, ?_, ?_, ?_, ?_⟩, fun hCause => ?_⟩
      · omega
      · have hLength := congrArg List.length hLines
        simp only [trimmedLines, List.length_map, List.length_append,
          List.length_cons] at hLength
        omega
      · intro other hSame
        rw [hTake] at hSame
        rw [assemble_eq, ← List.take_append_drop e.line (trimmedLines other),
          hSame, List.append_assoc, List.singleton_append,
          Assembly.readLines_of_refused hNumber hBefore hRefused]
        rfl
      · apply exists_text_of_lines
        intro line hLine
        exact Text.newline_notMem_of_mem_lines (List.mem_of_mem_take hLine)
      · intro prior hPrior
        rw [hTakeBefore] at hPrior
        rw [← hPrior] at hBefore
        rcases assemble_of_readLines hBefore with hProgram | ⟨start, _, hOpen⟩
        · exact .inl hProgram
        · exact .inr ⟨start, hOpen⟩
      · rw [hCause] at hRefused
        exact absurd hRefused (a.decidedOnLine_readLine _ _)
  | ok a =>
      rcases assemble_of_readLines hRead with
        ⟨p, hProgram⟩ | ⟨start, hOpen, hError⟩
      · rw [hProgram] at h
        cases h
      · rw [hError] at h
        cases h
        refine ⟨fun hCause => absurd rfl hCause, fun _ => ?_⟩
        rw [trimmedLines, Assembly.readLines_map_trimEnd] at hRead
        have hEmpty : Assembly.empty.Accounted [] := by
          intro start hNone
          cases hNone
        exact ⟨Assembly.exists_ofChars_of_readLines hRead,
          hEmpty.readLines hRead start hOpen⟩

/- A text with an unknown operation on its third line. -/
def misspelledText : String :=
  "#start_function\r\n" ++
    "void main():\n" ++
    "  retrun\n" ++
    "#end_function\n"

/- A text whose second block is not closed. -/
def unclosedText : String :=
  "#start_function\n" ++
    "void main()\n" ++
    "#end_function\n" ++
    "\n" ++
    "#start_function\n" ++
    "int f(int x)\n" ++
    "return, x"

/-
  What stands behind the misspelled line does not matter. In
  the other text it is the second start mark that is named.
-/
theorem misspelled_line_is_final :
    assemble misspelledText = .error ⟨3, .unknownOpcode "retrun"⟩ ∧
      (∀ other,
        (trimmedLines other).take 3 = (trimmedLines misspelledText).take 3 →
          assemble other = .error ⟨3, .unknownOpcode "retrun"⟩) ∧
      assemble unclosedText = .error ⟨5, .unterminatedFunction⟩ ∧
      OpensLast (Text.lines unclosedText.toList) 5 := by
  have hMisspelled :
      assemble misspelledText = .error ⟨3, .unknownOpcode "retrun"⟩ := by
    decide +kernel
  have hUnclosed :
      assemble unclosedText = .error ⟨5, .unterminatedFunction⟩ := by
    decide +kernel
  rcases (first_syntax_error_is_final hMisspelled).1 (by simp) with
    ⟨_, _, hFinal, _⟩
  exact ⟨hMisspelled, hFinal, hUnclosed,
    ((first_syntax_error_is_final hUnclosed).2 rfl).2⟩

end ThreeAddress
