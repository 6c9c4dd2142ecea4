import ThreeAddress.Listing
import ThreeAddress.Proofs.LineTokens

/-
  This file writes classified lines as text, and shows that
  the text of a printable line spells the tokens of the line
  with nothing but spaces between them. So the text of a line
  is read back as the line, and it has no line feed in it.

  Key definitions include:
    * `Spells`
    * `Line.text`

  Main statements:
    * `Spells.join`
    * `Line.spelling`
    * `Line.newline_notMem_text`
-/

namespace ThreeAddress

open Token (Spelling sticks)

------------------------------------------------------------
-- Texts Inside a Line
------------------------------------------------------------

/- The gaps in the text of a line. -/
def IsSpace (c : Char) : Prop :=
  c = ' '

/-
  The characters spell the tokens, whatever is spelled behind
  them, unless it sticks to them.
-/
def Spells (cs : List Char) (ts : List Token) : Prop :=
  ∀ rest us,
    Stops sticks rest →
    Spelling IsSpace rest us →
    Spelling IsSpace (cs ++ rest) (ts ++ us)

/- A space sticks to nothing. -/
theorem stops_space
    (cs : List Char) :
    Stops sticks (' ' :: cs) := by
  intro c hc
  cases hc
  rfl

/- A mark sticks to nothing. -/
theorem stops_mark
    {t : Token}
    (h : t.isOpen = false)
    (cs : List Char) :
    Stops sticks (t.text.toList ++ cs) := by
  intro c hc
  cases t with
  | comma | colon | lparen | rparen | lbracket | rbracket =>
      cases hc
      rfl
  | ident name | directive name | int n | float x => cases h

theorem Stops.append
    {p : Char → Bool}
    {cs ds : List Char}
    (hFirst : Stops p cs)
    (hThen : Stops p ds) :
    Stops p (cs ++ ds) := by
  cases cs with
  | nil => exact hThen
  | cons c cs => exact hFirst

namespace Spells

theorem nil : Spells [] [] := by
  intro rest us _ hSpelled
  exact hSpelled

theorem space
    {cs : List Char}
    {ts : List Token}
    (h : Spells cs ts) :
    Spells (' ' :: cs) ts := by
  intro rest us hRest hSpelled
  exact .gap rfl (h rest us hRest hSpelled)

/- A token is spelled before what does not stick to it. -/
theorem cons
    {t : Token}
    {cs : List Char}
    {ts : List Token}
    (hToken : t.WellFormed)
    (hApart : t.isOpen = true → Stops sticks cs)
    (h : Spells cs ts) :
    Spells (t.text.toList ++ cs) (t :: ts) := by
  intro rest us hRest hSpelled
  rw [List.append_assoc]
  apply Spelling.token hToken
  · intro hOpen
    exact Stops.append (hApart hOpen) hRest
  · exact h rest us hRest hSpelled

theorem token
    {t : Token}
    (h : t.WellFormed) :
    Spells t.text.toList [t] := by
  intro rest us hRest hSpelled
  exact .token h (fun _ => hRest) hSpelled

theorem append
    {cs ds : List Char}
    {ts us : List Token}
    (hFirst : Spells cs ts)
    (hApart : Stops sticks ds)
    (hThen : Spells ds us) :
    Spells (cs ++ ds) (ts ++ us) := by
  intro rest vs hRest hSpelled
  rw [List.append_assoc, List.append_assoc]
  apply hFirst
  · exact Stops.append hApart hRest
  · exact hThen rest vs hRest hSpelled

/- Parts with commas between them are spelled one by one. -/
theorem join
    {css : List (List Char)}
    {tss : List (List Token)}
    (h : List.Forall₂ Spells css tss) :
    Spells ([',', ' '].intercalate css) (Line.joinCommas tss) := by
  induction h with
  | nil => exact nil
  | @cons cs ts css tss hHead hTail ih =>
      cases hTail with
      | nil =>
          rw [List.intercalate_singleton, Line.joinCommas,
            List.intercalate_singleton]
          exact hHead
      | cons =>
          rw [List.intercalate_cons_cons, Line.joinCommas,
            List.intercalate_cons_cons, List.append_assoc,
            List.append_assoc]
          apply hHead.append
          · exact stops_mark (t := .comma) rfl _
          · exact cons (t := .comma) trivial (by simp [Token.isOpen])
              (space ih)

/- What is spelled alone can stand on a line. -/
theorem spelling
    {cs : List Char}
    {ts : List Token}
    (h : Spells cs ts) :
    Spelling IsSpace cs ts := by
  have hAlone := h [] [] (by simp [Stops]) .nil
  rw [List.append_nil, List.append_nil] at hAlone
  exact hAlone

end Spells

------------------------------------------------------------
-- Words of the Language
------------------------------------------------------------

theorem Scalar.isName_name
    (t : Scalar) :
    IsName t.name := by
  cases t <;> rfl

theorem Scalar.isName_listKeyword
    (t : Scalar) :
    IsName t.listKeyword := by
  cases t <;> rfl

theorem ReturnType.isName_name
    (r : ReturnType) :
    IsName r.name := by
  cases r with
  | void => rfl
  | value t => exact t.isName_name

theorem Opcode.isName_mnemonic
    (op : Opcode) :
    IsName op.mnemonic := by
  cases op <;> rfl

/- A length that can be written is written in its digits. -/
theorem text_length
    {n : Nat}
    (h : n ≤ maxWrittenLength) :
    (Token.int (Int32.ofNat n)).text =
      String.ofList (Decimal.digits n) := by
  rw [Token.text, Line.toInt_ofNat_of_le h]
  rfl

------------------------------------------------------------
-- Parts of Lines
------------------------------------------------------------

/- A token in brackets is spelled behind a name. -/
theorem Spells.bracketed
    {x : String}
    {t : Token}
    {cs : List Char}
    {ts : List Token}
    (hName : IsName x)
    (hToken : t.WellFormed)
    (h : Spells cs ts) :
    Spells
      (x.toList ++ '[' :: (t.text.toList ++ ']' :: cs))
      (.ident x :: .lbracket :: t :: .rbracket :: ts) := by
  have hClose : Spells (']' :: cs) (.rbracket :: ts) :=
    cons (t := .rbracket) trivial (by simp [Token.isOpen]) h
  have hInside : Spells (t.text.toList ++ ']' :: cs)
      (t :: .rbracket :: ts) :=
    cons hToken (fun _ => stops_mark (t := .rbracket) rfl _) hClose
  have hOpen : Spells ('[' :: (t.text.toList ++ ']' :: cs))
      (.lbracket :: t :: .rbracket :: ts) :=
    cons (t := .lbracket) trivial (by simp [Token.isOpen]) hInside
  exact cons (t := .ident x) hName
    (fun _ => stops_mark (t := .lbracket) rfl _) hOpen

theorem Parameter.spells
    {p : Parameter}
    (h : p.Printable) :
    Spells p.text.toList p.tokens := by
  have hName : Spells (' ' :: p.name.toList) [.ident p.name] :=
    Spells.space (Spells.token (t := .ident p.name) h.1)
  rcases p with ⟨name, shape⟩
  cases shape with
  | scalar t =>
      have hText : (Parameter.text ⟨name, .scalar t⟩).toList =
          t.name.toList ++ ' ' :: name.toList := by
        simp [Parameter.text, Shape.text]
      rw [hText]
      exact Spells.cons (t := .ident t.name) t.isName_name
        (fun _ => stops_space _) hName
  | array t n =>
      have hText : (Parameter.text ⟨name, .array t n⟩).toList =
          t.name.toList ++ '[' ::
            ((Token.int (Int32.ofNat n)).text.toList ++
              ']' :: ' ' :: name.toList) := by
        rw [text_length h.2]
        simp [Parameter.text, Shape.text]
      rw [hText]
      exact Spells.bracketed t.isName_name trivial hName

theorem Declaration.spells
    {type : Scalar}
    {x : String × Option Nat}
    (hName : IsName x.1)
    (hLength : ∀ n ∈ x.2, n ≤ maxWrittenLength) :
    Spells (Declaration.text ⟨x.1, type, x.2, 0⟩).toList
      (Line.itemTokens x) := by
  rcases x with ⟨name, length⟩
  cases length with
  | none => exact Spells.token (t := .ident name) hName
  | some n =>
      have hText :
          (Declaration.text ⟨name, type, some n, 0⟩).toList =
            name.toList ++ '[' ::
              ((Token.int (Int32.ofNat n)).text.toList ++ [']']) := by
        rw [text_length (hLength n rfl)]
        simp [Declaration.text]
      rw [hText]
      exact Spells.bracketed hName trivial Spells.nil

theorem Operand.spells
    {x : Operand}
    (h : x.Printable) :
    Spells x.text.toList x.tokens := by
  cases x with
  | var x => exact Spells.token (t := .ident x) h
  | element a i =>
      have hIndex : i.token.WellFormed := by
        cases i with
        | var x => exact h.2
        | const n => trivial
      have hIndexText : i.text = i.token.text := by
        cases i <;> rfl
      have hText : (Operand.element a i).text.toList =
          a.toList ++ '[' :: (i.token.text.toList ++ [']']) := by
        simp [Operand.text, hIndexText]
      rw [hText]
      exact Spells.bracketed h.1 hIndex Spells.nil
  | int n => exact Spells.token (t := .int n) h
  | float x => exact Spells.token (t := .float x) h
  | label l => exact Spells.token (t := .ident l) h
  | function f => exact Spells.token (t := .ident f) h

------------------------------------------------------------
-- Lines
------------------------------------------------------------

namespace Line

/- The text of the label at the front of a line. -/
def frontText : Option String → String
| none => ""
| some l => l ++ ": "

/- The text of a line. -/
def text : Line → String
| .startFunction => "#start_function"
| .endFunction => "#end_function"
| .header returns name params =>
    returns.name ++ " " ++ name ++ "(" ++
      ", ".intercalate (params.map Parameter.text) ++ "):"
| .declarations type items =>
    type.listKeyword ++ ": " ++
      ", ".intercalate
        (items.map fun x => Declaration.text ⟨x.1, type, x.2, 0⟩)
| .label name => name ++ ":"
| .instruction front op xs =>
    frontText front ++ Instruction.text ⟨op, xs, 0⟩

/- Parts that are spelled one by one are spelled as a list. -/
theorem spells_intercalate
    {α : Type}
    {xs : List α}
    {text : α → String}
    {tokens : α → List Token}
    (h : ∀ x ∈ xs, Spells (text x).toList (tokens x)) :
    Spells (", ".intercalate (xs.map text)).toList
      (joinCommas (xs.map tokens)) := by
  rw [String.toList_intercalate]
  apply Spells.join
  rw [List.map_map, List.forall₂_map_left_iff,
    List.forall₂_map_right_iff, List.forall₂_same]
  exact h

theorem spells_header
    {returns : ReturnType}
    {name : String}
    {params : List Parameter}
    (hName : IsName name)
    (hParams : ∀ p ∈ params, p.Printable) :
    Spells (Line.header returns name params).text.toList
      (Line.header returns name params).tokens := by
  have hEnd : Spells [')', ':'] [.rparen, .colon] :=
    Spells.cons (t := .rparen) trivial (by simp [Token.isOpen])
      (Spells.token (t := .colon) trivial)
  have hList := spells_intercalate
    (fun p hp => Parameter.spells (hParams p hp))
  have hInside :=
    hList.append (stops_mark (t := .rparen) rfl [':']) hEnd
  have hOpen := Spells.cons (t := .lparen) trivial
    (by simp [Token.isOpen]) hInside
  have hFront := Spells.cons (t := .ident name) hName
    (fun _ => stops_mark (t := .lparen) rfl _) hOpen
  have hLine := Spells.cons (t := .ident returns.name)
    returns.isName_name (fun _ => stops_space _) hFront.space
  have hText : (Line.header returns name params).text.toList =
      returns.name.toList ++ ' ' :: (name.toList ++ '(' ::
        ((", ".intercalate (params.map Parameter.text)).toList ++
          [')', ':'])) := by
    simp [text]
  rw [hText]
  exact hLine

theorem spells_declarations
    {type : Scalar}
    {items : List (String × Option Nat)}
    (h : (Line.declarations type items).Printable) :
    Spells (Line.declarations type items).text.toList
      (Line.declarations type items).tokens := by
  have hList : Spells
      (", ".intercalate (items.map fun x =>
        Declaration.text ⟨x.1, type, x.2, 0⟩)).toList
      (joinCommas (items.map itemTokens)) :=
    spells_intercalate fun x hx =>
      Declaration.spells (h x hx).1 (h x hx).2
  have hColon := Spells.cons (t := .colon) trivial
    (by simp [Token.isOpen]) hList.space
  have hLine := Spells.cons (t := .ident type.listKeyword)
    type.isName_listKeyword
    (fun _ => stops_mark (t := .colon) rfl _) hColon
  have hText : (Line.declarations type items).text.toList =
      type.listKeyword.toList ++ ':' :: ' ' ::
        (", ".intercalate (items.map fun x =>
          Declaration.text ⟨x.1, type, x.2, 0⟩)).toList := by
    simp [text]
  rw [hText]
  exact hLine

theorem spells_operation
    (op : Opcode)
    {xs : List Operand}
    (h : ∀ x ∈ xs, x.Printable) :
    Spells (Instruction.text ⟨op, xs, 0⟩).toList
      (operationTokens op xs) := by
  rw [Instruction.text, String.toList_intercalate, List.map_cons,
    List.map_map]
  apply Spells.join
  refine .cons (Spells.token (t := .ident op.mnemonic)
    op.isName_mnemonic) ?_
  rw [List.forall₂_map_left_iff, List.forall₂_map_right_iff,
    List.forall₂_same]
  intro x hx
  exact Operand.spells (h x hx)

/- The text of a printable line spells its tokens. -/
theorem spelling
    {line : Line}
    (h : line.Printable) :
    Spelling IsSpace line.text.toList line.tokens := by
  apply Spells.spelling
  cases line with
  | startFunction =>
      exact Spells.token (t := .directive "start_function") rfl
  | endFunction =>
      exact Spells.token (t := .directive "end_function") rfl
  | header returns name params => exact spells_header h.1 h.2
  | declarations type items => exact spells_declarations h
  | label name =>
      have hText : (Line.label name).text.toList =
          name.toList ++ [':'] := by
        simp [text]
      rw [hText]
      exact Spells.cons (t := .ident name) h.1
        (fun _ => stops_mark (t := .colon) rfl [])
        (Spells.token (t := .colon) trivial)
  | instruction front op xs =>
      have hOperation := spells_operation op h.2.printable
      cases front with
      | none =>
          have hText : (Line.instruction none op xs).text =
              Instruction.text ⟨op, xs, 0⟩ := String.empty_append
          rw [hText]
          exact hOperation
      | some l =>
          have hText :
              (Line.instruction (some l) op xs).text.toList =
                l.toList ++ ':' :: ' ' ::
                  (Instruction.text ⟨op, xs, 0⟩).toList := by
            simp [text, frontText]
          rw [hText]
          exact Spells.cons (t := .ident l) (h.1 l rfl).1
            (fun _ => stops_mark (t := .colon) rfl _)
            (Spells.cons (t := .colon) trivial
              (by simp [Token.isOpen]) hOperation.space)

theorem newline_notMem_text
    {line : Line}
    (h : line.Printable) :
    '\n' ∉ line.text.toList := by
  intro hNewline
  rcases (spelling h).isVisible_or_gap _ hNewline with hVis | hSpace
  · exact Token.ne_newline_of_isVisible hVis rfl
  · cases hSpace

/- The tokens of the text of a printable line. -/
theorem ofLine_text
    {line : Line}
    (h : line.Printable) :
    Token.ofLine line.text.toList = .ok line.tokens := by
  apply (spelling h).ofLine_eq_ok
  intro c hc
  cases hc
  rfl

end Line

end ThreeAddress
