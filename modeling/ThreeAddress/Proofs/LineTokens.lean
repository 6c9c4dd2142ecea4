import Mathlib.Tactic.MkIffOfInductiveProp
import ThreeAddress.Line
import ThreeAddress.Proofs.Outcome
import ThreeAddress.Proofs.TokenText

/-
  This file relates classified lines to their tokens.

  A line is printable when its names are words, its array
  lengths can be written, its numbers are finite and its
  operands are those that its operation takes. Printable
  lines are exactly those that are read: the tokens of a
  printable line make up the line, and whatever tokens make
  up a line, the line is printable.

  Key definitions include:
    * `IsName`, `IsLabelName`
    * `Operand.Printable`, `OperandKind.admits`
    * `Opcode.Takes`
    * `Line.Printable`
    * `Line.tokens`

  Main statements:
    * `Line.ofTokens_tokens`
    * `Line.printable_of_ofTokens`
-/

namespace ThreeAddress

------------------------------------------------------------
-- Printable Parts
------------------------------------------------------------

/- A name is a word. -/
def IsName (x : String) : Prop :=
  Token.isWord x.toList = true

instance (x : String) : Decidable (IsName x) :=
  inferInstanceAs (Decidable (Token.isWord x.toList = true))

/- A label is named by no word that opens a list. -/
def IsLabelName (x : String) : Prop :=
  IsName x ∧ ∀ t : Scalar, x ≠ t.listKeyword

instance (x : String) : Decidable (IsLabelName x) :=
  decidable_of_iff
    (IsName x ∧ ∀ t ∈ [Scalar.int, .float], x ≠ t.listKeyword)
    (by
      apply and_congr_right
      intro _
      constructor
      · intro h t
        apply h
        cases t <;> simp
      · intro h t _
        exact h t)

/- The largest length that can be written for an array. -/
def maxWrittenLength : Nat := 2147483647

namespace Shape

/- The length of an array can be written. -/
def Printable : Shape → Prop
| .scalar _ => True
| .array _ n => n ≤ maxWrittenLength

instance : (shape : Shape) → Decidable shape.Printable
| .scalar _ => inferInstanceAs (Decidable True)
| .array _ n => inferInstanceAs (Decidable (n ≤ maxWrittenLength))

end Shape

namespace Parameter

/- The name and the shape can be written. -/
def Printable (p : Parameter) : Prop :=
  IsName p.name ∧ p.shape.Printable

instance (p : Parameter) : Decidable p.Printable :=
  inferInstanceAs (Decidable (IsName p.name ∧ p.shape.Printable))

end Parameter

namespace Declaration

/- The name and the length, if there is one, can be written. -/
def Printable (d : Declaration) : Prop :=
  IsName d.name ∧ ∀ n ∈ d.length, n ≤ maxWrittenLength

instance (d : Declaration) : Decidable d.Printable :=
  inferInstanceAs (Decidable
    (IsName d.name ∧ ∀ n ∈ d.length, n ≤ maxWrittenLength))

end Declaration

namespace Index

/- The name of a variable index can be written. -/
def Printable : Index String → Prop
| .var x => IsName x
| .const _ => True

instance : (i : Index String) → Decidable i.Printable
| .var x => inferInstanceAs (Decidable (IsName x))
| .const _ => inferInstanceAs (Decidable True)

end Index

namespace Operand

/- The names can be written, and a number is finite. -/
def Printable : Operand → Prop
| .var x => IsName x
| .element a i => IsName a ∧ i.Printable
| .int _ => True
| .float x => x.isFinite = true
| .label l => IsName l
| .function f => IsName f

instance : (x : Operand) → Decidable x.Printable
| .var x => inferInstanceAs (Decidable (IsName x))
| .element a i => inferInstanceAs (Decidable (IsName a ∧ i.Printable))
| .int _ => inferInstanceAs (Decidable True)
| .float x => inferInstanceAs (Decidable (x.isFinite = true))
| .label l => inferInstanceAs (Decidable (IsName l))
| .function f => inferInstanceAs (Decidable (IsName f))

/- The operand is a variable, an element or a number. -/
def isValue : Operand → Bool
| .label _ => false
| .function _ => false
| _ => true

end Operand

/- An operand has the form that its position expects. -/
def OperandKind.admits : OperandKind → Operand → Bool
| .destination, x => x.isValue
| .value, x => x.isValue
| .label, .label _ => true
| .function, .function _ => true
| .array, .var _ => true
| _, _ => false

/- The operands fit an operation in number and form. -/
@[mk_iff]
structure Opcode.Takes
    (op : Opcode)
    (xs : List Operand) : Prop where
  count : op.arity.admits xs.length = true
  printable : ∀ x ∈ xs, x.Printable
  forms : ∀ x ∈ xs.zipIdx, (op.operandKind x.2).admits x.1 = true

instance
    (op : Opcode)
    (xs : List Operand) :
    Decidable (op.Takes xs) :=
  decidable_of_iff _ (Opcode.takes_iff op xs).symm

namespace Line

/- All parts of a line can be written. -/
def Printable : Line → Prop
| .startFunction => True
| .endFunction => True
| .header _ name params => IsName name ∧ ∀ p ∈ params, p.Printable
| .declarations _ items =>
    ∀ x ∈ items, IsName x.1 ∧ ∀ n ∈ x.2, n ≤ maxWrittenLength
| .label name => IsLabelName name
| .instruction front op xs =>
    (∀ l ∈ front, IsLabelName l) ∧ op.Takes xs

end Line

------------------------------------------------------------
-- Tokens of Lines
------------------------------------------------------------

namespace Parameter

/- The tokens of a parameter. -/
def tokens (p : Parameter) : List Token :=
  match p.shape with
  | .scalar t => [.ident t.name, .ident p.name]
  | .array t n =>
      [.ident t.name, .lbracket, .int (Int32.ofNat n), .rbracket,
        .ident p.name]

end Parameter

namespace Index

/- The token of an index. -/
def token : Index String → Token
| .var x => .ident x
| .const n => .int n

end Index

namespace Operand

/- The tokens of an operand. -/
def tokens : Operand → List Token
| .var x => [.ident x]
| .element a i => [.ident a, .lbracket, i.token, .rbracket]
| .int n => [.int n]
| .float x => [.float x]
| .label l => [.ident l]
| .function f => [.ident f]

end Operand

namespace Line

/- The tokens of a declared name. -/
def itemTokens (x : String × Option Nat) : List Token :=
  match x.2 with
  | none => [.ident x.1]
  | some n =>
      [.ident x.1, .lbracket, .int (Int32.ofNat n), .rbracket]

/- Runs of tokens with commas between them. -/
def joinCommas (runs : List (List Token)) : List Token :=
  [Token.comma].intercalate runs

/- The label at the front of a line. -/
def frontTokens : Option String → List Token
| none => []
| some l => [.ident l, .colon]

/- The tokens of an operation with its operands. -/
def operationTokens (op : Opcode) (xs : List Operand) : List Token :=
  joinCommas ([.ident op.mnemonic] :: xs.map Operand.tokens)

/- The tokens of a line. -/
def tokens : Line → List Token
| .startFunction => [.directive "start_function"]
| .endFunction => [.directive "end_function"]
| .header returns name params =>
    .ident returns.name :: .ident name :: .lparen ::
      (joinCommas (params.map Parameter.tokens) ++ [.rparen, .colon])
| .declarations type items =>
    .ident type.listKeyword :: .colon ::
      joinCommas (items.map itemTokens)
| .label name => [.ident name, .colon]
| .instruction front op xs =>
    frontTokens front ++ operationTokens op xs

------------------------------------------------------------
-- Runs Between Commas
------------------------------------------------------------

theorem splitCommas_cons
    (t : Token)
    (ts : List Token) :
    splitCommas (t :: ts) = pushToken t (splitCommas ts) := rfl

/- Splitting at commas is splitting at one member of a list. -/
theorem splitCommas_eq_splitOn
    (ts : List Token) :
    splitCommas ts = ts.splitOn .comma := by
  induction ts with
  | nil => rfl
  | cons t ts ih =>
      rw [splitCommas_cons, ih, List.splitOn_cons_eq_if_modifyHead]
      have hNe := List.splitOn_ne_nil Token.comma ts
      by_cases hComma : t = .comma
      · simp [pushToken, hComma]
      · cases hRuns : ts.splitOn .comma with
        | nil => exact absurd hRuns hNe
        | cons run runs => simp [pushToken, hComma]

theorem splitCommas_joinCommas
    {runs : List (List Token)}
    (hNe : runs ≠ [])
    (hFree : ∀ run ∈ runs, Token.comma ∉ run) :
    splitCommas (joinCommas runs) = runs := by
  rw [splitCommas_eq_splitOn]
  exact List.splitOn_intercalate _ hFree hNe

/- The runs hold no other tokens. -/
theorem mem_of_mem_splitCommas
    {t : Token}
    {ts run : List Token}
    (hRun : run ∈ splitCommas ts)
    (ht : t ∈ run) :
    t ∈ ts := by
  rw [splitCommas_eq_splitOn] at hRun
  rcases List.mem_iff_getElem?.mp hRun with ⟨k, hk⟩
  have hMember :
      (List.intersperse [.comma] (ts.splitOn .comma))[2 * k]? =
        some run := by
    rw [List.getElem?_intersperse_two_mul, hk]
  have hJoin : joinCommas (ts.splitOn .comma) = ts :=
    List.intercalate_splitOn _
  rw [← hJoin]
  exact List.mem_flatten_of_mem (List.mem_of_getElem? hMember) ht

/- Joined runs hold their tokens and commas. -/
theorem mem_joinCommas
    {t : Token}
    {runs : List (List Token)}
    (h : t ∈ joinCommas runs) :
    t = .comma ∨ ∃ run ∈ runs, t ∈ run := by
  induction runs with
  | nil => cases h
  | cons run runs ih =>
      cases runs with
      | nil =>
          rw [joinCommas, List.intercalate_singleton] at h
          exact .inr ⟨run, List.mem_cons_self, h⟩
      | cons next runs =>
          rw [joinCommas, List.intercalate_cons_cons,
            List.append_assoc, List.mem_append] at h
          rcases h with hRun | hRest
          · exact .inr ⟨run, List.mem_cons_self, hRun⟩
          · rcases List.mem_cons.mp hRest with hComma | hTail
            · exact .inl hComma
            · rcases ih hTail with hComma | ⟨other, hOther, ht⟩
              · exact .inl hComma
              · exact .inr
                  ⟨other, List.mem_cons_of_mem _ hOther, ht⟩

theorem joinCommas_ne_nil
    {run : List Token}
    {runs : List (List Token)}
    (h : run ≠ []) :
    joinCommas (run :: runs) ≠ [] := by
  cases runs with
  | nil =>
      rw [joinCommas, List.intercalate_singleton]
      exact h
  | cons next runs =>
      rw [joinCommas, List.intercalate_cons_cons]
      simp

------------------------------------------------------------
-- Reading the Tokens of a Line
------------------------------------------------------------

/- A length that can be written is a word. -/
theorem toInt_ofNat_of_le
    {n : Nat}
    (h : n ≤ maxWrittenLength) :
    (Int32.ofNat n).toInt = n := by
  apply Int32.toInt_ofNat_of_lt
  unfold maxWrittenLength at h
  omega

theorem readLength_ofNat
    {n : Nat}
    (h : n ≤ maxWrittenLength) :
    readLength (Int32.ofNat n) = .ok n := by
  rw [readLength, toInt_ofNat_of_le h, if_neg (by omega),
    Int.toNat_natCast]

/- Members that are read back one by one are read back together. -/
theorem mapM_map_eq_ok
    {α β : Type}
    {read : β → Except SyntaxCause α}
    {write : α → β}
    {xs : List α}
    (h : ∀ x ∈ xs, read (write x) = .ok x) :
    (xs.map write).mapM read = .ok xs := by
  rw [Outcome.mapM_eq_ok, List.forall₂_map_left_iff,
    List.forall₂_same]
  exact h

theorem readParameter_tokens
    {p : Parameter}
    (h : p.shape.Printable) :
    readParameter p.tokens = .ok p := by
  rcases p with ⟨name, shape⟩
  cases shape with
  | scalar t => simp [Parameter.tokens, readParameter]
  | array t n =>
      simp [Parameter.tokens, readParameter, readLength_ofNat h,
        Except.map]

theorem readParameters_tokens
    {ps : List Parameter}
    (h : ∀ p ∈ ps, p.shape.Printable) :
    readParameters (joinCommas (ps.map Parameter.tokens)) =
      .ok ps := by
  cases ps with
  | nil => rfl
  | cons p ps =>
      have hNe : p.tokens ≠ [] := by
        rcases p with ⟨name, _ | _⟩
        all_goals simp [Parameter.tokens]
      have hFree : ∀ run ∈ (p :: ps).map Parameter.tokens,
          Token.comma ∉ run := by
        intro run hRun
        rcases List.mem_map.mp hRun with ⟨⟨name, shape⟩, _, hTokens⟩
        subst hTokens
        cases shape with
        | scalar t => simp [Parameter.tokens]
        | array t n => simp [Parameter.tokens]
      rw [readParameters, if_neg, splitCommas_joinCommas _ hFree]
      · apply mapM_map_eq_ok
        intro q hq
        exact readParameter_tokens (h q hq)
      · simp
      · rw [List.isEmpty_iff, List.map_cons]
        exact joinCommas_ne_nil hNe

/- The parameters of a header end at its closing parenthesis. -/
theorem readHeader_tokens
    {returns : ReturnType}
    {name : String}
    {ps : List Parameter}
    (h : ∀ p ∈ ps, p.shape.Printable) :
    readHeader returns name
        (joinCommas (ps.map Parameter.tokens) ++
          [.rparen, .colon]) =
      .ok (.header returns name ps) := by
  have hFree : ∀ t ∈ joinCommas (ps.map Parameter.tokens),
      decide (t ≠ .rparen) = true := by
    intro t ht
    rcases mem_joinCommas ht with hComma | ⟨run, hRun, hMem⟩
    · subst hComma
      rfl
    · rcases List.mem_map.mp hRun with ⟨⟨x, shape⟩, _, hTokens⟩
      subst hTokens
      cases shape with
      | scalar s =>
          simp only [Parameter.tokens, List.mem_cons,
            List.not_mem_nil, or_false] at hMem
          rcases hMem with hEq | hEq
          all_goals simp [hEq]
      | array s n =>
          simp only [Parameter.tokens, List.mem_cons,
            List.not_mem_nil, or_false] at hMem
          rcases hMem with hEq | hEq | hEq | hEq | hEq
          all_goals simp [hEq]
  rw [readHeader, List.dropWhile_append_of_pos hFree,
    List.takeWhile_append_of_pos hFree]
  simp [readParameters_tokens h, headerEnd, Except.map]

theorem readDeclaration_itemTokens
    {x : String × Option Nat}
    (h : ∀ n ∈ x.2, n ≤ maxWrittenLength) :
    readDeclaration (itemTokens x) = .ok x := by
  rcases x with ⟨name, length⟩
  cases length with
  | none => rfl
  | some n =>
      show (readLength (Int32.ofNat n)).map
        (fun length => (name, some length)) = _
      rw [readLength_ofNat (h n rfl)]
      rfl

theorem readDeclarations_tokens
    {type : Scalar}
    {items : List (String × Option Nat)}
    (h : ∀ x ∈ items, ∀ n ∈ x.2, n ≤ maxWrittenLength) :
    readDeclarations type (joinCommas (items.map itemTokens)) =
      .ok (.declarations type items) := by
  cases items with
  | nil => rfl
  | cons x items =>
      have hNe : itemTokens x ≠ [] := by
        rcases x with ⟨name, _ | _⟩
        all_goals simp [itemTokens]
      have hFree : ∀ run ∈ (x :: items).map itemTokens,
          Token.comma ∉ run := by
        intro run hRun
        rcases List.mem_map.mp hRun with ⟨⟨name, length⟩, _, hTokens⟩
        subst hTokens
        cases length with
        | none => simp [itemTokens]
        | some n => simp [itemTokens]
      have hRead : ((x :: items).map itemTokens).mapM
          readDeclaration = .ok (x :: items) := by
        apply mapM_map_eq_ok
        intro y hy
        exact readDeclaration_itemTokens (h y hy)
      rw [readDeclarations, if_neg,
        splitCommas_joinCommas (by simp) hFree, hRead]
      · rfl
      · rw [List.isEmpty_iff, List.map_cons]
        exact joinCommas_ne_nil hNe

theorem readOperand_tokens
    {kind : OperandKind}
    {x : Operand}
    (h : kind.admits x = true) :
    readOperand kind x.tokens = .ok x := by
  cases kind with
  | destination | value =>
      cases x with
      | var x | int n | float x => rfl
      | element a i => cases i <;> rfl
      | label l | function f => cases h
  | label | function | array =>
      cases x
      all_goals first
        | rfl
        | cases h

/- Every operand is read for its own position. -/
theorem readOperands_tokens
    {op : Opcode}
    {xs : List Operand}
    (h : ∀ x ∈ xs.zipIdx, (op.operandKind x.2).admits x.1 = true) :
    readOperands op (xs.map Operand.tokens) = .ok xs := by
  rw [readOperands, List.zipIdx_map, Outcome.mapM_eq_ok,
    List.forall₂_map_left_iff]
  nth_rewrite 2 [← List.zipIdx_map_fst 0 xs]
  rw [List.forall₂_map_right_iff, List.forall₂_same]
  intro x hx
  exact readOperand_tokens (h x hx)

theorem checkCount_of_admits
    {op : Opcode}
    {count : Nat}
    (h : op.arity.admits count = true) :
    checkCount op count = .ok () := by
  have hAssign : ¬(op = .assign ∧ count = 3) := by
    intro hThree
    rw [hThree.1, hThree.2] at h
    cases h
  rw [checkCount, if_neg hAssign, if_pos h]

theorem comma_notMem_tokens
    (x : Operand) :
    Token.comma ∉ x.tokens := by
  cases x with
  | element a i => cases i <;> simp [Operand.tokens, Index.token]
  | var x | int n | float x | label l | function f =>
      simp [Operand.tokens]

theorem readInstruction_tokens
    {op : Opcode}
    {xs : List Operand}
    (h : op.Takes xs)
    (front : Option String) :
    readInstruction front (operationTokens op xs) =
      .ok (.instruction front op xs) := by
  have hFree : ∀ run ∈ [.ident op.mnemonic] ::
      xs.map Operand.tokens, Token.comma ∉ run := by
    intro run hRun
    rcases List.mem_cons.mp hRun with hHead | hTail
    · subst hHead
      simp
    · rcases List.mem_map.mp hTail with ⟨x, _, hTokens⟩
      subst hTokens
      exact comma_notMem_tokens x
  rw [readInstruction, operationTokens,
    splitCommas_joinCommas (by simp) hFree]
  simp [readOpcode, readName, checkCount_of_admits h.count,
    readOperands_tokens h.forms, Except.map]

/- Behind a mnemonic stands nothing or a comma. -/
theorem exists_operationTokens
    (op : Opcode)
    (xs : List Operand) :
    ∃ rest, operationTokens op xs = .ident op.mnemonic :: rest ∧
      (rest = [] ∨ ∃ tail, rest = .comma :: tail) := by
  cases xs with
  | nil => exact ⟨[], rfl, .inl rfl⟩
  | cons x xs =>
      rw [operationTokens, joinCommas, List.map_cons,
        List.intercalate_cons_cons]
      exact ⟨_, rfl, .inr ⟨_, rfl⟩⟩

/- A word that no colon or parenthesis follows is a mnemonic. -/
theorem readWordLine_operation
    {word : String}
    {rest : List Token}
    (h : rest = [] ∨ ∃ tail, rest = .comma :: tail) :
    readWordLine word rest =
      readInstruction none (.ident word :: rest) := by
  unfold readWordLine
  rcases h with hNil | ⟨tail, hComma⟩
  · subst hNil
    cases ReturnType.ofName? word <;> rfl
  · subst hComma
    cases ReturnType.ofName? word <;> rfl

theorem readWordLine_colon
    (word : String)
    (ts : List Token) :
    readWordLine word (.colon :: ts) = readLabelled word ts := by
  unfold readWordLine
  cases ReturnType.ofName? word <;> rfl

theorem readLabelled_listKeyword
    (type : Scalar)
    (ts : List Token) :
    readLabelled type.listKeyword ts = readDeclarations type ts := by
  cases type <;> rfl

theorem readLabelled_of_isLabelName
    {word : String}
    (h : IsLabelName word)
    (ts : List Token) :
    readLabelled word ts =
      if ts.isEmpty then .ok (.label word)
      else readInstruction (some word) ts := by
  rw [readLabelled, if_neg (h.2 .int), if_neg (h.2 .float)]

/- The tokens of a printable line make up the line. -/
theorem ofTokens_tokens
    {line : Line}
    (h : line.Printable) :
    ofTokens line.tokens = .ok (some line) := by
  cases line with
  | startFunction => rfl
  | endFunction => rfl
  | header returns name params =>
      have hShapes : ∀ p ∈ params, p.shape.Printable :=
        fun p hp => (h.2 p hp).2
      simp [tokens, ofTokens, readWordLine,
        readHeader_tokens hShapes, Except.map]
  | declarations type items =>
      have hLengths : ∀ x ∈ items, ∀ n ∈ x.2,
          n ≤ maxWrittenLength :=
        fun x hx => (h x hx).2
      simp [tokens, ofTokens, readWordLine_colon,
        readLabelled_listKeyword, readDeclarations_tokens hLengths,
        Except.map]
  | label name =>
      simp [tokens, ofTokens, readWordLine_colon,
        readLabelled_of_isLabelName h, Except.map]
  | instruction front op xs =>
      have hRead := readInstruction_tokens h.2 front
      rcases exists_operationTokens op xs with ⟨rest, hTokens, hRest⟩
      rw [hTokens] at hRead
      cases front with
      | none =>
          simp only [tokens, frontTokens, List.nil_append, hTokens,
            ofTokens, readWordLine_operation hRest, hRead, Except.map]
      | some l =>
          simp [tokens, frontTokens, hTokens, ofTokens,
            readWordLine_colon,
            readLabelled_of_isLabelName (h.1 l rfl), hRead,
            Except.map]

------------------------------------------------------------
-- Only Printable Lines Are Read
------------------------------------------------------------

/- What holds of whatever is read holds of all that are read. -/
theorem forall_of_mapM_eq_ok
    {α β : Type}
    {read : β → Except SyntaxCause α}
    {P : α → Prop}
    {xs : List β}
    {ys : List α}
    (h : xs.mapM read = .ok ys)
    (hRead : ∀ x ∈ xs, ∀ y, read x = .ok y → P y) :
    ∀ y ∈ ys, P y := by
  intro y hy
  rcases List.mem_iff_getElem?.mp hy with ⟨k, hk⟩
  rcases Outcome.exists_left (Outcome.mapM_eq_ok.mp h) hk with
    ⟨x, hx, hOk⟩
  exact hRead x (List.mem_of_getElem? hx) y hOk

theorem le_of_readLength
    {n : Int32}
    {length : Nat}
    (h : readLength n = .ok length) :
    length ≤ maxWrittenLength := by
  unfold readLength at h
  split at h
  · cases h
  · cases h
    have hBound := n.toInt_lt
    unfold maxWrittenLength
    omega

theorem printable_of_readParameter
    {ts : List Token}
    {p : Parameter}
    (hTokens : ∀ t ∈ ts, t.WellFormed)
    (h : readParameter ts = .ok p) :
    p.Printable := by
  unfold readParameter at h
  split at h
  · cases h
  · next word rest =>
      split at h
      · cases h
      · next t ht =>
          split at h
          · next name =>
              cases h
              exact ⟨hTokens (.ident name) (by simp), trivial⟩
          · next n name =>
              rcases Outcome.map_eq_ok.mp h with ⟨length, hLength, hp⟩
              subst hp
              exact ⟨hTokens (.ident name) (by simp),
                le_of_readLength hLength⟩
          · cases h
          · cases h
  · cases h

theorem printable_of_readParameters
    {ts : List Token}
    {ps : List Parameter}
    (hTokens : ∀ t ∈ ts, t.WellFormed)
    (h : readParameters ts = .ok ps) :
    ∀ p ∈ ps, p.Printable := by
  unfold readParameters at h
  split at h
  · cases h
    simp
  · refine forall_of_mapM_eq_ok h ?_
    intro run hRun p hp
    apply printable_of_readParameter _ hp
    intro t ht
    exact hTokens t (mem_of_mem_splitCommas hRun ht)

theorem printable_of_readHeader
    {returns : ReturnType}
    {name : String}
    {ts : List Token}
    {line : Line}
    (hName : IsName name)
    (hTokens : ∀ t ∈ ts, t.WellFormed)
    (h : readHeader returns name ts = .ok line) :
    line.Printable := by
  unfold readHeader at h
  split at h
  · cases h
  · split at h
    · cases h
    · next params hParams =>
        rcases Outcome.map_eq_ok.mp h with ⟨_, _, hLine⟩
        subst hLine
        refine ⟨hName, printable_of_readParameters ?_ hParams⟩
        intro t ht
        exact hTokens t ((List.takeWhile_prefix _).subset ht)

theorem printable_of_readDeclaration
    {ts : List Token}
    {x : String × Option Nat}
    (hTokens : ∀ t ∈ ts, t.WellFormed)
    (h : readDeclaration ts = .ok x) :
    IsName x.1 ∧ ∀ n ∈ x.2, n ≤ maxWrittenLength := by
  -- A name alone, or a name with a length in brackets.
  rcases ts with _ | ⟨t, ts⟩
  · cases h
  · cases t with
    | ident name =>
        have hName : IsName name := hTokens (.ident name) (by simp)
        rcases ts with _ | ⟨u, _ | ⟨v, _ | ⟨w, ts⟩⟩⟩
        · cases h
          exact ⟨hName, by simp⟩
        · cases u <;> cases h
        · cases u
          case lbracket => cases v <;> cases h
          all_goals cases h
        · cases u
          case lbracket =>
            cases v
            case int n =>
              cases w
              case rbracket =>
                cases ts with
                | nil =>
                    rcases Outcome.map_eq_ok.mp h with
                      ⟨length, hLength, hx⟩
                    subst hx
                    refine ⟨hName, ?_⟩
                    intro k hk
                    cases hk
                    exact le_of_readLength hLength
                | cons extra ts => cases h
              all_goals cases h
            all_goals cases h
          all_goals cases h
    | _ => cases h

theorem printable_of_readDeclarations
    {type : Scalar}
    {ts : List Token}
    {line : Line}
    (hTokens : ∀ t ∈ ts, t.WellFormed)
    (h : readDeclarations type ts = .ok line) :
    line.Printable := by
  unfold readDeclarations at h
  split at h
  · cases h
    exact fun x hx => by cases hx
  · rcases Outcome.map_eq_ok.mp h with ⟨items, hItems, hLine⟩
    subst hLine
    refine forall_of_mapM_eq_ok hItems ?_
    intro run hRun x hx
    apply printable_of_readDeclaration _ hx
    intro t ht
    exact hTokens t (mem_of_mem_splitCommas hRun ht)

theorem isName_of_readName
    {ts : List Token}
    {name : String}
    (hTokens : ∀ t ∈ ts, t.WellFormed)
    (h : readName ts = .ok name) :
    IsName name := by
  unfold readName at h
  split at h
  · next word =>
      cases h
      exact hTokens (.ident name) (by simp)
  all_goals cases h

theorem printable_of_readIndex
    {t : Token}
    {i : Index String}
    (hToken : t.WellFormed)
    (h : readIndex t = .ok i) :
    i.Printable := by
  unfold readIndex at h
  split at h
  · cases h
    exact hToken
  · cases h
    trivial
  · cases h

theorem printable_of_readValue
    {ts : List Token}
    {x : Operand}
    (hTokens : ∀ t ∈ ts, t.WellFormed)
    (h : readValue ts = .ok x) :
    x.Printable ∧ x.isValue = true := by
  unfold readValue at h
  split at h
  · next name =>
      cases h
      exact ⟨hTokens (.ident name) (by simp), rfl⟩
  · cases h
    exact ⟨trivial, rfl⟩
  · next value =>
      cases h
      exact ⟨hTokens (.float value) (by simp), rfl⟩
  · next a i =>
      rcases Outcome.map_eq_ok.mp h with ⟨index, hIndex, hx⟩
      subst hx
      refine ⟨⟨hTokens (.ident a) (by simp), ?_⟩, rfl⟩
      exact printable_of_readIndex (hTokens i (by simp)) hIndex
  all_goals cases h

theorem printable_of_readOperand
    {kind : OperandKind}
    {ts : List Token}
    {x : Operand}
    (hTokens : ∀ t ∈ ts, t.WellFormed)
    (h : readOperand kind ts = .ok x) :
    x.Printable ∧ kind.admits x = true := by
  cases kind with
  | destination | value => exact printable_of_readValue hTokens h
  | label | function | array =>
      rcases Outcome.map_eq_ok.mp h with ⟨name, hName, hx⟩
      subst hx
      exact ⟨isName_of_readName hTokens hName, rfl⟩

theorem takes_of_readOperands
    {op : Opcode}
    {runs : List (List Token)}
    {xs : List Operand}
    (hTokens : ∀ run ∈ runs, ∀ t ∈ run, t.WellFormed)
    (hCount : checkCount op runs.length = .ok ())
    (h : readOperands op runs = .ok xs) :
    op.Takes xs := by
  have hAll := Outcome.mapM_eq_ok.mp h
  have hRead : ∀ k x, xs[k]? = some x →
      x.Printable ∧ (op.operandKind k).admits x = true := by
    intro k x hx
    rcases Outcome.exists_left hAll hx with ⟨run, hRun, hOk⟩
    rw [List.getElem?_zipIdx, Option.map_eq_some_iff] at hRun
    rcases hRun with ⟨ts, hts, hPair⟩
    subst hPair
    rw [Nat.zero_add] at hOk
    exact printable_of_readOperand
      (hTokens ts (List.mem_of_getElem? hts)) hOk
  refine ⟨?_, ?_, ?_⟩
  · have hLength := hAll.length_eq
    rw [List.length_zipIdx] at hLength
    rw [← hLength]
    unfold checkCount at hCount
    split at hCount
    · cases hCount
    · split at hCount
      · assumption
      · cases hCount
  · intro x hx
    rcases List.mem_iff_getElem?.mp hx with ⟨k, hk⟩
    exact (hRead k x hk).1
  · intro x hx
    exact (hRead x.2 x.1 (List.mem_zipIdx_iff_getElem?.mp hx)).2

theorem printable_of_readInstruction
    {front : Option String}
    {ts : List Token}
    {line : Line}
    (hFront : ∀ l ∈ front, IsLabelName l)
    (hTokens : ∀ t ∈ ts, t.WellFormed)
    (h : readInstruction front ts = .ok line) :
    line.Printable := by
  unfold readInstruction at h
  split at h
  · cases h
  · next head runs hSplit =>
      split at h
      · cases h
      · next op hOpcode =>
          split at h
          · cases h
          · next hCount =>
              rcases Outcome.map_eq_ok.mp h with ⟨xs, hxs, hLine⟩
              subst hLine
              refine ⟨hFront, takes_of_readOperands ?_ hCount hxs⟩
              intro run hRun t ht
              have hMember : run ∈ splitCommas ts := by
                rw [hSplit]
                exact List.mem_cons_of_mem _ hRun
              exact hTokens t (mem_of_mem_splitCommas hMember ht)

theorem printable_of_readDirective
    {word : String}
    {ts : List Token}
    {line : Line}
    (h : readDirective word ts = .ok line) :
    line.Printable := by
  unfold readDirective at h
  split at h
  · cases h
  · split at h
    · cases h
      trivial
    · split at h
      · cases h
        trivial
      · cases h

theorem printable_of_readLabelled
    {word : String}
    {ts : List Token}
    {line : Line}
    (hWord : IsName word)
    (hTokens : ∀ t ∈ ts, t.WellFormed)
    (h : readLabelled word ts = .ok line) :
    line.Printable := by
  unfold readLabelled at h
  split at h
  · exact printable_of_readDeclarations hTokens h
  · next hInt =>
      split at h
      · exact printable_of_readDeclarations hTokens h
      · next hFloat =>
          have hLabel : IsLabelName word := by
            refine ⟨hWord, ?_⟩
            intro t
            cases t with
            | int => exact hInt
            | float => exact hFloat
          split at h
          · cases h
            exact hLabel
          · apply printable_of_readInstruction _ hTokens h
            intro l hl
            cases hl
            exact hLabel

theorem printable_of_readWordLine
    {word : String}
    {ts : List Token}
    {line : Line}
    (hTokens : ∀ t ∈ .ident word :: ts, t.WellFormed)
    (h : readWordLine word ts = .ok line) :
    line.Printable := by
  have hWord : IsName word := hTokens (.ident word) (by simp)
  unfold readWordLine at h
  split at h
  · next returns name rest _ =>
      apply printable_of_readHeader _ _ h
      · exact hTokens (.ident name) (by simp)
      · intro t ht
        exact hTokens t (by simp [ht])
  · apply printable_of_readLabelled hWord _ h
    intro t ht
    exact hTokens t (by simp [ht])
  · exact printable_of_readInstruction (by simp) hTokens h

/- Whatever tokens make up a line, the line is printable. -/
theorem printable_of_ofTokens
    {ts : List Token}
    {line : Line}
    (hTokens : ∀ t ∈ ts, t.WellFormed)
    (h : ofTokens ts = .ok (some line)) :
    line.Printable := by
  unfold ofTokens at h
  split at h
  · cases h
  · rcases Outcome.map_eq_ok.mp h with ⟨_, hRead, hLine⟩
    cases hLine
    exact printable_of_readDirective hRead
  · rcases Outcome.map_eq_ok.mp h with ⟨_, hRead, hLine⟩
    cases hLine
    exact printable_of_readWordLine hTokens hRead
  · cases h

end Line

end ThreeAddress
