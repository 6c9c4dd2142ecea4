import Mathlib.Data.List.Induction
import ThreeAddress.Proofs.RoundTrip

/-
  This file shows that the assembler accepts exactly the texts
  whose lines make up function blocks, and that nothing of a
  block is lost: the functions of the program are those that
  the blocks describe.

  The blocks are described on their own, as a grammar of
  classified lines. The assembler goes through the lines with
  the draft of a function; the draft is always that of the
  block as far as it has been read.

  Key definitions include:
    * `IsClassified`
    * `OpenBlock`, `SourceBlock`
    * `SourceBlock.lines`, `OpenBlock.function`
    * `Assembly.HasRead`

  Main statements:
    * `Assembly.readLines_eq_ok_iff`
    * `OpenBlock.draft_addList`, `OpenBlock.draft_addLine`
    * `Assembly.HasRead.accept`
    * `Assembly.acceptLines_blocks`
    * `assemble_accepts_block_grammar`
-/

namespace ThreeAddress

------------------------------------------------------------
-- Classified Lines
------------------------------------------------------------

/- The characters of a line are cut into tokens. -/
def Tokenizes (chars : List Char) (tokens : List Token) : Prop :=
  Token.ofLine chars = .ok tokens

/- The tokens with a number are classified as a line of it. -/
def Classifies
    (numbered : List Token × Nat)
    (line : Line × Nat) : Prop :=
  Line.ofTokens numbered.1 = .ok (some line.1) ∧ line.2 = numbered.2

/- The lines that have tokens, with their numbers. -/
def nonBlank
    (number : Nat)
    (tokens : List (List Token)) : List (List Token × Nat) :=
  (tokens.zipIdx number).filter fun numbered => !numbered.1.isEmpty

/-
  Each line of the text, counted from one, is cut into tokens,
  and those that have tokens are classified.
-/
def IsClassified (text : String) (lines : List (Line × Nat)) : Prop :=
  ∃ tokens,
    List.Forall₂ Tokenizes (Text.lines text.toList) tokens ∧
      List.Forall₂ Classifies (nonBlank 1 tokens) lines

------------------------------------------------------------
-- Blocks
------------------------------------------------------------

/- A line with a list of declarations. -/
structure ListLine where
  type : Scalar
  items : List (String × Option Nat)
  number : Nat

/- A line behind the declarations of a block. -/
inductive BodyLine where
| label (name : String) (number : Nat)
| instruction
    (front : Option String)
    (opcode : Opcode)
    (operands : List Operand)
    (number : Nat)

/-
  A block without its end mark: a start mark on the line
  `start`, a header on the line `line`, at most one list of
  declarations of each type, and labels and instructions.
-/
structure OpenBlock where
  start : Nat
  returns : ReturnType
  name : String
  params : List Parameter
  line : Nat
  lists : List ListLine
  body : List BodyLine
  once : (lists.map ListLine.type).Nodup

/- A block with an end mark, on the line `stop`. -/
structure SourceBlock extends OpenBlock where
  stop : Nat

namespace ListLine

def line (l : ListLine) : Line × Nat :=
  (.declarations l.type l.items, l.number)

/- The variables of the list, with the number of its line. -/
def declarations (l : ListLine) : List Declaration :=
  l.items.map fun (name, length) => ⟨name, l.type, length, l.number⟩

end ListLine

namespace BodyLine

def line : BodyLine → Line × Nat
| .label name number => (.label name, number)
| .instruction front opcode operands number =>
    (.instruction front opcode operands, number)

/- The label that the line defines, for a position. -/
def labelAt? (position : Nat) : BodyLine → Option LabelDef
| .label name number => some ⟨name, position, number⟩
| .instruction front _ _ number =>
    front.map fun name => ⟨name, position, number⟩

/- The instruction on the line, if there is one. -/
def instruction? : BodyLine → Option Instruction
| .label _ _ => none
| .instruction _ opcode operands number =>
    some ⟨opcode, operands, number⟩

/- The instructions of lines, in order. -/
def code (body : List BodyLine) : List Instruction :=
  body.filterMap instruction?

/-
  The labels of lines, in order. The position of a label is
  the number of the instructions on the lines before its own.
-/
def labels (body : List BodyLine) : List LabelDef :=
  body.zipIdx.filterMap fun (l, k) =>
    l.labelAt? (code (body.take k)).length

end BodyLine

namespace OpenBlock

/- The lines of the block up to its end mark. -/
def lines (b : OpenBlock) : List (Line × Nat) :=
  [(.startFunction, b.start), (.header b.returns b.name b.params, b.line)] ++
    b.lists.map ListLine.line ++ b.body.map BodyLine.line

/- The variables of a type that the block declares. -/
def declarations (b : OpenBlock) (type : Scalar) : List Declaration :=
  (b.lists.filter fun l => l.type = type).flatMap ListLine.declarations

/- The function that the block describes. -/
def function (b : OpenBlock) : Function :=
  { name := b.name
    returns := b.returns
    params := b.params
    ints := b.declarations .int
    floats := b.declarations .float
    code := BodyLine.code b.body
    labels := BodyLine.labels b.body
    line := b.line }

end OpenBlock

namespace SourceBlock

/- The lines of the block. -/
def lines (b : SourceBlock) : List (Line × Nat) :=
  b.toOpenBlock.lines ++ [(.endFunction, b.stop)]

end SourceBlock

------------------------------------------------------------
-- Reading Classified Lines
------------------------------------------------------------

/- Only a line without tokens is not classified. -/
theorem Line.ofTokens_eq_none_iff
    {tokens : List Token} :
    Line.ofTokens tokens = .ok none ↔ tokens = [] := by
  constructor
  · intro h
    cases tokens with
    | nil => rfl
    | cons t rest =>
        exfalso
        cases t with
        | directive word =>
            rcases Outcome.map_eq_ok.mp h with ⟨_, _, hSome⟩
            cases hSome
        | ident word =>
            rcases Outcome.map_eq_ok.mp h with ⟨_, _, hSome⟩
            cases hSome
        | _ => cases h
  · rintro rfl
    rfl

/- A line that is classified has tokens. -/
theorem nonBlank_cons_of_ofTokens
    {number : Nat}
    {ts : List Token}
    {tokens : List (List Token)}
    {line : Line}
    (h : Line.ofTokens ts = .ok (some line)) :
    nonBlank number (ts :: tokens) =
      (ts, number) :: nonBlank (number + 1) tokens := by
  cases ts with
  | nil => cases h
  | cons t ts => rfl

namespace Assembly

/- Fit classified lines into the blocks, one by one. -/
def acceptLines
    (a : Assembly)
    (lines : List (Line × Nat)) : Except SyntaxCause Assembly :=
  lines.foldlM (fun a line => a.accept line.2 line.1) a

theorem acceptLines_nil
    (a : Assembly) :
    a.acceptLines [] = .ok a :=
  List.foldlM_nil

theorem acceptLines_cons
    (a : Assembly)
    (line : Line × Nat)
    (lines : List (Line × Nat)) :
    a.acceptLines (line :: lines) =
      a.accept line.2 line.1 >>= fun b => b.acceptLines lines :=
  List.foldlM_cons

theorem acceptLines_append
    (a : Assembly)
    (first second : List (Line × Nat)) :
    a.acceptLines (first ++ second) =
      a.acceptLines first >>= fun b => b.acceptLines second :=
  List.foldlM_append

/- A line is passed over, or it is classified and fitted. -/
theorem readLine_eq_ok_iff
    {a b : Assembly}
    {number : Nat}
    {chars : List Char} :
    a.readLine number chars = .ok b ↔
      ∃ tokens,
        Tokenizes chars tokens ∧
          ((tokens = [] ∧ b = a) ∨
            ∃ line,
              Line.ofTokens tokens = .ok (some line) ∧
                a.accept number line = .ok b) := by
  unfold readLine Tokenizes
  cases hTokens : Token.ofLine chars with
  | error cause => simp
  | ok tokens =>
      cases hLine : Line.ofTokens tokens with
      | error cause =>
          have hSome : tokens ≠ [] := by
            rintro rfl
            cases hLine
          simp [hLine, hSome]
      | ok found =>
          cases found with
          | none =>
              have hNone := Line.ofTokens_eq_none_iff.mp hLine
              subst hNone
              simp [hLine, eq_comm]
          | some line =>
              have hSome : tokens ≠ [] := by
                rintro rfl
                cases hLine
              simp [hLine, hSome]

/-
  Lines are read when each is cut into tokens, those that have
  tokens are classified, and these fit into the blocks.
-/
theorem readLines_eq_ok_iff
    {a b : Assembly}
    {number : Nat}
    {texts : List (List Char)} :
    a.readLines number texts = .ok b ↔
      ∃ tokens lines,
        List.Forall₂ Tokenizes texts tokens ∧
          List.Forall₂ Classifies (nonBlank number tokens) lines ∧
          a.acceptLines lines = .ok b := by
  induction texts generalizing a number with
  | nil =>
      rw [readLines, Except.ok.injEq]
      constructor
      · rintro rfl
        exact ⟨[], [], .nil, .nil, acceptLines_nil a⟩
      · rintro ⟨tokens, lines, hTokens, hLines, hAccept⟩
        cases hTokens
        cases hLines
        rw [acceptLines_nil] at hAccept
        exact Except.ok.inj hAccept
  | cons chars texts ih =>
      have hHead :
          a.readLines number (chars :: texts) = .ok b ↔
            ∃ c, a.readLine number chars = .ok c ∧
              c.readLines (number + 1) texts = .ok b := by
        rw [readLines]
        cases a.readLine number chars <;> simp
      rw [hHead]
      simp only [ih, readLine_eq_ok_iff]
      constructor
      · rintro ⟨c, ⟨ts, hChars, hFitted⟩, tokens, lines, hTokens, hLines,
          hAccept⟩
        rcases hFitted with ⟨rfl, rfl⟩ | ⟨line, hLine, hFirst⟩
        · exact ⟨[] :: tokens, lines, .cons hChars hTokens, hLines, hAccept⟩
        · refine ⟨ts :: tokens, (line, number) :: lines,
            .cons hChars hTokens, ?_, ?_⟩
          · rw [nonBlank_cons_of_ofTokens hLine]
            exact .cons ⟨hLine, rfl⟩ hLines
          · rw [acceptLines_cons, hFirst]
            exact hAccept
      · rintro ⟨_, lines, hAll, hLines, hAccept⟩
        rcases List.forall₂_cons_left_iff.mp hAll with
          ⟨ts, tokens, hChars, hTokens, rfl⟩
        cases ts with
        | nil =>
            exact ⟨a, ⟨[], hChars, .inl ⟨rfl, rfl⟩⟩, tokens, lines,
              hTokens, hLines, hAccept⟩
        | cons t ts =>
            rcases List.forall₂_cons_left_iff.mp hLines with
              ⟨⟨line, _⟩, rest, ⟨hLine, hNumber⟩, hRest, rfl⟩
            cases hNumber
            rw [acceptLines_cons, Outcome.bind_eq_ok] at hAccept
            rcases hAccept with ⟨c, hFirst, hAccept⟩
            exact ⟨c, ⟨t :: ts, hChars, .inr ⟨line, hLine, hFirst⟩⟩,
              tokens, rest, hTokens, hRest, hAccept⟩

end Assembly

------------------------------------------------------------
-- The Draft of an Open Block
------------------------------------------------------------

theorem BodyLine.code_concat
    (body : List BodyLine)
    (l : BodyLine) :
    code (body ++ [l]) = code body ++ l.instruction?.toList := by
  rw [code, List.filterMap_append]
  cases h : l.instruction? <;> simp [code, h]

/- The positions of labels do not depend on later lines. -/
theorem BodyLine.labels_concat
    (body : List BodyLine)
    (l : BodyLine) :
    labels (body ++ [l]) =
      labels body ++ (l.labelAt? (code body).length).toList := by
  have hBefore :
      body.zipIdx.filterMap
          (fun (k, i) =>
            k.labelAt? (code ((body ++ [l]).take i)).length) =
        labels body := by
    apply List.filterMap_congr
    rintro ⟨k, i⟩ hMem
    have hIndex : i < body.length := by
      simpa using List.snd_lt_of_mem_zipIdx hMem
    dsimp only
    rw [List.take_append_of_le_length (Nat.le_of_lt hIndex)]
  rw [labels, List.zipIdx_append, List.filterMap_append, hBefore]
  simp only [List.zipIdx_singleton, Nat.zero_add]
  cases h : l.labelAt? (code body).length <;> simp [h]

example :
    BodyLine.labels
        [ .label "a" 4
        , .instruction none .ret [] 5
        , .instruction (some "b") .ret [] 6
        , .label "c" 7 ] =
      [⟨"a", 0, 4⟩, ⟨"b", 1, 6⟩, ⟨"c", 2, 7⟩] :=
  rfl

namespace OpenBlock

/- A block that has been read as far as its header. -/
def ofHeader
    (start : Nat)
    (returns : ReturnType)
    (name : String)
    (params : List Parameter)
    (line : Nat) : OpenBlock :=
  { start, returns, name, params, line
    lists := []
    body := []
    once := List.nodup_nil }

/- The block has a list of declarations of the type. -/
def HasList (b : OpenBlock) (type : Scalar) : Prop :=
  type ∈ b.lists.map ListLine.type

instance (b : OpenBlock) (type : Scalar) : Decidable (b.HasList type) :=
  inferInstanceAs (Decidable (type ∈ b.lists.map ListLine.type))

/- The block with one more list of declarations. -/
def addList
    (b : OpenBlock)
    (l : ListLine)
    (new : ¬ b.HasList l.type) : OpenBlock :=
  { b with
    lists := b.lists ++ [l]
    once := by
      rw [List.map_append, List.map_singleton, List.nodup_append]
      refine ⟨b.once, by simp, ?_⟩
      rintro type hType _ hLast rfl
      cases List.mem_singleton.mp hLast
      exact new hType }

/- The block with one more line of its body. -/
def addLine (b : OpenBlock) (l : BodyLine) : OpenBlock :=
  { b with body := b.body ++ [l] }

/- The draft of the block's function. -/
def draft (b : OpenBlock) : Draft :=
  { name := b.name
    returns := b.returns
    params := b.params
    line := b.line
    ints := if b.HasList .int then some (b.declarations .int) else none
    floats :=
      if b.HasList .float then some (b.declarations .float) else none
    code := (BodyLine.code b.body).toArray
    labels := (BodyLine.labels b.body).toArray }

/- Without a list of a type nothing of it is declared. -/
theorem declarations_of_not_hasList
    {b : OpenBlock}
    {type : Scalar}
    (h : ¬ b.HasList type) :
    b.declarations type = [] := by
  have hNone : (b.lists.filter fun l => l.type = type) = [] := by
    rw [List.filter_eq_nil_iff]
    intro l hl hType
    apply h
    rw [HasList, List.mem_map]
    exact ⟨l, hl, by simpa using hType⟩
  rw [declarations, hNone, List.flatMap_nil]

theorem function_draft
    (b : OpenBlock) :
    b.draft.function = b.function := by
  have hList : ∀ type,
      (if b.HasList type then some (b.declarations type) else none).getD
          [] =
        b.declarations type := by
    intro type
    split
    · rfl
    · next h => exact (declarations_of_not_hasList h).symm
  simp only [Draft.function, draft, function, hList, List.toList_toArray]

theorem list?_draft
    (b : OpenBlock)
    (type : Scalar) :
    b.draft.list? type =
      if b.HasList type then some (b.declarations type) else none := by
  cases type <;> rfl

/- Each line of the body leaves something in the draft. -/
theorem inBody_draft_iff
    (b : OpenBlock) :
    b.draft.inBody = true ↔ b.body ≠ [] := by
  have hDraft :
      b.draft.inBody = true ↔
        ¬ (BodyLine.code b.body = [] ∧ BodyLine.labels b.body = []) := by
    simp [Draft.inBody, draft, -not_and, Classical.not_and_iff_not_or_not]
  rw [hDraft]
  rcases b.body.eq_nil_or_concat with hNil | ⟨body, l, hLast⟩
  · simp [hNil, BodyLine.code, BodyLine.labels]
  · rw [hLast, List.concat_eq_append, BodyLine.code_concat,
      BodyLine.labels_concat]
    cases l <;> simp [BodyLine.instruction?, BodyLine.labelAt?]

theorem hasList_addList_iff
    {b : OpenBlock}
    {l : ListLine}
    {type : Scalar}
    (hNew : ¬ b.HasList l.type) :
    (b.addList l hNew).HasList type ↔ b.HasList type ∨ l.type = type := by
  simp [HasList, addList, eq_comm]

theorem declarations_addList
    {b : OpenBlock}
    {l : ListLine}
    (type : Scalar)
    (hNew : ¬ b.HasList l.type) :
    (b.addList l hNew).declarations type =
      if l.type = type then l.declarations else b.declarations type := by
  have hAppend :
      (b.addList l hNew).declarations type =
        b.declarations type ++ if l.type = type then l.declarations else [] := by
    rw [declarations, addList, List.filter_append, List.flatMap_append]
    split
    · next h => simp [declarations, h]
    · next h => simp [declarations, h]
  rw [hAppend]
  split
  · next h =>
      subst h
      rw [declarations_of_not_hasList hNew, List.nil_append]
  · rw [List.append_nil]

/- A list that is new is set in the draft. -/
theorem draft_addList
    (b : OpenBlock)
    (l : ListLine)
    (hNew : ¬ b.HasList l.type) :
    (b.addList l hNew).draft = b.draft.setList l.type l.declarations := by
  have hDraft :
      (b.addList l hNew).draft =
        { b.draft with
          ints := (b.addList l hNew).draft.ints
          floats := (b.addList l hNew).draft.floats } := rfl
  rw [hDraft]
  cases hType : l.type <;>
    simp [Draft.setList, draft, hasList_addList_iff,
      declarations_addList, hType]

/- A line of the body is added to the draft. -/
theorem draft_addLine
    (b : OpenBlock)
    (l : BodyLine) :
    b.draft.accept l.line.2 l.line.1 = .ok (b.addLine l).draft := by
  have hDraft :
      (b.addLine l).draft =
        { b.draft with
          code := (BodyLine.code (b.body ++ [l])).toArray
          labels := (BodyLine.labels (b.body ++ [l])).toArray } := rfl
  rw [hDraft, BodyLine.code_concat, BodyLine.labels_concat]
  cases l with
  | label name number =>
      simp [Draft.accept, Draft.addLabel, draft, BodyLine.line,
        BodyLine.instruction?, BodyLine.labelAt?]
  | instruction front opcode operands number =>
      cases front <;>
        simp [Draft.accept, Draft.addInstruction, Draft.addLabel, draft,
          BodyLine.line, BodyLine.instruction?, BodyLine.labelAt?]

end OpenBlock

------------------------------------------------------------
-- Lines That Were Read Make Up Blocks
------------------------------------------------------------

namespace OpenBlock

/- A list of declarations is accepted before the body, once. -/
theorem accept_list_iff
    {b : OpenBlock}
    {l : ListLine}
    {d : Draft} :
    b.draft.accept l.line.2 l.line.1 = .ok d ↔
      ∃ hNew : ¬ b.HasList l.type,
        b.body = [] ∧ (b.addList l hNew).draft = d := by
  simp only [ListLine.line, Draft.accept, inBody_draft_iff, list?_draft]
  by_cases hBody : b.body = []
  · by_cases hList : b.HasList l.type
    · simp [hBody, hList]
    · simp [hBody, hList, draft_addList, ListLine.declarations]
  · simp [hBody]

theorem lines_addList
    {b : OpenBlock}
    {l : ListLine}
    (hNew : ¬ b.HasList l.type)
    (hBody : b.body = []) :
    (b.addList l hNew).lines = b.lines ++ [l.line] := by
  simp [lines, addList, hBody]

theorem lines_addLine
    (b : OpenBlock)
    (l : BodyLine) :
    (b.addLine l).lines = b.lines ++ [l.line] := by
  simp [lines, addLine]

/-
  What the draft of a block accepts is the next line of the
  block: a list that is new, or a line of the body.
-/
theorem exists_of_accept
    {b : OpenBlock}
    {line : Line}
    {number : Nat}
    {d : Draft}
    (h : b.draft.accept number line = .ok d) :
    ∃ c : OpenBlock,
      c.start = b.start ∧
        c.draft = d ∧
        c.lines = b.lines ++ [(line, number)] := by
  cases line with
  | startFunction | endFunction | header => cases h
  | declarations type items =>
      rcases (accept_list_iff (l := ⟨type, items, number⟩)).mp h with
        ⟨hNew, hBody, hDraft⟩
      exact ⟨b.addList ⟨type, items, number⟩ hNew, rfl, hDraft,
        lines_addList hNew hBody⟩
  | label name =>
      have hLine := b.draft_addLine (.label name number)
      exact ⟨b.addLine (.label name number), rfl,
        Except.ok.inj (hLine.symm.trans h), lines_addLine b _⟩
  | instruction front opcode operands =>
      have hLine :=
        b.draft_addLine (.instruction front opcode operands number)
      exact ⟨b.addLine (.instruction front opcode operands number), rfl,
        Except.ok.inj (hLine.symm.trans h), lines_addLine b _⟩

end OpenBlock

namespace Assembly

/-
  The lines have been read: those of the blocks whose
  functions are there, and those of the block that is open.
-/
inductive HasRead : List (Line × Nat) → Assembly → Prop where
| outside
    (blocks : List SourceBlock) :
    HasRead (blocks.flatMap SourceBlock.lines)
      ⟨(blocks.map fun b => b.function).toArray, .outside⟩
| awaitingHeader
    (blocks : List SourceBlock)
    (start : Nat) :
    HasRead (blocks.flatMap SourceBlock.lines ++ [(.startFunction, start)])
      ⟨(blocks.map fun b => b.function).toArray, .awaitingHeader start⟩
| started
    (blocks : List SourceBlock)
    (b : OpenBlock) :
    HasRead (blocks.flatMap SourceBlock.lines ++ b.lines)
      ⟨(blocks.map fun b => b.function).toArray, .started b.start b.draft⟩

/- One more line has been read when it is accepted. -/
theorem HasRead.accept
    {lines : List (Line × Nat)}
    {a a' : Assembly}
    {line : Line}
    {number : Nat}
    (h : HasRead lines a)
    (hAccept : a.accept number line = .ok a') :
    HasRead (lines ++ [(line, number)]) a' := by
  cases h with
  | outside blocks =>
      cases line
      case startFunction =>
        cases hAccept
        exact .awaitingHeader blocks number
      all_goals cases hAccept
  | awaitingHeader blocks start =>
      cases line
      case header returns name params =>
        cases hAccept
        rw [List.append_assoc]
        exact .started blocks (.ofHeader start returns name params number)
      all_goals cases hAccept
  | started blocks b =>
      cases line
      case startFunction => cases hAccept
      case endFunction =>
        cases hAccept
        have hRead := HasRead.outside (blocks ++ [⟨b, number⟩])
        simpa [SourceBlock.lines, OpenBlock.function_draft] using hRead
      all_goals
        simp only [Assembly.accept] at hAccept
        split at hAccept
        · cases hAccept
        · next d hDraft =>
            cases hAccept
            rcases b.exists_of_accept hDraft with
              ⟨c, hStart, rfl, hLines⟩
            rw [List.append_assoc, ← hLines, ← hStart]
            exact .started blocks c

/- Lines that are accepted have been read. -/
theorem HasRead.acceptLines
    {before lines : List (Line × Nat)}
    {a b : Assembly}
    (h : HasRead before a)
    (hAccept : a.acceptLines lines = .ok b) :
    HasRead (before ++ lines) b := by
  induction lines generalizing before a with
  | nil =>
      rw [acceptLines_nil] at hAccept
      cases hAccept
      rwa [List.append_nil]
  | cons line lines ih =>
      rw [acceptLines_cons, Outcome.bind_eq_ok] at hAccept
      rcases hAccept with ⟨c, hFirst, hRest⟩
      rw [List.append_cons]
      exact ih (h.accept hFirst) hRest

------------------------------------------------------------
-- The Lines of Blocks Are Accepted
------------------------------------------------------------

theorem acceptLines_concat
    {a b : Assembly}
    {lines : List (Line × Nat)}
    (h : a.acceptLines lines = .ok b)
    (line : Line × Nat) :
    a.acceptLines (lines ++ [line]) = b.accept line.2 line.1 := by
  rw [acceptLines_append, h]
  exact (acceptLines_cons b line []).trans (bind_pure _)

/- The lines of a block up to its end mark lead to its draft. -/
theorem acceptLines_open
    (functions : Array Function)
    (b : OpenBlock) :
    acceptLines ⟨functions, .outside⟩ b.lines =
      .ok ⟨functions, .started b.start b.draft⟩ := by
  rcases b with ⟨start, returns, name, params, line, lists, body, once⟩
  -- The last line of the body is taken off first, then the last list.
  induction body using List.reverseRecOn with
  | append_singleton body l ih =>
      have hLines :=
        (OpenBlock.mk start returns name params line lists body
          once).lines_addLine l
      refine (congrArg _ hLines).trans ?_
      rw [acceptLines_concat ih]
      exact accept_started (OpenBlock.draft_addLine _ l) _ _
  | nil =>
      induction lists using List.reverseRecOn with
      | append_singleton lists l ih =>
          rw [List.map_append, List.map_singleton,
            List.nodup_append] at once
          rcases once with ⟨hOnce, _, hNew⟩
          have hNew : ¬ OpenBlock.HasList
              ⟨start, returns, name, params, line, lists, [], hOnce⟩
              l.type :=
            fun hList => hNew _ hList _ List.mem_cons_self rfl
          refine (congrArg _ (OpenBlock.lines_addList hNew rfl)).trans ?_
          rw [acceptLines_concat (ih hOnce)]
          exact accept_started
            (OpenBlock.accept_list_iff.mpr ⟨hNew, rfl, rfl⟩) _ _
      | nil => rfl

/- The lines of blocks lead to their functions. -/
theorem acceptLines_blocks
    (functions : Array Function)
    (blocks : List SourceBlock) :
    acceptLines ⟨functions, .outside⟩ (blocks.flatMap SourceBlock.lines) =
      .ok ⟨functions ++ (blocks.map fun b => b.function).toArray,
        .outside⟩ := by
  induction blocks generalizing functions with
  | nil => simp [acceptLines_nil]
  | cons b blocks ih =>
      have hBlock :
          acceptLines ⟨functions, .outside⟩ b.lines =
            .ok ⟨functions.push b.function, .outside⟩ := by
        rw [SourceBlock.lines,
          acceptLines_concat (acceptLines_open functions b.toOpenBlock),
          ← OpenBlock.function_draft]
        rfl
      rw [List.flatMap_cons, acceptLines_append, hBlock]
      refine (ih _).trans ?_
      simp

end Assembly

/-
  The assembler accepts a text just when all of its lines are
  classified and make up blocks: a start mark, a header, at
  most one list of declarations of each type, labels and
  instructions, and an end mark. The program has the function
  that each block describes, in order, and no others.
-/
theorem assemble_accepts_block_grammar
    (text : String)
    (p : Program) :
    assemble text = .ok p ↔
      ∃ blocks : List SourceBlock,
        IsClassified text (blocks.flatMap SourceBlock.lines) ∧
          p.functions = blocks.map fun b => b.function := by
  constructor
  · intro h
    unfold assemble at h
    split at h
    · cases h
    · next a hRead =>
        rcases Assembly.readLines_eq_ok_iff.mp hRead with
          ⟨tokens, lines, hTokens, hLines, hAccept⟩
        have hStart : Assembly.HasRead [] Assembly.empty := .outside []
        -- Only a text that ends outside all blocks gives a program.
        cases hStart.acceptLines hAccept with
        | outside blocks =>
            cases h
            exact ⟨blocks, ⟨tokens, hTokens, hLines⟩, rfl⟩
        | awaitingHeader blocks start => cases h
        | started blocks b => cases h
  · rintro ⟨blocks, ⟨tokens, hTokens, hLines⟩, hFunctions⟩
    have hAccept := Assembly.acceptLines_blocks #[] blocks
    have hRead := Assembly.readLines_eq_ok_iff.mpr
      ⟨tokens, _, hTokens, hLines, hAccept⟩
    rcases p with ⟨functions⟩
    cases hFunctions
    rw [assemble, Assembly.empty, hRead]
    simp [Assembly.finish]

end ThreeAddress
