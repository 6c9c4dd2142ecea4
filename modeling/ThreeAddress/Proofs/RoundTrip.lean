import ThreeAddress.Proofs.PrintableProgram

/-
  This file shows that the canonical text of a printable
  program is read back as the program, up to lines.

  The canonical text is cut into the texts of classified lines
  of the program. These are then fitted into blocks one by
  one: the labels of a position are read before the
  instruction at that position, so that each label gets its
  position back.

  Key definitions include:
    * `Function.lines`, `Program.lines`
    * `Assembly.Accepts`

  Main statements:
    * `Program.lines_listing`
    * `Assembly.exists_accepts_function`
    * `Program.exists_assemble_listing`
    * `printable_iff_listing_reads_back`
-/

namespace ThreeAddress

------------------------------------------------------------
-- Lines of a Program
------------------------------------------------------------

namespace Function

/- The line of a list of declarations, if it has any. -/
def listLines (type : Scalar) (ds : List Declaration) : List Line :=
  if ds.isEmpty then
    []
  else
    [.declarations type (ds.map fun d => (d.name, d.length))]

/- The lines of labels. -/
def labelLines (ls : List LabelDef) : List Line :=
  ls.map fun l => .label l.name

/- The lines of the instructions from a position on. -/
def body : Nat → List LabelDef → List Instruction → List Line
| _, labels, [] => labelLines labels
| position, labels, i :: code =>
    let due := fun l : LabelDef => decide (l.position ≤ position)
    labelLines (labels.takeWhile due) ++
      .instruction none i.opcode i.operands ::
        body (position + 1) (labels.dropWhile due) code

/- The lines of a function's block. -/
def lines (f : Function) : List Line :=
  [.startFunction, .header f.returns f.name f.params] ++
    listLines .int f.ints ++
    listLines .float f.floats ++
    body 0 f.labels f.code ++
    [.endFunction]

theorem text_listLines
    (type : Scalar)
    (ds : List Declaration) :
    (listLines type ds).map Line.text = listLine type ds := by
  cases ds with
  | nil => rfl
  | cons d ds =>
      simp only [listLines, listLine, List.isEmpty_cons, Line.text,
        List.map_map, List.map_singleton, Bool.false_eq_true,
        if_false]
      rfl

theorem text_labelLines
    (ls : List LabelDef) :
    (labelLines ls).map Line.text = ls.map LabelDef.text := by
  rw [labelLines, List.map_map]
  rfl

theorem text_instruction
    (i : Instruction) :
    (Line.instruction none i.opcode i.operands).text = i.text :=
  String.empty_append

theorem text_body
    (position : Nat)
    (ls : List LabelDef)
    (code : List Instruction) :
    (body position ls code).map Line.text =
      bodyLines position ls code := by
  induction code generalizing position ls with
  | nil => exact text_labelLines ls
  | cons i code ih =>
      simp only [body, bodyLines, List.map_append, List.map_cons,
        text_labelLines, text_instruction, ih]

/- The listing of a function is the text of its lines. -/
theorem text_lines
    (f : Function) :
    f.lines.map Line.text = f.listing := by
  simp only [lines, listing, List.map_append, text_listLines,
    text_body]
  rfl

theorem printable_listLines
    {type : Scalar}
    {ds : List Declaration}
    (h : ∀ d ∈ ds, d.type = type ∧ d.Printable) :
    ∀ line ∈ listLines type ds, line.Printable := by
  unfold listLines
  split
  · simp
  · rw [List.forall_mem_singleton]
    simp only [Line.Printable, List.forall_mem_map]
    exact fun d hd => (h d hd).2

theorem printable_labelLines
    {ls : List LabelDef}
    (h : ∀ l ∈ ls, IsLabelName l.name) :
    ∀ line ∈ labelLines ls, line.Printable := by
  rw [labelLines, List.forall_mem_map]
  exact h

theorem printable_body
    {position : Nat}
    {ls : List LabelDef}
    {code : List Instruction}
    (hLabels : ∀ l ∈ ls, IsLabelName l.name)
    (hCode : ∀ i ∈ code, i.opcode.Takes i.operands) :
    ∀ line ∈ body position ls code, line.Printable := by
  induction code generalizing position ls with
  | nil => exact printable_labelLines hLabels
  | cons i code ih =>
      rw [List.forall_mem_cons] at hCode
      rw [body, List.forall_mem_append, List.forall_mem_cons]
      refine ⟨?_, ⟨by simp, hCode.1⟩, ?_⟩
      · apply printable_labelLines
        intro l hl
        exact hLabels l ((List.takeWhile_prefix _).subset hl)
      · apply ih _ hCode.2
        intro l hl
        exact hLabels l ((List.dropWhile_suffix _).subset hl)

theorem printable_lines
    {f : Function}
    (h : f.Printable) :
    ∀ line ∈ f.lines, line.Printable := by
  simp only [lines, List.forall_mem_append, List.forall_mem_cons]
  refine ⟨⟨⟨⟨?_, ?_⟩, ?_⟩, ?_⟩, ?_⟩
  · exact ⟨trivial, ⟨h.name, h.params⟩, by simp⟩
  · exact printable_listLines h.ints
  · exact printable_listLines h.floats
  · exact printable_body h.labels h.code
  · exact ⟨trivial, by simp⟩

end Function

/- A line feed ends a line that has none. -/
theorem Text.lines_append_newline
    {cs : List Char}
    (h : '\n' ∉ cs)
    (rest : List Char) :
    Text.lines (cs ++ '\n' :: rest) = cs :: Text.lines rest := by
  induction cs with
  | nil => rfl
  | cons c cs ih =>
      rw [List.mem_cons, not_or] at h
      have hPush : Text.lines (c :: (cs ++ '\n' :: rest)) =
          Text.pushChar c (Text.lines (cs ++ '\n' :: rest)) := rfl
      rw [List.cons_append, hPush, ih h.2, Text.pushChar,
        if_neg (Ne.symm h.1)]

namespace Program

/- The lines of all functions. -/
def lines (p : Program) : List Line :=
  p.functions.flatMap Function.lines

theorem toList_listing
    (p : Program) :
    p.listing.toList =
      p.lines.flatMap fun line => line.text.toList ++ ['\n'] := by
  have hTexts : p.functions.flatMap Function.listing =
      p.lines.map Line.text := by
    simp only [lines, List.map_flatMap, Function.text_lines]
  rw [listing, hTexts, String.toList_join]
  simp [List.flatMap_map]

/- The canonical text is cut into the texts of the lines. -/
theorem lines_listing
    {p : Program}
    (h : ∀ line ∈ p.lines, line.Printable) :
    Text.lines p.listing.toList =
      p.lines.map fun line => line.text.toList := by
  rw [toList_listing]
  revert h
  induction p.lines with
  | nil =>
      intro _
      rfl
  | cons line lines ih =>
      intro h
      rw [List.forall_mem_cons] at h
      rw [List.flatMap_cons, List.append_assoc, List.singleton_append,
        Text.lines_append_newline (Line.newline_notMem_text h.1),
        ih h.2, List.map_cons]

end Program

------------------------------------------------------------
-- Fitting Lines into Blocks
------------------------------------------------------------

namespace Assembly

/- The lines are fitted into the blocks, one by one. -/
inductive Accepts :
    Assembly → Nat → List Line → Assembly → Prop
| nil
    (a : Assembly)
    (number : Nat) :
    Accepts a number [] a
| cons
    {a b c : Assembly}
    {number : Nat}
    {line : Line}
    {lines : List Line}
    (hAccept : a.accept number line = .ok b)
    (hRest : Accepts b (number + 1) lines c) :
    Accepts a number (line :: lines) c

theorem Accepts.append
    {a b c : Assembly}
    {number : Nat}
    {first second : List Line}
    (hFirst : Accepts a number first b)
    (hSecond : Accepts b (number + first.length) second c) :
    Accepts a number (first ++ second) c := by
  induction hFirst with
  | nil => exact hSecond
  | @cons a b _ number line lines hAccept _ ih =>
      apply Accepts.cons hAccept
      apply ih
      rw [List.length_cons] at hSecond
      rw [Nat.add_assoc, Nat.add_comm 1]
      exact hSecond

/- The text of a printable line is read as the line. -/
theorem readLine_text
    {line : Line}
    (h : line.Printable)
    (a : Assembly)
    (number : Nat) :
    a.readLine number line.text.toList = a.accept number line := by
  simp only [readLine, Line.ofLine_text h, Line.ofTokens_tokens h]

theorem Accepts.readLines_eq_ok
    {a b : Assembly}
    {number : Nat}
    {lines : List Line}
    (hLines : ∀ line ∈ lines, line.Printable)
    (h : Accepts a number lines b) :
    a.readLines number (lines.map fun line => line.text.toList) =
      .ok b := by
  induction h with
  | nil => rfl
  | cons hAccept _ ih =>
      rw [List.forall_mem_cons] at hLines
      simp only [List.map_cons, readLines, readLine_text hLines.1,
        hAccept]
      exact ih hLines.2

end Assembly

------------------------------------------------------------
-- Reading the Lines of a Function
------------------------------------------------------------

namespace Function

/- The function with more labels and instructions at its end. -/
def extend
    (f : Function)
    (ls : List LabelDef)
    (code : List Instruction) : Function :=
  { f with
    labels := f.labels ++ ls
    code := f.code ++ code }

theorem extend_extend
    (f : Function)
    (ls ms : List LabelDef)
    (code more : List Instruction) :
    (f.extend ls code).extend ms more =
      f.extend (ls ++ ms) (code ++ more) := by
  simp [extend]

theorem eraseLines_extend
    (f : Function)
    (ls : List LabelDef)
    (code : List Instruction) :
    (f.extend ls code).eraseLines =
      f.eraseLines.extend (ls.map LabelDef.eraseLine)
        (code.map Instruction.eraseLine) := by
  simp [extend, eraseLines]

end Function

namespace Draft

theorem function_addLabel
    (d : Draft)
    (name : String)
    (line : Nat) :
    (d.addLabel name line).function =
      d.function.extend [⟨name, d.code.size, line⟩] [] := by
  simp [function, addLabel, Function.extend]

theorem function_addInstruction
    (d : Draft)
    (i : Instruction) :
    (d.addInstruction none i).function =
      d.function.extend [] [i] := by
  simp [function, addInstruction, Function.extend]

/- The draft with a list of declarations, if it has any. -/
def declare
    (d : Draft)
    (type : Scalar)
    (ds : List Declaration)
    (line : Nat) : Draft :=
  if ds.isEmpty then
    d
  else
    d.setList type (ds.map fun x => ⟨x.name, type, x.length, line⟩)

theorem inBody_declare
    (d : Draft)
    (type : Scalar)
    (ds : List Declaration)
    (line : Nat) :
    (d.declare type ds line).inBody = d.inBody := by
  unfold declare
  split
  · rfl
  · cases type <;> rfl

/- A list is read back if it is of the type of its entries. -/
theorem map_eraseLine_declared
    {type : Scalar}
    {ds : List Declaration}
    (h : ∀ d ∈ ds, d.type = type)
    (line : Nat) :
    ds.map (fun d =>
        Declaration.eraseLine ⟨d.name, type, d.length, line⟩) =
      ds.map Declaration.eraseLine := by
  apply List.map_congr_left
  intro d hd
  rw [Declaration.eraseLine, Declaration.eraseLine, ← h d hd]

/- A header and its lists make up a function without a body. -/
theorem eraseLines_declare
    {f : Function}
    (hInts : ∀ d ∈ f.ints, d.type = .int)
    (hFloats : ∀ d ∈ f.floats, d.type = .float)
    (line ints floats : Nat) :
    (((ofHeader f.returns f.name f.params line).declare
        .int f.ints ints).declare
          .float f.floats floats).function.eraseLines =
      { f.eraseLines with labels := [], code := [] } := by
  have hInts := map_eraseLine_declared hInts ints
  have hFloats := map_eraseLine_declared hFloats floats
  rcases f with ⟨name, returns, params, is, fs, code, labels, n⟩
  cases is <;> cases fs
  all_goals
    simp_all [declare, setList, ofHeader, function,
      Function.eraseLines, Function.comp_def]

end Draft

namespace Assembly

theorem accept_started
    {d e : Draft}
    {number : Nat}
    {line : Line}
    (h : d.accept number line = .ok e)
    (functions : Array Function)
    (start : Nat) :
    accept ⟨functions, .started start d⟩ number line =
      .ok ⟨functions, .started start e⟩ := by
  cases line with
  | startFunction | endFunction => cases h
  | header | declarations | label | instruction =>
      simp only [accept, h]

/- Labels of the next instruction get its position. -/
theorem exists_accepts_labels
    {d : Draft}
    {ls : List LabelDef}
    (h : ∀ l ∈ ls, l.position = d.code.size)
    (functions : Array Function)
    (start number : Nat) :
    ∃ e : Draft,
      Accepts ⟨functions, .started start d⟩ number
          (Function.labelLines ls) ⟨functions, .started start e⟩ ∧
        e.code = d.code ∧
        e.function.eraseLines =
          d.function.eraseLines.extend
            (ls.map LabelDef.eraseLine) [] := by
  induction ls generalizing d number with
  | nil =>
      refine ⟨d, .nil _ _, rfl, ?_⟩
      simp [Function.extend]
  | cons l ls ih =>
      rw [List.forall_mem_cons] at h
      rcases ih (d := d.addLabel l.name number) h.2 (number + 1) with
        ⟨e, hAccepts, hCode, hErase⟩
      refine ⟨e, .cons (accept_started rfl _ _) hAccepts, hCode, ?_⟩
      have hLabel : LabelDef.eraseLine
          ⟨l.name, d.code.size, number⟩ = l.eraseLine := by
        rw [← h.1]
        rfl
      rw [hErase, Draft.function_addLabel,
        Function.eraseLines_extend, Function.extend_extend,
        List.map_singleton, hLabel]
      rfl

/- Behind the labels that are due all labels come later. -/
theorem lt_position_of_mem_dropWhile
    {position : Nat}
    {ls : List LabelDef}
    (h : ls.Pairwise fun l m => l.position ≤ m.position) :
    ∀ l ∈ ls.dropWhile fun l => decide (l.position ≤ position),
      position < l.position := by
  intro l hl
  have hSorted := h.sublist (List.dropWhile_sublist
    fun l : LabelDef => decide (l.position ≤ position))
  cases hRest : ls.dropWhile fun l => decide (l.position ≤ position) with
  | nil =>
      rw [hRest] at hl
      cases hl
  | cons m ms =>
      have hFirst : ¬ decide (m.position ≤ position) = true := by
        have hHead := List.head?_dropWhile_not
          (fun l : LabelDef => decide (l.position ≤ position)) ls
        rw [hRest] at hHead
        simpa using hHead
      rw [decide_eq_true_eq, Nat.not_le] at hFirst
      rw [hRest] at hl hSorted
      rcases List.mem_cons.mp hl with hEq | hMem
      · rw [hEq]
        exact hFirst
      · exact Nat.lt_of_lt_of_le hFirst
          (List.rel_of_pairwise_cons hSorted hMem)

/-
  The body is read back. The labels that are due before an
  instruction are those at its position, since all labels of
  earlier positions have been read.
-/
theorem exists_accepts_body
    {d : Draft}
    {ls : List LabelDef}
    {code : List Instruction}
    (hOrdered : ls.Pairwise fun l m => l.position ≤ m.position)
    (hAhead : ∀ l ∈ ls, d.code.size ≤ l.position)
    (hInside : ∀ l ∈ ls, l.position ≤ d.code.size + code.length)
    (functions : Array Function)
    (start number : Nat) :
    ∃ e : Draft,
      Accepts ⟨functions, .started start d⟩ number
          (Function.body d.code.size ls code)
          ⟨functions, .started start e⟩ ∧
        e.function.eraseLines =
          d.function.eraseLines.extend
            (ls.map LabelDef.eraseLine)
            (code.map Instruction.eraseLine) := by
  induction code generalizing d ls number with
  | nil =>
      have hHere : ∀ l ∈ ls, l.position = d.code.size :=
        fun l hl => Nat.le_antisymm (hInside l hl) (hAhead l hl)
      rcases exists_accepts_labels hHere functions start number with
        ⟨e, hAccepts, _, hErase⟩
      exact ⟨e, hAccepts, hErase⟩
  | cons i code ih =>
      let due := fun l : LabelDef =>
        decide (l.position ≤ d.code.size)
      have hHere : ∀ l ∈ ls.takeWhile due,
          l.position = d.code.size := by
        intro l hl
        have hDue : due l = true :=
          List.all_eq_true.mp List.all_takeWhile l hl
        apply Nat.le_antisymm (of_decide_eq_true hDue)
        exact hAhead l ((List.takeWhile_prefix due).subset hl)
      rcases exists_accepts_labels hHere functions start number with
        ⟨e, hLabels, hCode, hErase⟩
      let line :=
        number + (Function.labelLines (ls.takeWhile due)).length
      let g := e.addInstruction none ⟨i.opcode, i.operands, line⟩
      have hSize : g.code.size = d.code.size + 1 := by
        rw [← hCode]
        exact Array.size_push _
      have hLater : ∀ l ∈ ls.dropWhile due,
          g.code.size ≤ l.position := by
        rw [hSize]
        exact lt_position_of_mem_dropWhile hOrdered
      have hStill : ∀ l ∈ ls.dropWhile due,
          l.position ≤ g.code.size + code.length := by
        intro l hl
        have hBound :=
          hInside l ((List.dropWhile_suffix due).subset hl)
        rw [List.length_cons] at hBound
        omega
      rcases ih (hOrdered.sublist (List.dropWhile_sublist due))
          hLater hStill (line + 1) with ⟨h, hBody, hRest⟩
      refine ⟨h, ?_, ?_⟩
      · rw [hSize] at hBody
        exact hLabels.append (.cons (accept_started rfl _ _) hBody)
      · rw [hRest, Draft.function_addInstruction,
          Function.eraseLines_extend, hErase,
          Function.extend_extend, Function.extend_extend,
          List.map_nil, List.nil_append, List.nil_append,
          ← List.map_append, List.takeWhile_append_dropWhile]
        rfl

theorem accepts_list
    {d : Draft}
    {type : Scalar}
    (hBody : d.inBody = false)
    (hNone : d.list? type = none)
    (functions : Array Function)
    (start number : Nat)
    (ds : List Declaration) :
    Accepts ⟨functions, .started start d⟩ number
      (Function.listLines type ds)
      ⟨functions, .started start (d.declare type ds number)⟩ := by
  unfold Function.listLines Draft.declare
  split
  · exact .nil _ _
  · apply Accepts.cons _ (.nil _ _)
    apply accept_started
    simp only [Draft.accept, hBody, hNone, List.map_map]
    rfl

/- The block of a printable function is read as the function. -/
theorem exists_accepts_function
    {f : Function}
    (h : f.Printable)
    (functions : Array Function)
    (number : Nat) :
    ∃ g : Function,
      Accepts ⟨functions, .outside⟩ number f.lines
          ⟨functions.push g, .outside⟩ ∧
        g.eraseLines = f.eraseLines := by
  let front : List Line :=
    [.startFunction, .header f.returns f.name f.params]
  let header :=
    Draft.ofHeader f.returns f.name f.params (number + 1)
  let ints := header.declare .int f.ints (number + front.length)
  let floats := ints.declare .float f.floats
    (number + (front ++ Function.listLines .int f.ints).length)
  have hFront : Accepts ⟨functions, .outside⟩ number front
      ⟨functions, .started number header⟩ :=
    .cons rfl (.cons rfl (.nil _ _))
  have hInts : Accepts ⟨functions, .outside⟩ number
      (front ++ Function.listLines .int f.ints)
      ⟨functions, .started number ints⟩ :=
    hFront.append (accepts_list rfl rfl _ _ _ _)
  have hNone : ints.list? .float = none := by
    simp only [ints, Draft.declare]
    split <;> rfl
  have hFloats : Accepts ⟨functions, .outside⟩ number
      (front ++ Function.listLines .int f.ints ++
        Function.listLines .float f.floats)
      ⟨functions, .started number floats⟩ :=
    hInts.append
      (accepts_list (Draft.inBody_declare _ _ _ _) hNone _ _ _ _)
  have hEmpty : floats.code.size = 0 := by
    simp only [floats, ints, Draft.declare]
    split <;> split <;> rfl
  rcases exists_accepts_body (d := floats) h.ordered
      (fun l _ => by omega)
      (fun l hl => by rw [hEmpty, Nat.zero_add]; exact h.inside l hl)
      functions number _ with ⟨e, hBody, hErase⟩
  rw [hEmpty] at hBody
  refine ⟨e.function,
    (hFloats.append hBody).append (.cons rfl (.nil _ _)), ?_⟩
  rw [hErase, Draft.eraseLines_declare
    (fun d hd => (h.ints d hd).1) fun d hd => (h.floats d hd).1]
  rfl

/- The blocks of printable functions are read one by one. -/
theorem exists_accepts_functions
    {fs : List Function}
    (h : ∀ f ∈ fs, f.Printable)
    (functions : Array Function)
    (number : Nat) :
    ∃ gs : List Function,
      Accepts ⟨functions, .outside⟩ number
          (fs.flatMap Function.lines)
          ⟨functions ++ gs.toArray, .outside⟩ ∧
        gs.map Function.eraseLines = fs.map Function.eraseLines := by
  induction fs generalizing functions number with
  | nil =>
      refine ⟨[], ?_, rfl⟩
      rw [Array.append_empty]
      exact .nil _ _
  | cons f fs ih =>
      rw [List.forall_mem_cons] at h
      rcases exists_accepts_function h.1 functions number with
        ⟨g, hFirst, hg⟩
      rcases ih h.2 (functions.push g)
          (number + f.lines.length) with ⟨gs, hRest, hgs⟩
      refine ⟨g :: gs, ?_, ?_⟩
      · have hPush : functions ++ (g :: gs).toArray =
            functions.push g ++ gs.toArray := by
          simp
        rw [List.flatMap_cons, hPush]
        exact hFirst.append hRest
      · rw [List.map_cons, List.map_cons, hg, hgs]

end Assembly

/- The canonical text of a printable program is read back. -/
theorem Program.exists_assemble_listing
    {p : Program}
    (h : p.Printable) :
    ∃ q, assemble p.listing = .ok q ∧
      q.eraseLines = p.eraseLines := by
  have hLines : ∀ line ∈ p.lines, line.Printable := by
    intro line hLine
    rcases List.mem_flatMap.mp hLine with ⟨f, hf, hMember⟩
    exact Function.printable_lines (h f hf) line hMember
  rcases Assembly.exists_accepts_functions h #[] 1 with
    ⟨gs, hAccepts, hErase⟩
  refine ⟨⟨gs⟩, ?_, congrArg Program.mk hErase⟩
  have hRead := hAccepts.readLines_eq_ok hLines
  rw [← Program.lines_listing hLines] at hRead
  rw [assemble, Assembly.empty, hRead]
  simp [Assembly.finish]

/-
  The programs that are read from some text are, up to lines,
  the printable ones, and these are the programs that are read
  back from their own canonical text. What is read back has
  the same canonical text again.
-/
theorem printable_iff_listing_reads_back
    (p : Program) :
    ((∃ text q, assemble text = .ok q ∧
        q.eraseLines = p.eraseLines) ↔
      p.Printable) ∧
    (p.Printable ↔
      ∃ q, assemble p.listing = .ok q ∧
        q.eraseLines = p.eraseLines ∧
        q.listing = p.listing) := by
  have hImage : ∀ {text q}, assemble text = .ok q →
      q.eraseLines = p.eraseLines → p.Printable := by
    intro text q hText hErase
    have hq := Program.printable_of_assemble hText
    rw [← Program.printable_eraseLines, hErase,
      Program.printable_eraseLines] at hq
    exact hq
  constructor
  · constructor
    · intro hRead
      rcases hRead with ⟨text, q, hText, hErase⟩
      exact hImage hText hErase
    · intro h
      exact ⟨p.listing, Program.exists_assemble_listing h⟩
  · constructor
    · intro h
      rcases Program.exists_assemble_listing h with
        ⟨q, hText, hErase⟩
      refine ⟨q, hText, hErase, ?_⟩
      rw [← Program.listing_eraseLines, hErase,
        Program.listing_eraseLines]
    · intro hRead
      rcases hRead with ⟨q, hText, hErase, _⟩
      exact hImage hText hErase

/-
  A function with two labels at one position, a label behind
  its last instruction, an array and a negative number.
-/
def countingDown : Program :=
  { functions :=
      [{ name := "count-down"
         returns := .value .int
         params := [⟨"a", .array .int 8⟩, ⟨"n", .scalar .int⟩]
         ints := []
         floats := [⟨"x_1", .float, none, 3⟩, ⟨"y", .float, some 0, 3⟩]
         code :=
           [⟨.brleq, [.label "end", .var "n", .int 0], 6⟩,
            ⟨.store, [.var "n", .var "a", .int 7], 7⟩,
            ⟨.add, [.var "n", .var "n", .int (-1)], 8⟩,
            ⟨.assign, [.element "y" (.var "n"), .var "x_1"], 9⟩,
            ⟨.goto, [.label "next"], 10⟩]
         labels :=
           [⟨"first", 0, 4⟩, ⟨"next", 0, 5⟩, ⟨"end", 5, 11⟩]
         line := 2 }] }

theorem countingDown_reads_back :
    countingDown.Printable ∧
      ∃ q, assemble countingDown.listing = .ok q ∧
        q.eraseLines = countingDown.eraseLines ∧
        q.listing = countingDown.listing := by
  have hPrintable : countingDown.Printable := by
    decide
  exact ⟨hPrintable,
    (printable_iff_listing_reads_back countingDown).2.mp hPrintable⟩

end ThreeAddress
