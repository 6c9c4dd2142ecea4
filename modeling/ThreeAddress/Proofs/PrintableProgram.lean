import Mathlib.Tactic.MkIffOfInductiveProp
import ThreeAddress.Assembly
import ThreeAddress.Proofs.LineText

/-
  This file defines the programs that can be written as text,
  and shows that no other programs are ever read.

  A program is printable when its names are words, no label is
  named like a list of declarations, the labels of a function
  stand in the order of their positions and inside the body,
  lengths and numbers can be written, and every instruction
  has operands that its operation takes. Line numbers play no
  part in it.

  Key definitions include:
    * `Program.eraseLines`
    * `Function.Printable`, `Program.Printable`
    * `Assembly.Printable`

  Main statements:
    * `Program.listing_eraseLines`
    * `Program.printable_eraseLines`
    * `Program.printable_of_assemble`
-/

namespace ThreeAddress

------------------------------------------------------------
-- Programs Up to Lines
------------------------------------------------------------

/- The instruction without its line. -/
def Instruction.eraseLine (i : Instruction) : Instruction :=
  { i with line := 0 }

/- The declaration without its line. -/
def Declaration.eraseLine (d : Declaration) : Declaration :=
  { d with line := 0 }

/- The label without its line. -/
def LabelDef.eraseLine (l : LabelDef) : LabelDef :=
  { l with line := 0 }

namespace Function

/- The function without its lines. -/
def eraseLines (f : Function) : Function :=
  { f with
    ints := f.ints.map Declaration.eraseLine
    floats := f.floats.map Declaration.eraseLine
    code := f.code.map Instruction.eraseLine
    labels := f.labels.map LabelDef.eraseLine
    line := 0 }

theorem listLine_eraseLine
    (type : Scalar)
    (ds : List Declaration) :
    listLine type (ds.map Declaration.eraseLine) =
      listLine type ds := by
  cases ds with
  | nil => rfl
  | cons d ds =>
      simp only [listLine, List.map_map]
      rfl

/- The texts of labels do not depend on their lines. -/
theorem map_text_eraseLine
    (ls : List LabelDef) :
    (ls.map LabelDef.eraseLine).map LabelDef.text =
      ls.map LabelDef.text := by
  rw [List.map_map]
  rfl

theorem bodyLines_eraseLine
    (position : Nat)
    (ls : List LabelDef)
    (code : List Instruction) :
    bodyLines position (ls.map LabelDef.eraseLine)
        (code.map Instruction.eraseLine) =
      bodyLines position ls code := by
  induction code generalizing position ls with
  | nil => exact map_text_eraseLine ls
  | cons i code ih =>
      simp only [List.map_cons, bodyLines, List.takeWhile_map,
        List.dropWhile_map, map_text_eraseLine]
      rw [ih]
      rfl

theorem listing_eraseLines
    (f : Function) :
    f.eraseLines.listing = f.listing := by
  simp only [listing, eraseLines, listLine_eraseLine,
    bodyLines_eraseLine]
  rfl

end Function

namespace Program

/- The program without its lines. -/
def eraseLines (p : Program) : Program :=
  { functions := p.functions.map Function.eraseLines }

/- The canonical text does not depend on lines. -/
theorem listing_eraseLines
    (p : Program) :
    p.eraseLines.listing = p.listing := by
  simp only [listing, eraseLines, List.flatMap_map,
    Function.listing_eraseLines]

end Program

------------------------------------------------------------
-- Printable Programs
------------------------------------------------------------

/- All parts of a function can be written. -/
@[mk_iff]
structure Function.Printable (f : Function) : Prop where
  name : IsName f.name
  params : ∀ p ∈ f.params, p.Printable
  ints : ∀ d ∈ f.ints, d.type = .int ∧ d.Printable
  floats : ∀ d ∈ f.floats, d.type = .float ∧ d.Printable
  code : ∀ i ∈ f.code, i.opcode.Takes i.operands
  labels : ∀ l ∈ f.labels, IsLabelName l.name
  ordered : f.labels.Pairwise fun l m => l.position ≤ m.position
  inside : ∀ l ∈ f.labels, l.position ≤ f.code.length

instance (f : Function) : Decidable f.Printable :=
  decidable_of_iff _ (Function.printable_iff f).symm

/- All functions of a program can be written. -/
def Program.Printable (p : Program) : Prop :=
  ∀ f ∈ p.functions, f.Printable

instance (p : Program) : Decidable p.Printable :=
  inferInstanceAs (Decidable (∀ f ∈ p.functions, f.Printable))

theorem Function.printable_eraseLines
    {f : Function} :
    f.eraseLines.Printable ↔ f.Printable := by
  simp only [Function.printable_iff, eraseLines,
    List.forall_mem_map, List.pairwise_map, List.length_map]
  exact Iff.rfl

/- Whether a program is printable does not depend on lines. -/
theorem Program.printable_eraseLines
    {p : Program} :
    p.eraseLines.Printable ↔ p.Printable := by
  simp only [Printable, eraseLines, List.forall_mem_map,
    Function.printable_eraseLines]

------------------------------------------------------------
-- Only Printable Programs Are Read
------------------------------------------------------------

namespace Draft

theorem printable_ofHeader
    {returns : ReturnType}
    {name : String}
    {params : List Parameter}
    {line : Nat}
    (hName : IsName name)
    (hParams : ∀ p ∈ params, p.Printable) :
    (ofHeader returns name params line).function.Printable := by
  refine ⟨hName, hParams, ?_, ?_, ?_, ?_, ?_, ?_⟩
  all_goals simp [ofHeader, function]

/- A new label stands behind all labels before it. -/
theorem printable_addLabel
    {d : Draft}
    {name : String}
    {line : Nat}
    (h : d.function.Printable)
    (hName : IsLabelName name) :
    (d.addLabel name line).function.Printable := by
  have hLabels : (d.addLabel name line).function.labels =
      d.function.labels ++ [⟨name, d.code.size, line⟩] :=
    Array.toList_push
  have hSize : d.function.code.length = d.code.size :=
    Array.length_toList
  refine ⟨h.name, h.params, h.ints, h.floats, h.code, ?_, ?_, ?_⟩
  · rw [hLabels, List.forall_mem_append, List.forall_mem_singleton]
    exact ⟨h.labels, hName⟩
  · rw [hLabels, List.pairwise_append]
    refine ⟨h.ordered, List.pairwise_singleton _ _, ?_⟩
    intro l hl m hm
    rw [List.mem_singleton.mp hm, ← hSize]
    exact h.inside l hl
  · rw [hLabels, List.forall_mem_append, List.forall_mem_singleton]
    exact ⟨h.inside, hSize.ge⟩

theorem printable_push
    {d : Draft}
    {i : Instruction}
    (h : d.function.Printable)
    (hTakes : i.opcode.Takes i.operands) :
    ({ d with code := d.code.push i } : Draft).function.Printable := by
  have hCode :
      ({ d with code := d.code.push i } : Draft).function.code =
        d.function.code ++ [i] :=
    Array.toList_push
  refine ⟨h.name, h.params, h.ints, h.floats, ?_, h.labels,
    h.ordered, ?_⟩
  · rw [hCode, List.forall_mem_append, List.forall_mem_singleton]
    exact ⟨h.code, hTakes⟩
  · intro l hl
    rw [hCode, List.length_append]
    exact Nat.le_add_right_of_le (h.inside l hl)

theorem printable_setList
    {d : Draft}
    {type : Scalar}
    {ds : List Declaration}
    (h : d.function.Printable)
    (hList : ∀ x ∈ ds, x.type = type ∧ x.Printable) :
    (d.setList type ds).function.Printable := by
  cases type with
  | int =>
      exact ⟨h.name, h.params, hList, h.floats, h.code, h.labels,
        h.ordered, h.inside⟩
  | float =>
      exact ⟨h.name, h.params, h.ints, hList, h.code, h.labels,
        h.ordered, h.inside⟩

/- A printable line keeps the open function printable. -/
theorem printable_of_accept
    {d e : Draft}
    {number : Nat}
    {line : Line}
    (h : d.function.Printable)
    (hLine : line.Printable)
    (hAccept : d.accept number line = .ok e) :
    e.function.Printable := by
  cases line with
  | startFunction | endFunction | header => cases hAccept
  | declarations type items =>
      simp only [accept] at hAccept
      split at hAccept
      · cases hAccept
      · split at hAccept
        · cases hAccept
        · cases hAccept
          apply printable_setList h
          rw [List.forall_mem_map]
          exact fun x hx => ⟨rfl, hLine x hx⟩
  | label name =>
      cases hAccept
      exact printable_addLabel h hLine
  | instruction front op xs =>
      cases hAccept
      cases front with
      | none => exact printable_push h hLine.2
      | some l =>
          apply printable_push _ hLine.2
          exact printable_addLabel h (hLine.1 l rfl)

end Draft

namespace Assembly

/- What has been read so far is printable. -/
structure Printable (a : Assembly) : Prop where
  functions : ∀ f ∈ a.functions.toList, f.Printable
  draft : ∀ start d,
    a.block = .started start d → d.function.Printable

theorem printable_of_accept
    {a b : Assembly}
    {number : Nat}
    {line : Line}
    (h : a.Printable)
    (hLine : line.Printable)
    (hAccept : a.accept number line = .ok b) :
    b.Printable := by
  rcases a with ⟨functions, _ | start | ⟨start, d⟩⟩
  · cases line
    case startFunction =>
      cases hAccept
      exact ⟨h.functions, by simp⟩
    all_goals cases hAccept
  · cases line
    case header returns name params =>
      cases hAccept
      refine ⟨h.functions, ?_⟩
      intro _ _ hBlock
      cases hBlock
      exact Draft.printable_ofHeader hLine.1 hLine.2
    all_goals cases hAccept
  · have hDraft := h.draft start d rfl
    cases line
    case startFunction => cases hAccept
    case endFunction =>
      cases hAccept
      refine ⟨?_, by simp⟩
      rw [Array.toList_push, List.forall_mem_append,
        List.forall_mem_singleton]
      exact ⟨h.functions, hDraft⟩
    all_goals
      simp only [accept] at hAccept
      split at hAccept
      · cases hAccept
      · next e hOk =>
          cases hAccept
          refine ⟨h.functions, ?_⟩
          intro _ _ hBlock
          cases hBlock
          exact Draft.printable_of_accept hDraft hLine hOk

theorem printable_of_readLine
    {a b : Assembly}
    {number : Nat}
    {text : List Char}
    (h : a.Printable)
    (hRead : a.readLine number text = .ok b) :
    b.Printable := by
  unfold readLine at hRead
  split at hRead
  · cases hRead
  · next tokens hTokens =>
      split at hRead
      · cases hRead
      · cases hRead
        exact h
      · next line hLine =>
          apply printable_of_accept h _ hRead
          exact Line.printable_of_ofTokens
            (Token.wellFormed_of_ofLine hTokens) hLine

theorem printable_of_readLines
    {a b : Assembly}
    {number : Nat}
    {texts : List (List Char)}
    (h : a.Printable)
    (hRead : a.readLines number texts = .ok b) :
    b.Printable := by
  induction texts generalizing a number with
  | nil =>
      cases hRead
      exact h
  | cons text texts ih =>
      simp only [readLines] at hRead
      split at hRead
      · cases hRead
      · next c hLine =>
          exact ih (printable_of_readLine h hLine) hRead

theorem printable_empty : empty.Printable :=
  ⟨by simp [empty], by simp [empty]⟩

end Assembly

/- Whatever text a program is read from, it is printable. -/
theorem Program.printable_of_assemble
    {text : String}
    {p : Program}
    (h : assemble text = .ok p) :
    p.Printable := by
  unfold assemble at h
  split at h
  · cases h
  · next a hRead =>
      have hRead :=
        Assembly.printable_of_readLines Assembly.printable_empty hRead
      unfold Assembly.finish at h
      split at h
      · cases h
        exact hRead.functions
      · cases h
      · cases h

end ThreeAddress
