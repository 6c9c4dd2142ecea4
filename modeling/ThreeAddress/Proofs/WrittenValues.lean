import Mathlib.Data.List.TakeWhile
import ThreeAddress.Proofs.FailingOutput
import ThreeAddress.Proofs.FlatReading
import ThreeAddress.Proofs.TokenText

/-
  This file shows that what a program writes can be read as
  input again: integers with a blank behind each of them, and
  characters. What is written is always valid UTF-8, so that
  the input cuts it into lines without losing a character,
  and the output of a run is decoded without a replacement.

  Key definitions include:
    * `Written`, `Written.chars`, `Written.bytes`
    * `Buffer.writeAll`

  Main statements:
    * `Buffer.bytes_writeAll`
    * `Feed.items_encode`
    * `FlatReader.serveAll_readInt`
    * `FlatReader.serveAll_readChar`
    * `Writes.exists_text`
    * `written_values_are_read_back`
-/

namespace ThreeAddress

------------------------------------------------------------
-- Written Values
------------------------------------------------------------

/- A value that is written. -/
inductive Written where
| int (n : Int32)
| float (x : Single)
| char (c : Char)

namespace Written

/- The text of a written value. -/
def chars : Written → List Char
| .int n => Decimal.ofInt n.toInt
| .float x => x.chars
| .char c => [c]

/- The bytes of a written value. -/
def bytes : Written → ByteArray
| .int n => outputInt n
| .float x => outputFloat x
| .char c => outputChar c

theorem bytes_eq
    (w : Written) :
    w.bytes = textBytes w.chars := by
  cases w <;> rfl

end Written

namespace Buffer

/- The buffer behind values that are written one by one. -/
def writeAll (b : Buffer) : List Written → Buffer
| [] => b
| w :: ws => writeAll (Sink.write b w.bytes).1 ws

/- The bytes of a buffer grow by the text of the values. -/
theorem bytes_writeAll
    (b : Buffer)
    (ws : List Written) :
    (b.writeAll ws).bytes =
      b.bytes ++ textBytes (ws.flatMap Written.chars) := by
  induction ws generalizing b with
  | nil => exact ByteArray.append_empty.symm
  | cons w ws ih =>
      have hWrite : (Sink.write b w.bytes).1 = ⟨b.bytes ++ w.bytes⟩ := rfl
      rw [writeAll, ih, hWrite, w.bytes_eq, ByteArray.append_assoc,
        List.flatMap_cons]
      simp [textBytes]

theorem bytes_writeAll_empty
    (ws : List Written) :
    (empty.writeAll ws).bytes = textBytes (ws.flatMap Written.chars) :=
  (bytes_writeAll empty ws).trans ByteArray.empty_append

end Buffer

------------------------------------------------------------
-- Items of a Text
------------------------------------------------------------

namespace Feed

/- The bytes of characters. -/
def encode (cs : List Char) : List UInt8 :=
  cs.flatMap String.utf8EncodeChar

theorem toList_textBytes
    (cs : List Char) :
    (textBytes cs).data.toList = encode cs := by
  have hBytes : textBytes cs = (encode cs).toByteArray :=
    String.toByteArray_ofList
  rw [hBytes, List.data_toByteArray]

theorem decode?_encode
    (cs : List Char) :
    decode? (encode cs) = some cs := by
  have hBytes : (encode cs).toByteArray = (String.ofList cs).toUTF8 :=
    String.toByteArray_ofList.symm
  rw [decode?, hBytes, Utf8.fromUTF8?_toUTF8, Option.map_some,
    String.toList_ofList]

/- Bytes without a line feed go on before the first line. -/
theorem lines_append_of_lines
    {front bytes line : List UInt8}
    {rest : List (List UInt8)}
    (hFront : lineFeed ∉ front)
    (hLines : lines bytes = line :: rest) :
    lines (front ++ bytes) = (front ++ line) :: rest := by
  induction front with
  | nil => exact hLines
  | cons b front ih =>
      rw [List.mem_cons, not_or] at hFront
      have hPush : lines (b :: front ++ bytes) =
          pushByte b (lines (front ++ bytes)) := rfl
      rw [hPush, ih hFront.2, pushByte, if_neg (Ne.symm hFront.1)]
      rfl

/- Bytes without a line feed are one line. -/
theorem lines_of_notMem
    {bytes : List UInt8}
    (hNone : lineFeed ∉ bytes)
    (hSome : bytes ≠ []) :
    lines bytes = [bytes] := by
  rcases bytes.eq_nil_or_concat with rfl | ⟨front, b, rfl⟩
  · exact absurd rfl hSome
  · rw [List.concat_eq_append, List.mem_append, List.mem_singleton,
      not_or] at hNone
    have hLast : lines [b] = [[b]] := by
      have hPush : lines [b] = pushByte b [] := rfl
      rw [hPush, pushByte.eq_def, if_neg (Ne.symm hNone.2)]
    rw [List.concat_eq_append, lines_append_of_lines hNone.1 hLast]

/- The lines of a text are the bytes of lines of characters. -/
theorem exists_lines_encode
    (cs : List Char) :
    ∃ ls : List (List Char),
      ls.flatten = cs ∧ lines (encode cs) = ls.map encode := by
  induction cs with
  | nil => exact ⟨[], rfl, rfl⟩
  | cons c cs ih =>
      rcases ih with ⟨ls, hFlat, hLines⟩
      by_cases hc : c = '\n'
      · subst hc
        refine ⟨['\n'] :: ls, ?_, ?_⟩
        · rw [List.flatten_cons, hFlat]
          rfl
        · have hPush : lines (encode ('\n' :: cs)) =
              pushByte lineFeed (lines (encode cs)) := rfl
          rw [hPush, hLines, pushByte.eq_def, if_pos rfl]
          rfl
      · have hNone : lineFeed ∉ String.utf8EncodeChar c :=
          fun hMem => hc (eq_newline_of_mem hMem)
        have hText : encode (c :: cs) =
            String.utf8EncodeChar c ++ encode cs := rfl
        cases ls with
        | nil =>
            obtain rfl : cs = [] := hFlat.symm
            refine ⟨[[c]], rfl, ?_⟩
            rw [hText, encode, List.flatMap_nil, List.append_nil,
              lines_of_notMem hNone String.utf8EncodeChar_ne_nil]
            simp [encode]
        | cons l ls =>
            refine ⟨(c :: l) :: ls, ?_, ?_⟩
            · rw [← hFlat]
              rfl
            · rw [hText, lines_append_of_lines hNone hLines]
              rfl

/- The items of a text are its characters. -/
theorem items_encode
    (cs : List Char) :
    items (encode cs) = cs.map .char := by
  rcases exists_lines_encode cs with ⟨ls, rfl, hLines⟩
  have hItems : ∀ l : List Char, lineItems (encode l) = l.map .char := by
    intro l
    rw [lineItems, decode?_encode]
  rw [items, hLines, List.flatMap_map, List.map_flatten,
    List.flatMap_def]
  exact congrArg List.flatten (List.map_congr_left fun l _ => hItems l)

end Feed

/- The input of written values gives what a flat reader of their text does. -/
theorem Input.serveAll_writeAll
    (ws : List Written)
    (qs : List ReadRequest) :
    (serveAll Input.serve qs
        (Input.ofBytes (Buffer.empty.writeAll ws).bytes.data.toList)).1 =
      (serveAll FlatReader.serve qs
        ((ws.flatMap Written.chars).map .char)).1 := by
  rw [Buffer.bytes_writeAll_empty, Feed.toList_textBytes,
    ← Feed.items_encode]
  exact ((Input.holds_ofBytes _).serveAll qs).1

------------------------------------------------------------
-- Reading Them Back
------------------------------------------------------------

namespace FlatReader

/- A token behind blanks is taken up to the next blank. -/
theorem nextToken_of_blanks
    {blanks token rest : List Char}
    (hBlanks : ∀ c ∈ blanks, Text.isBlank c = true)
    (hToken : ∀ c ∈ token, Text.isBlank c = false)
    (hSome : token ≠ [])
    (hRest : Stops (!Text.isBlank ·) rest) :
    nextToken ((blanks ++ (token ++ rest)).map .char) =
      (.ok (some (String.ofList token)), rest.map .char) := by
  cases token with
  | nil => exact absurd rfl hSome
  | cons c token =>
      have hPart : ∀ d ∈ c :: token, (!Text.isBlank d) = true := by
        intro d hd
        rw [hToken d hd]
        rfl
      rcases takeWhile_of_stops hPart hRest with ⟨hTake, hDrop⟩
      have hSkip : (blanks ++ (c :: token ++ rest)).dropWhile
          Text.isBlank = c :: (token ++ rest) := by
        rw [List.dropWhile_append_of_pos hBlanks, List.cons_append,
          List.dropWhile_cons_of_neg]
        rw [hToken c List.mem_cons_self]
        decide
      have hBehind : ((blanks ++ (c :: token ++ rest)).map
          Item.char).dropWhile Item.isBlank =
            .char c :: (token ++ rest).map .char := by
        rw [List.dropWhile_map]
        exact congrArg (List.map Item.char) hSkip
      have hTaken : (Item.char c :: (token ++ rest).map .char).takeWhile
          Item.inToken = (c :: token).map .char := by
        rw [← List.map_cons, List.takeWhile_map]
        exact congrArg (List.map Item.char) hTake
      have hLeft : (Item.char c :: (token ++ rest).map .char).dropWhile
          Item.inToken = rest.map .char := by
        rw [← List.map_cons, List.dropWhile_map]
        exact congrArg (List.map Item.char) hDrop
      have hChars : ((c :: token).map Item.char).filterMap Item.char? =
          c :: token := by
        rw [List.filterMap_map]
        exact List.filterMap_some
      rw [nextToken_of_char hBehind, hTaken, hLeft, hChars]

/- There is no token in blanks. -/
theorem nextToken_of_all_blank
    {blanks : List Char}
    (hBlanks : ∀ c ∈ blanks, Text.isBlank c = true) :
    nextToken (blanks.map .char) = (.ok none, []) := by
  have hSkip : (blanks.map Item.char).dropWhile Item.isBlank = [] := by
    rw [List.dropWhile_map]
    exact congrArg (List.map Item.char)
      (List.dropWhile_eq_nil_iff.mpr hBlanks)
  rw [nextToken, hSkip]

/- The text of an integer holds no blank, and is not empty. -/
theorem isBlank_of_mem_ofInt
    (n : Int32) :
    (∀ c ∈ Decimal.ofInt n.toInt, Text.isBlank c = false) ∧
      Decimal.ofInt n.toInt ≠ [] := by
  have hText : (Token.int n).text.toList = Decimal.ofInt n.toInt :=
    String.toList_ofList
  have hWell : (Token.int n).WellFormed := trivial
  rcases Token.Spelling.exists_text_cons hWell [] with
    ⟨c, cs, hCons, _⟩
  rw [List.append_nil, hText] at hCons
  constructor
  · intro c hc
    rw [← hText] at hc
    exact Token.isBlank_of_isVisible (hWell.isVisible c hc)
  · rw [hCons]
    exact List.cons_ne_nil c cs

/- Integers are read one by one, over the blanks between them. -/
theorem serveAll_readInt
    {lead : List Char}
    {xs : List (Int32 × Char)}
    (hLead : ∀ c ∈ lead, Text.isBlank c = true)
    (hBlank : ∀ x ∈ xs, Text.isBlank x.2 = true) :
    (serveAll serve (List.replicate (xs.length + 1) .readInt)
        ((lead ++ xs.flatMap fun x =>
          Decimal.ofInt x.1.toInt ++ [x.2]).map .char)).1 =
      xs.map (fun x => .readInt (.ok x.1)) ++
        [.readInt (.error (.endOfInput "int"))] := by
  induction xs generalizing lead with
  | nil =>
      rw [List.flatMap_nil, List.append_nil, List.length_nil,
        List.replicate_succ, serveAll, serve,
        nextToken_of_all_blank hLead]
      rfl
  | cons x xs ih =>
      rw [List.forall_mem_cons] at hBlank
      rcases isBlank_of_mem_ofInt x.1 with ⟨hToken, hSome⟩
      have hNext : ∀ c ∈ [x.2], Text.isBlank c = true := by
        rw [List.forall_mem_singleton]
        exact hBlank.1
      have hStops : Stops (!Text.isBlank ·)
          ([x.2] ++ xs.flatMap fun x =>
            Decimal.ofInt x.1.toInt ++ [x.2]) := by
        intro c hc
        cases hc
        show (!Text.isBlank x.2) = false
        rw [hBlank.1]
        rfl
      have hRead : intOfToken (.ok (some (String.ofList
          (Decimal.ofInt x.1.toInt)))) = .ok x.1 := by
        rw [intOfToken, valueOfToken, String.toList_ofList,
          Decimal.int32?_ofInt]
      rw [List.flatMap_cons, List.append_assoc, List.length_cons,
        List.replicate_succ, serveAll, serve,
        nextToken_of_blanks hLead hToken hSome hStops]
      dsimp only [Prod.map, Function.comp, id]
      rw [ih hNext hBlank.2, hRead]
      rfl

/- Characters are read one by one. -/
theorem serveAll_readChar
    (cs : List Char) :
    (serveAll serve (List.replicate (cs.length + 1) .readChar)
        (cs.map .char)).1 =
      cs.map (fun c => .readChar (.ok (Int32.ofNat c.toNat))) ++
        [.readChar (.error (.endOfInput "char"))] := by
  induction cs with
  | nil => rfl
  | cons c cs ih =>
      rw [List.length_cons, List.replicate_succ, serveAll]
      exact congrArg (ReadReply.readChar _ :: ·) ih

end FlatReader

/- A code point fits into 32 bits. -/
theorem toInt_ofNat_toNat
    (c : Char) :
    (Int32.ofNat c.toNat).toInt = c.toNat := by
  apply Int32.toInt_ofNat_of_lt
  have hValid : c.toNat.isValidChar := c.valid
  rcases hValid with hLow | hHigh
  · omega
  · omega

------------------------------------------------------------
-- Outputs of Runs
------------------------------------------------------------

/- Every machine of a run adds to the output of the first one. -/
theorem Machine.Reachable.exists_extends
    {exe : Executable}
    {cfg : Config}
    {input : Input}
    {m : Machine Buffer}
    (h : Reachable exe cfg input Buffer.empty m) :
    ∃ count, Extends count (Machine.initial input Buffer.empty) m := by
  induction h with
  | start hEnter =>
      have hFirst := extends_enter (Machine.initial input Buffer.empty)
        exe cfg none exe.entry [] none
      rw [hEnter] at hFirst
      exact ⟨0, hFirst⟩
  | @step last next _ hStep ih =>
      rcases ih with ⟨count, hLast⟩
      rcases exists_extends_of_step (m := last) exe cfg with
        ⟨more, hMore⟩
      rw [hStep] at hMore
      exact ⟨count + more, hLast.trans hMore⟩

/- What a run has written, at any time, is the bytes of a text. -/
theorem Writes.exists_text
    {exe : Executable}
    {cfg : Config}
    {input : Input}
    {bytes : ByteArray}
    (h : Writes exe cfg input bytes) :
    ∃ text : String, bytes = text.toUTF8 := by
  have hExtends : ∃ count m, m.output.bytes = bytes ∧
      Machine.Extends count (Machine.initial input Buffer.empty) m := by
    rcases h with ⟨m, hReachable, hBytes⟩ |
      ⟨rounds, result, run, hEnds, hBytes⟩
    · rcases hReachable.exists_extends with ⟨count, hRun⟩
      exact ⟨count, m, hBytes, hRun⟩
    · rcases Run.exists_runEntry_of_start hEnds with ⟨ended, hEnded, _⟩
      rcases Machine.exists_extends_of_runEntry hEnded with ⟨count, hRun⟩
      exact ⟨count, run.machine, hBytes, hRun⟩
  rcases hExtends with ⟨count, m, rfl, hRun⟩
  rcases hRun.output with ⟨text, hText⟩
  exact ⟨text, hText.trans ByteArray.empty_append⟩

/- The output of a report is what the run has written. -/
theorem toUTF8_output_evaluate
    (exe : Executable)
    (input : String)
    (cfg : Config)
    (rounds : Nat) :
    (evaluate exe input cfg rounds).map (fun r => r.output.toUTF8) =
      ((Run.initial (Input.ofString input) Buffer.empty).start exe cfg
        rounds).map fun ended => ended.2.machine.output.bytes := by
  rw [evaluate, Option.map_map]
  cases hEnds : (Run.initial (Input.ofString input) Buffer.empty).start
    exe cfg rounds with
  | none => rfl
  | some ended =>
      rcases ended with ⟨result, run⟩
      have hWrites : Writes exe cfg (Input.ofString input)
          run.machine.output.bytes :=
        .inr ⟨rounds, result, run, hEnds, rfl⟩
      rcases hWrites.exists_text with ⟨text, hText⟩
      show some run.machine.output.text.toUTF8 = _
      rw [Buffer.text_eq hText, ← hText]
      rfl

------------------------------------------------------------
-- Main Statement
------------------------------------------------------------

/-
  Integers that are written with a blank behind each of them
  are read back in order, and then the input has ended; so
  are characters, as their code points. Whatever is written,
  by a run or otherwise, is valid UTF-8, and decoding the
  output of a run gives just the text that was written.
-/
theorem written_values_are_read_back :
    (∀ xs : List (Int32 × Char),
      (∀ x ∈ xs, Text.isBlank x.2 = true) →
        let written := Buffer.empty.writeAll
          (xs.flatMap fun x => [.int x.1, .char x.2])
        (serveAll Input.serve (List.replicate (xs.length + 1) .readInt)
            (Input.ofBytes written.bytes.data.toList)).1 =
          xs.map (fun x => .readInt (.ok x.1)) ++
            [.readInt (.error (.endOfInput "int"))]) ∧
      (∀ cs : List Char,
        let written := Buffer.empty.writeAll (cs.map .char)
        ∃ codes : List Int32,
          codes.map Int32.toInt = cs.map (fun c => (c.toNat : Int)) ∧
            (serveAll Input.serve
                (List.replicate (cs.length + 1) .readChar)
                (Input.ofBytes written.bytes.data.toList)).1 =
              codes.map (fun code => .readChar (.ok code)) ++
                [.readChar (.error (.endOfInput "char"))]) ∧
      (∀ ws, (Buffer.empty.writeAll ws).bytes.IsValidUTF8) ∧
      (∀ exe cfg input bytes,
        Writes exe cfg input bytes →
          bytes.IsValidUTF8 ∧
            (Utf8.decodeFrom bytes 0 "").toUTF8 = bytes) ∧
      ∀ exe input cfg rounds,
        (evaluate exe input cfg rounds).map (fun r => r.output.toUTF8) =
          ((Run.initial (Input.ofString input) Buffer.empty).start exe
            cfg rounds).map fun ended =>
              ended.2.machine.output.bytes := by
  refine ⟨?_, ?_, ?_, ?_, toUTF8_output_evaluate⟩
  · intro xs hBlank written
    have hText : (xs.flatMap fun x => [Written.int x.1, .char x.2]).flatMap
        Written.chars =
          [] ++ xs.flatMap fun x => Decimal.ofInt x.1.toInt ++ [x.2] := by
      rw [List.flatMap_assoc]
      rfl
    rw [Input.serveAll_writeAll, hText,
      FlatReader.serveAll_readInt (List.forall_mem_nil _) hBlank]
  · intro cs written
    have hText : (cs.map Written.char).flatMap Written.chars = cs := by
      rw [List.flatMap_map]
      exact List.flatMap_singleton' cs
    refine ⟨cs.map fun c => Int32.ofNat c.toNat, ?_, ?_⟩
    · rw [List.map_map]
      exact List.map_congr_left fun c _ => toInt_ofNat_toNat c
    · rw [Input.serveAll_writeAll, hText, FlatReader.serveAll_readChar,
        List.map_map]
      rfl
  · intro ws
    rw [Buffer.bytes_writeAll_empty]
    exact String.isValidUTF8 _
  · intro exe cfg input bytes hWrites
    rcases hWrites.exists_text with ⟨text, rfl⟩
    refine ⟨text.isValidUTF8, ?_⟩
    rw [← Utf8.decode_eq_decodeFrom, Utf8.decode_toUTF8]

/-
  The least and the greatest integer are read back from two
  lines, the second of which ends in a wide blank. What is
  written around a letter of two bytes is decoded with it.
-/
theorem extreme_integers_are_read_back :
    (serveAll Input.serve [.readInt, .readInt, .readInt]
        (Input.ofBytes (Buffer.empty.writeAll
          [ .int Int32.minValue, .char '\n'
          , .int Int32.maxValue, .char '\u3000' ]).bytes.data.toList)).1 =
        [ .readInt (.ok Int32.minValue), .readInt (.ok Int32.maxValue)
        , .readInt (.error (.endOfInput "int")) ] ∧
      ∃ bytes,
        Writes spellingExecutable {} (Input.ofString "") bytes ∧
          bytes.data.toList = [55, 195, 169, 56] ∧
          bytes.IsValidUTF8 ∧
          (Utf8.decodeFrom bytes 0 "").toUTF8 = bytes := by
  rcases written_values_are_read_back with ⟨hInts, _, _, hRuns, _⟩
  constructor
  · exact hInts [(Int32.minValue, '\n'), (Int32.maxValue, '\u3000')]
      (by simp [Text.isBlank, Text.blankRanges])
  · have hEnds : ((Run.initial (Input.ofString "") Buffer.empty).start
        spellingExecutable {} 5).map
          (fun ended => ended.2.machine.output.bytes.data.toList) =
        some [55, 195, 169, 56] := by
      decide +kernel
    rcases Option.map_eq_some_iff.mp hEnds with
      ⟨⟨result, run⟩, hRun, hBytes⟩
    have hWrites : Writes spellingExecutable {} (Input.ofString "")
        run.machine.output.bytes :=
      .inr ⟨5, result, run, hRun, rfl⟩
    exact ⟨_, hWrites, hBytes, hRuns _ _ _ _ hWrites⟩

end ThreeAddress
