import Mathlib.Data.List.Forall2
import ThreeAddress.Console.Input

/-
  This file compares the input, which fetches and decodes one
  line at a time, with a plain reader of one list of items:
  the characters of all lines in order, where a line that is
  not valid UTF-8 is a single item of its own.

  Inside a token the input may have to be filled again, and
  what is read of the token is lost if that fails. That it
  never fails rests on what lines are: each but the last one
  ends in a line feed, which is a blank, so that a token ends
  before its line does, or at the end of the input.

  Key definitions include:
    * `Item`, `Feed.items`
    * `FlatReader.nextChar`, `FlatReader.nextToken`
    * `ReadRequest`, `ReadReply`, `serveAll`
    * `ReadReply.Accounts`
    * `Input.Holds`, `Input.Filled`
    * `Input.MidLine`

  Main statements:
    * `Feed.items_cutLine`
    * `Feed.wholeLine_of_decode?`
    * `Input.Holds.fill`
    * `Input.Holds.fill_of_midLine`
    * `Input.Holds.takeToken`
    * `Input.Holds.serve`
    * `FlatReader.exists_taken`
    * `input_reads_as_flat_stream`
-/

namespace ThreeAddress

------------------------------------------------------------
-- Items
------------------------------------------------------------

/- A character of the input, or a line that is not valid. -/
inductive Item where
| char (c : Char)
| invalidLine
deriving DecidableEq

namespace Item

/- The item is a blank. -/
def isBlank : Item → Bool
| .char c => Text.isBlank c
| .invalidLine => false

/- The item is a character that may stand in a token. -/
def inToken : Item → Bool
| .char c => !Text.isBlank c
| .invalidLine => false

/- The character that the item is, if it is one. -/
def char? : Item → Option Char
| .char c => some c
| .invalidLine => none

end Item

namespace Feed

/- Put a byte before the lines of the bytes behind it. -/
def pushByte (b : UInt8) (lines : List (List UInt8)) : List (List UInt8) :=
  if b = lineFeed then
    [b] :: lines
  else
    match lines with
    | [] => [[b]]
    | line :: lines => (b :: line) :: lines

/- The lines of bytes, which are cut behind each line feed. -/
def lines (bytes : List UInt8) : List (List UInt8) :=
  bytes.foldr pushByte []

/- The items of a line. -/
def lineItems (line : List UInt8) : List Item :=
  match decode? line with
  | some cs => cs.map .char
  | none => [.invalidLine]

/- The items of bytes. -/
def items (bytes : List UInt8) : List Item :=
  (lines bytes).flatMap lineItems

end Feed

------------------------------------------------------------
-- The Flat Reader
------------------------------------------------------------

namespace FlatReader

/- Take the next item. -/
def nextChar : List Item → Except ConsoleError (Option Char) × List Item
| [] => (.ok none, [])
| .invalidLine :: items => (.error Feed.invalidLine, items)
| .char c :: items => (.ok (some c), items)

/-
  Drop blanks, and take the longest run of characters without
  a blank. The blank behind it stays.
-/
def nextToken (items : List Item) :
    Except ConsoleError (Option String) × List Item :=
  match items.dropWhile Item.isBlank with
  | [] => (.ok none, [])
  | .invalidLine :: items => (.error Feed.invalidLine, items)
  | items =>
      let token := (items.takeWhile Item.inToken).filterMap Item.char?
      (.ok (some (String.ofList token)), items.dropWhile Item.inToken)

end FlatReader

------------------------------------------------------------
-- Requests
------------------------------------------------------------

/- What can be asked of a reader. -/
inductive ReadRequest where
| nextChar
| nextToken
| readInt
| readFloat
| readChar
deriving DecidableEq

/- What a reader gives for each request. -/
inductive ReadReply where
| nextChar (result : Except ConsoleError (Option Char))
| nextToken (result : Except ConsoleError (Option String))
| readInt (result : Except ConsoleError Int32)
| readFloat (result : Except ConsoleError Single)
| readChar (result : Except ConsoleError Int32)

/- What a token gives when it is read as a value of a kind. -/
def valueOfToken
    {α : Type}
    (expected : String)
    (parse : String → Option α) :
    Except ConsoleError (Option String) → Except ConsoleError α
| .error e => .error e
| .ok none => .error (.endOfInput expected)
| .ok (some token) =>
    match parse token with
    | some a => .ok a
    | none => .error (.malformedToken token expected)

/- The token as an integer of 32 bits. -/
def intOfToken :
    Except ConsoleError (Option String) → Except ConsoleError Int32 :=
  valueOfToken "int" fun s => Decimal.int32? s.toList

/- The token as a finite number. -/
def floatOfToken :
    Except ConsoleError (Option String) → Except ConsoleError Single :=
  valueOfToken "float" fun s => (Single.ofText? s).filter Single.isFinite

/- The character as its code point. -/
def codeOfChar : Except ConsoleError (Option Char) → Except ConsoleError Int32
| .error e => .error e
| .ok none => .error (.endOfInput "char")
| .ok (some c) => .ok (Int32.ofNat c.toNat)

/- What the input gives for a request. -/
def Input.serve (i : Input) : ReadRequest → ReadReply × Input
| .nextChar => i.nextChar.map .nextChar id
| .nextToken => i.nextToken.map .nextToken id
| .readInt => i.readInt.map .readInt id
| .readFloat => i.readFloat.map .readFloat id
| .readChar => i.readChar.map .readChar id

/- What the flat reader gives for a request. -/
def FlatReader.serve (items : List Item) : ReadRequest → ReadReply × List Item
| .nextChar => (nextChar items).map .nextChar id
| .nextToken => (nextToken items).map .nextToken id
| .readInt => (nextToken items).map (.readInt ∘ intOfToken) id
| .readFloat => (nextToken items).map (.readFloat ∘ floatOfToken) id
| .readChar => (nextChar items).map (.readChar ∘ codeOfChar) id

/- What a reader gives for requests, one after the other. -/
def serveAll
    {σ : Type}
    (serve : σ → ReadRequest → ReadReply × σ) :
    List ReadRequest → σ → List ReadReply × σ
| [], s => ([], s)
| q :: qs, s =>
    let served := serve s q
    let rest := serveAll serve qs served.2
    (served.1 :: rest.1, rest.2)

/- What a reader gives for a request when the input has ended. -/
def ReadRequest.atEnd : ReadRequest → ReadReply
| .nextChar => .nextChar (.ok none)
| .nextToken => .nextToken (.ok none)
| .readInt => .readInt (.error (.endOfInput "int"))
| .readFloat => .readFloat (.error (.endOfInput "float"))
| .readChar => .readChar (.error (.endOfInput "char"))

------------------------------------------------------------
-- What a Reply Takes
------------------------------------------------------------

/- The items that are taken by the reading of a character. -/
inductive TakesChar :
    Except ConsoleError (Option Char) → List Item → Prop
| char
    (c : Char) :
    TakesChar (.ok (some c)) [.char c]
| invalid :
    TakesChar (.error Feed.invalidLine) [.invalidLine]
| ended :
    TakesChar (.ok none) []

/-
  The items that are taken by the reading of a token: blanks,
  and then the token or an invalid line or nothing more.
-/
inductive TakesToken :
    Except ConsoleError (Option String) → List Item → Prop
| token
    {blanks token : List Char}
    (hBlanks : ∀ c ∈ blanks, Text.isBlank c = true)
    (hToken : ∀ c ∈ token, Text.isBlank c = false)
    (hSome : token ≠ []) :
    TakesToken (.ok (some (String.ofList token)))
      ((blanks ++ token).map .char)
| invalid
    {blanks : List Char}
    (hBlanks : ∀ c ∈ blanks, Text.isBlank c = true) :
    TakesToken (.error Feed.invalidLine)
      (blanks.map .char ++ [.invalidLine])
| ended
    {blanks : List Char}
    (hBlanks : ∀ c ∈ blanks, Text.isBlank c = true) :
    TakesToken (.ok none) (blanks.map .char)

namespace ReadReply

/- The reply is what the items that were taken for it give. -/
def Accounts (taken : List Item) : ReadReply → Prop
| .nextChar result => TakesChar result taken
| .nextToken result => TakesToken result taken
| .readInt result =>
    ∃ token, TakesToken token taken ∧ intOfToken token = result
| .readFloat result =>
    ∃ token, TakesToken token taken ∧ floatOfToken token = result
| .readChar result =>
    ∃ char, TakesChar char taken ∧ codeOfChar char = result

/- The reply is that a line could not be read. -/
def IsReadError (reply : ReadReply) : Prop :=
  ∃ reason,
    reply = .nextChar (.error (.read reason)) ∨
    reply = .nextToken (.error (.read reason)) ∨
    reply = .readInt (.error (.read reason)) ∨
    reply = .readFloat (.error (.read reason)) ∨
    reply = .readChar (.error (.read reason))

end ReadReply

/- Only blanks and one invalid line were taken. -/
def TakesOnlyInvalid (taken : List Item) : Prop :=
  ∃ blanks : List Char,
    (∀ c ∈ blanks, Text.isBlank c = true) ∧
      taken = blanks.map .char ++ [.invalidLine]

/- A character is not read only if its line is invalid. -/
theorem TakesChar.onlyInvalid_of_error
    {e : ConsoleError}
    {taken : List Item}
    (h : TakesChar (.error e) taken) :
    TakesOnlyInvalid taken := by
  cases h
  exact ⟨[], List.forall_mem_nil _, rfl⟩

/- A token is not read only if a line before it is invalid. -/
theorem TakesToken.onlyInvalid_of_error
    {e : ConsoleError}
    {taken : List Item}
    (h : TakesToken (.error e) taken) :
    TakesOnlyInvalid taken := by
  cases h with
  | invalid hBlanks => exact ⟨_, hBlanks, rfl⟩

/- The value of a token is a read error only if the token is. -/
theorem eq_error_of_valueOfToken
    {α : Type}
    {expected : String}
    {parse : String → Option α}
    {token : Except ConsoleError (Option String)}
    {reason : String}
    (h : valueOfToken expected parse token = .error (.read reason)) :
    token = .error (.read reason) := by
  rcases token with e | _ | token
  · cases h
    rfl
  · cases h
  · rw [valueOfToken] at h
    split at h <;> cases h

/- A read error takes no character of a token. -/
theorem ReadReply.Accounts.onlyInvalid_of_isReadError
    {taken : List Item}
    {reply : ReadReply}
    (h : reply.Accounts taken)
    (hError : reply.IsReadError) :
    TakesOnlyInvalid taken := by
  rcases hError with ⟨reason, rfl | rfl | rfl | rfl | rfl⟩
  · exact TakesChar.onlyInvalid_of_error h
  · exact TakesToken.onlyInvalid_of_error h
  · rcases h with ⟨token, hTakes, hValue⟩
    rw [eq_error_of_valueOfToken hValue] at hTakes
    exact hTakes.onlyInvalid_of_error
  · rcases h with ⟨token, hTakes, hValue⟩
    rw [eq_error_of_valueOfToken hValue] at hTakes
    exact hTakes.onlyInvalid_of_error
  · rcases h with ⟨char, hTakes, hValue⟩
    rcases char with e | _ | c
    · exact hTakes.onlyInvalid_of_error
    · cases hValue
    · cases hValue

------------------------------------------------------------
-- The Account of the Flat Reader
------------------------------------------------------------

namespace Item

/- Items without an invalid line are characters. -/
theorem map_char_filterMap
    {items : List Item}
    (h : .invalidLine ∉ items) :
    (items.filterMap char?).map .char = items := by
  induction items with
  | nil => rfl
  | cons item items ih =>
      rw [List.mem_cons, not_or] at h
      cases item with
      | char c => exact congrArg (.char c :: ·) (ih h.2)
      | invalidLine => exact absurd rfl h.1

/- A run of items of a kind of characters is made of characters. -/
theorem exists_run
    {p : Item → Bool}
    (hInvalid : p .invalidLine = false)
    (items : List Item) :
    ∃ cs : List Char,
      (∀ c ∈ cs, p (.char c) = true) ∧
        items.takeWhile p = cs.map .char ∧
          (items.takeWhile p).filterMap char? = cs := by
  have hAll : ∀ item ∈ items.takeWhile p, p item = true :=
    List.all_eq_true.mp List.all_takeWhile
  have hChars : ((items.takeWhile p).filterMap char?).map .char =
      items.takeWhile p := by
    apply map_char_filterMap
    intro hMem
    exact absurd (hAll _ hMem) (by rw [hInvalid]; decide)
  refine ⟨_, ?_, hChars.symm, rfl⟩
  intro c hMem
  have hItem := List.mem_map_of_mem (f := Item.char) hMem
  rw [hChars] at hItem
  exact hAll _ hItem

/- What stands behind blanks. -/
theorem dropWhile_isBlank_cases
    (items : List Item) :
    items.dropWhile isBlank = [] ∨
      (∃ rest, items.dropWhile isBlank = .invalidLine :: rest) ∨
        ∃ c rest,
          Text.isBlank c = false ∧
            items.dropWhile isBlank = .char c :: rest := by
  induction items with
  | nil => exact .inl rfl
  | cons item items ih =>
      rcases item with c | _
      · cases hBlank : (Item.char c).isBlank with
        | true => rwa [List.dropWhile_cons_of_pos hBlank]
        | false =>
            have hDrop := List.dropWhile_cons_of_neg
              (l := items) (ne_true_of_eq_false hBlank)
            exact .inr (.inr ⟨c, items, hBlank, hDrop⟩)
      · exact .inr (.inl ⟨items, rfl⟩)

end Item

namespace FlatReader

theorem exists_taken_nextChar
    (items : List Item) :
    ∃ taken,
      TakesChar (nextChar items).1 taken ∧
        items = taken ++ (nextChar items).2 := by
  rcases items with _ | ⟨c | _, items⟩
  · exact ⟨[], .ended, rfl⟩
  · exact ⟨[.char c], .char c, rfl⟩
  · exact ⟨[.invalidLine], .invalid, rfl⟩

/- The token that is found behind blanks. -/
theorem nextToken_of_char
    {items rest : List Item}
    {c : Char}
    (h : items.dropWhile Item.isBlank = .char c :: rest) :
    nextToken items =
      ( .ok (some (String.ofList
          (((.char c :: rest).takeWhile Item.inToken).filterMap Item.char?)))
      , (.char c :: rest).dropWhile Item.inToken ) := by
  rw [nextToken, h]

theorem exists_taken_nextToken
    (items : List Item) :
    ∃ taken,
      TakesToken (nextToken items).1 taken ∧
        items = taken ++ (nextToken items).2 := by
  rcases Item.exists_run (p := Item.isBlank) rfl items with
    ⟨blanks, hBlanks, hTake, -⟩
  have hItems := List.takeWhile_append_dropWhile
    (p := Item.isBlank) (l := items)
  rw [hTake] at hItems
  rcases Item.dropWhile_isBlank_cases items with
    hDrop | ⟨rest, hDrop⟩ | ⟨c, rest, hc, hDrop⟩
  · rw [nextToken, hDrop]
    rw [hDrop] at hItems
    exact ⟨_, .ended hBlanks, hItems.symm⟩
  · rw [nextToken, hDrop]
    rw [hDrop] at hItems
    refine ⟨_, .invalid hBlanks, ?_⟩
    rw [List.append_assoc]
    exact hItems.symm
  · rcases Item.exists_run (p := Item.inToken) rfl (.char c :: rest) with
      ⟨token, hToken, hTakeToken, hChars⟩
    have hSome : token ≠ [] := by
      rintro rfl
      simp [Item.inToken, hc] at hTakeToken
    have hRest := List.takeWhile_append_dropWhile
      (p := Item.inToken) (l := .char c :: rest)
    rw [hTakeToken, ← hDrop] at hRest
    rw [nextToken_of_char hDrop, hChars, ← hDrop]
    refine ⟨_, .token hBlanks (fun c hMem => ?_) hSome, ?_⟩
    · exact Bool.not_eq_true' _ ▸ hToken c hMem
    · rw [List.map_append, List.append_assoc, hRest]
      exact hItems.symm

/- A reply accounts for the items that are gone. -/
theorem exists_taken
    (items : List Item)
    (q : ReadRequest) :
    ∃ taken,
      (serve items q).1.Accounts taken ∧
        items = taken ++ (serve items q).2 := by
  rcases exists_taken_nextChar items with ⟨char, hChar, hRest⟩
  rcases exists_taken_nextToken items with ⟨token, hToken, hBehind⟩
  cases q with
  | nextChar => exact ⟨char, hChar, hRest⟩
  | nextToken => exact ⟨token, hToken, hBehind⟩
  | readInt => exact ⟨token, ⟨_, hToken, rfl⟩, hBehind⟩
  | readFloat => exact ⟨token, ⟨_, hToken, rfl⟩, hBehind⟩
  | readChar => exact ⟨char, ⟨_, hChar, rfl⟩, hRest⟩

/- The replies account for all items that are gone, in order. -/
theorem exists_takens
    (qs : List ReadRequest)
    (items : List Item) :
    ∃ takens,
      List.Forall₂ (fun reply taken => reply.Accounts taken)
        (serveAll serve qs items).1 takens ∧
      items = takens.flatten ++ (serveAll serve qs items).2 := by
  induction qs generalizing items with
  | nil => exact ⟨[], .nil, rfl⟩
  | cons q qs ih =>
      rcases exists_taken items q with ⟨taken, hAccounts, hItems⟩
      rcases ih (serve items q).2 with ⟨takens, hAll, hRest⟩
      refine ⟨taken :: takens, .cons hAccounts hAll, ?_⟩
      rw [List.flatten_cons, List.append_assoc]
      exact hItems.trans (congrArg (taken ++ ·) hRest)

/- Nothing but the end is replied when no items are left. -/
theorem serveAll_nil
    (qs : List ReadRequest) :
    serveAll serve qs [] = (qs.map ReadRequest.atEnd, []) := by
  induction qs with
  | nil => rfl
  | cons q qs ih =>
      have hServe : serve [] q = (q.atEnd, []) := by
        cases q <;> rfl
      rw [serveAll, hServe, ih, List.map_cons]

end FlatReader

------------------------------------------------------------
-- Lines
------------------------------------------------------------

namespace Feed

theorem cutLine_lineFeed
    (bytes : List UInt8) :
    cutLine (lineFeed :: bytes) = ([lineFeed], bytes) := by
  simp [cutLine]

theorem cutLine_cons
    {b : UInt8}
    (h : b ≠ lineFeed)
    (bytes : List UInt8) :
    cutLine (b :: bytes) =
      (b :: (cutLine bytes).1, (cutLine bytes).2) := by
  simp only [cutLine, List.takeWhile_cons, List.dropWhile_cons, ne_eq,
    h, not_false_eq_true, decide_true, if_true]
  split <;> rfl

/- The first line is cut off the bytes. -/
theorem lines_cutLine
    (b : UInt8)
    (bytes : List UInt8) :
    lines (b :: bytes) =
      (cutLine (b :: bytes)).1 :: lines (cutLine (b :: bytes)).2 := by
  induction bytes generalizing b with
  | nil =>
      by_cases h : b = lineFeed
      · subst h
        rfl
      · rw [cutLine_cons h]
        simp [lines, pushByte, h, cutLine]
  | cons b' bytes ih =>
      have hPush : lines (b :: b' :: bytes) =
          pushByte b (lines (b' :: bytes)) := rfl
      by_cases h : b = lineFeed
      · subst h
        rw [cutLine_lineFeed, hPush, pushByte.eq_def, if_pos rfl]
      · rw [cutLine_cons h, hPush, ih, pushByte, if_neg h]

theorem items_cutLine
    (b : UInt8)
    (bytes : List UInt8) :
    items (b :: bytes) =
      lineItems (cutLine (b :: bytes)).1 ++
        items (cutLine (b :: bytes)).2 := by
  rw [items, lines_cutLine, List.flatMap_cons]
  rfl

/-
  What is being read of a line goes through to its line feed,
  unless nothing is left or it is the last line.
-/
def WholeLine (pending : List Char) (left : List UInt8) : Prop :=
  left = [] ∨ pending = [] ∨ pending.getLast? = some '\n'

/- A line ends in a line feed, or nothing is left behind it. -/
theorem exists_lineFeed_of_cutLine
    (bytes : List UInt8) :
    (cutLine bytes).2 = [] ∨
      ∃ front, (cutLine bytes).1 = front ++ [lineFeed] := by
  induction bytes with
  | nil => exact .inl rfl
  | cons b bytes ih =>
      by_cases h : b = lineFeed
      · subst h
        rw [cutLine_lineFeed]
        exact .inr ⟨[], rfl⟩
      · rw [cutLine_cons h]
        rcases ih with hNone | ⟨front, hFront⟩
        · exact .inl hNone
        · exact .inr ⟨b :: front, by rw [hFront, List.cons_append]⟩

/- A byte of a character is its code point, or is past 127. -/
theorem toNat_of_mem_utf8EncodeChar
    {c : Char}
    {b : UInt8}
    (h : b ∈ String.utf8EncodeChar c) :
    b.toNat = c.toNat ∨ 127 < b.toNat := by
  have hPast (n : Nat) (hn : 127 < n % 256) :
      127 < (UInt8.ofNat n).toNat := by
    rwa [UInt8.toNat_ofNat']
  simp only [String.utf8EncodeChar] at h
  split at h
  · next hSmall =>
      rw [List.mem_singleton] at h
      subst h
      rw [UInt8.toNat_ofNat']
      exact .inl (Nat.mod_eq_of_lt (by omega))
  · right
    split at h
    · simp only [List.mem_cons, List.not_mem_nil, or_false] at h
      rcases h with rfl | rfl <;> exact hPast _ (by omega)
    · split at h
      · simp only [List.mem_cons, List.not_mem_nil, or_false] at h
        rcases h with rfl | rfl | rfl <;> exact hPast _ (by omega)
      · simp only [List.mem_cons, List.not_mem_nil, or_false] at h
        rcases h with rfl | rfl | rfl | rfl <;> exact hPast _ (by omega)

/- Only a line feed has the byte that ends a line. -/
theorem eq_newline_of_mem
    {c : Char}
    (h : lineFeed ∈ String.utf8EncodeChar c) :
    c = '\n' := by
  rcases toNat_of_mem_utf8EncodeChar h with hCode | hPast
  · exact Char.ext (UInt32.toNat_inj.mp hCode.symm)
  · exact absurd hPast (by decide)

/- The characters of a line end in a line feed where it does. -/
theorem wholeLine_of_decode?
    {bytes : List UInt8}
    {cs : List Char}
    (h : decode? (cutLine bytes).1 = some cs) :
    WholeLine cs (cutLine bytes).2 := by
  rcases exists_lineFeed_of_cutLine bytes with hNone | ⟨front, hFront⟩
  · exact .inl hNone
  · right
    have hBytes := flatMap_of_decode? h
    rw [hFront] at hBytes
    rcases cs.eq_nil_or_concat with hNil | ⟨before, c, hLast⟩
    · exact .inl hNil
    · right
      rw [hLast, List.concat_eq_append] at hBytes ⊢
      have hEnd := congrArg List.getLast? hBytes
      rw [List.flatMap_append, List.flatMap_singleton, List.getLast?_append,
        List.getLast?_append] at hEnd
      -- A character has bytes, and the last of them ends the line.
      cases hByte : (String.utf8EncodeChar c).getLast? with
      | none =>
          rw [List.getLast?_eq_none_iff] at hByte
          exact absurd hByte String.utf8EncodeChar_ne_nil
      | some b =>
          rw [hByte] at hEnd
          cases hEnd
          rw [List.getLast?_concat,
            eq_newline_of_mem (List.mem_of_getLast? hByte)]

/- A line that is fetched has characters. -/
theorem ne_nil_of_decode?
    {b : UInt8}
    {bytes : List UInt8}
    {cs : List Char}
    (h : decode? (cutLine (b :: bytes)).1 = some cs) :
    cs ≠ [] := by
  rintro rfl
  have hLine : (cutLine (b :: bytes)).1 = [] := (flatMap_of_decode? h).symm
  have hCut := cutLine_append (b :: bytes)
  have hLess := length_cutLine_cons_lt b bytes
  rw [hLine, List.nil_append] at hCut
  rw [hCut] at hLess
  exact Nat.lt_irrefl _ hLess

/- The rest of a line goes through to its line feed as well. -/
theorem WholeLine.of_suffix
    {pending rest : List Char}
    {left : List UInt8}
    (h : WholeLine pending left)
    (hSuffix : rest <:+ pending) :
    WholeLine rest left := by
  rcases h with hNone | hNil | hLast
  · exact .inl hNone
  · rw [hNil, List.suffix_nil] at hSuffix
    exact .inr (.inl hSuffix)
  · right
    rcases hSuffix with ⟨front, rfl⟩
    rw [List.getLast?_append] at hLast
    cases hRest : rest.getLast? with
    | none => exact .inl (List.getLast?_eq_none_iff.mp hRest)
    | some c =>
        rw [hRest] at hLast
        exact .inr hLast

end Feed

------------------------------------------------------------
-- The Input Against the Flat Reader
------------------------------------------------------------

namespace Input

/-
  The items are those that the input has ahead of it. Nothing
  is left once the end has been met.
-/
inductive Holds : Input → List Item → Prop
| intro
    {pending : List Char}
    {exhausted : Bool}
    {left : List UInt8}
    (hWhole : Feed.WholeLine pending left)
    (hEnd : exhausted = true → left = []) :
    Holds ⟨pending, exhausted, .bytes left⟩
      (pending.map .char ++ Feed.items left)

theorem holds_ofBytes
    (bytes : List UInt8) :
    Holds (ofBytes bytes) (Feed.items bytes) :=
  Holds.intro (.inr (.inl rfl)) nofun

/- A character that is taken is the first item. -/
theorem Holds.pop
    {i : Input}
    {c : Char}
    {cs : List Char}
    {items : List Item}
    (h : i.Holds (.char c :: items))
    (hPending : i.pending = c :: cs) :
    ({ i with pending := cs } : Input).Holds items := by
  generalize hItems : Item.char c :: items = all at h
  rcases h with @⟨pending, exhausted, left, hWhole, hEnd⟩
  cases hPending
  cases hItems
  exact .intro (hWhole.of_suffix (List.suffix_cons c cs)) hEnd

/- The two readers gave the same, and have the same ahead. -/
def Agree
    {α : Type}
    (given : α × Input)
    (flat : α × List Item) : Prop :=
  given.1 = flat.1 ∧ given.2.Holds flat.2

theorem Agree.map
    {α β : Type}
    {given : α × Input}
    {flat : α × List Item}
    (h : Agree given flat)
    (f : α → β) :
    Agree (given.map f id) (flat.map f id) :=
  ⟨congrArg f h.1, h.2⟩

/-
  What a filled input has in front: a character, the end, or
  an invalid line, which is dropped.
-/
inductive Filled :
    Except ConsoleError Bool × Input → List Item → Prop
| char
    {i : Input}
    {c : Char}
    {cs : List Char}
    {items : List Item}
    (hPending : i.pending = c :: cs)
    (hHolds : i.Holds (.char c :: items)) :
    Filled (.ok true, i) (.char c :: items)
| ended
    {i : Input}
    (hHolds : i.Holds []) :
    Filled (.ok false, i) []
| invalid
    {i : Input}
    {items : List Item}
    (hHolds : i.Holds items) :
    Filled (.error Feed.invalidLine, i) (.invalidLine :: items)

theorem filled_of_pending
    {pending : List Char}
    {exhausted : Bool}
    {left : List UInt8}
    (hSome : pending ≠ [])
    (hWhole : Feed.WholeLine pending left)
    (hEnd : exhausted = true → left = []) :
    Filled (Input.fill ⟨pending, exhausted, .bytes left⟩)
      (pending.map .char ++ Feed.items left) := by
  rw [fill_of_pending hSome]
  rcases pending with _ | ⟨c, cs⟩
  · exact absurd rfl hSome
  · exact .char rfl (.intro hWhole hEnd)

/- An input is filled with the line that its next item is of. -/
theorem Holds.fill
    {i : Input}
    {items : List Item}
    (h : i.Holds items) :
    Filled i.fill items := by
  rcases h with @⟨pending, exhausted, left, hWhole, hEnd⟩
  rcases pending with _ | ⟨c, cs⟩
  · rcases left with _ | ⟨b, bytes⟩
    · have hEnded : Holds ⟨[], true, .bytes []⟩ [] :=
        .intro (.inl rfl) fun _ => rfl
      cases exhausted with
      | true =>
          rw [fill_exhausted]
          exact .ended hEnded
      | false =>
          rw [fill_of_readLine_none rfl]
          exact .ended hEnded
    · have hMore : exhausted = false := by
        rw [← Bool.not_eq_true]
        exact fun hExhausted => List.cons_ne_nil b bytes (hEnd hExhausted)
      subst hMore
      have hRead := Feed.readLine_cons b bytes
      rw [List.map_nil, List.nil_append, Feed.items_cutLine, Feed.lineItems]
      cases hLine : Feed.decode? (Feed.cutLine (b :: bytes)).1 with
      | none =>
          rw [hLine] at hRead
          rw [fill_of_readLine_error hRead]
          exact .invalid (holds_ofBytes _)
      | some line =>
          rw [hLine] at hRead
          rw [fill_of_readLine_some hRead]
          exact filled_of_pending (Feed.ne_nil_of_decode? hLine)
            (Feed.wholeLine_of_decode? hLine) nofun
  · exact filled_of_pending (List.cons_ne_nil c cs) hWhole hEnd

theorem Holds.nextChar
    {i : Input}
    {items : List Item}
    (h : i.Holds items) :
    Agree i.nextChar (FlatReader.nextChar items) := by
  have hFilled := h.fill
  rw [Input.nextChar]
  generalize i.fill = filled at hFilled
  cases hFilled with
  | char hPending hHolds =>
      simp only [hPending]
      exact ⟨rfl, hHolds.pop hPending⟩
  | ended hHolds => exact ⟨rfl, hHolds⟩
  | invalid hHolds => exact ⟨rfl, hHolds⟩

/- Blanks are dropped from the front of the items. -/
theorem Holds.skipBlanks
    {i : Input}
    {items : List Item}
    (h : i.Holds items) :
    Filled i.skipBlanks (items.dropWhile Item.isBlank) := by
  induction items generalizing i with
  | nil =>
      have hFilled := h.fill
      generalize hFill : i.fill = filled at hFilled
      cases hFilled with
      | ended hHolds =>
          rw [skipBlanks_of_fill_false hFill]
          exact .ended hHolds
  | cons item items ih =>
      have hFilled := h.fill
      generalize hFill : i.fill = filled at hFilled
      cases hFilled with
      | @char j c cs _ hPending hHolds =>
          rw [skipBlanks_of_fill_true hFill hPending]
          cases hBlank : Text.isBlank c with
          | true =>
              simp only [if_true, List.dropWhile_cons, Item.isBlank, hBlank]
              exact ih (hHolds.pop hPending)
          | false =>
              simp only [Bool.false_eq_true, if_false, List.dropWhile_cons,
                Item.isBlank, hBlank]
              exact .char hPending hHolds
      | invalid hHolds =>
          rw [skipBlanks_of_fill_error hFill]
          exact .invalid hHolds

------------------------------------------------------------
-- Inside a Token
------------------------------------------------------------

/-
  The line that is being read goes on, or nothing is left
  behind it. So it is behind each character of a token.
-/
def MidLine (i : Input) : Prop :=
  i.pending = [] → i.feed = .bytes []

/- A character that is no blank is not the last of its line. -/
theorem Holds.midLine_pop
    {i : Input}
    {c : Char}
    {cs : List Char}
    {items : List Item}
    (h : i.Holds items)
    (hPending : i.pending = c :: cs)
    (hc : Text.isBlank c = false) :
    MidLine { i with pending := cs } := by
  rcases h with @⟨pending, exhausted, left, hWhole, hEnd⟩
  cases hPending
  intro hLast
  dsimp only at hLast ⊢
  subst hLast
  rcases hWhole with hNone | hNil | hNewline
  · rw [hNone]
  · cases hNil
  · cases hNewline
    cases hc

/-
  Inside a token an input is filled already, or has ended. No
  line is read there, so that none can fail.
-/
theorem Holds.fill_of_midLine
    {i : Input}
    {items : List Item}
    (h : i.Holds items)
    (hMid : i.MidLine) :
    i.fill = (.ok true, i) ∨ i.fill.1 = .ok false ∧ items = [] := by
  rcases h with @⟨pending, exhausted, left, hWhole, hEnd⟩
  by_cases hNone : pending = []
  · right
    cases hNone
    cases hMid rfl
    cases exhausted with
    | true => exact ⟨by rw [fill_exhausted], rfl⟩
    | false => exact ⟨by rw [fill_of_readLine_none rfl], rfl⟩
  · exact .inl (fill_of_pending hNone)

/- A token is the run of items that may stand in it. -/
theorem Holds.takeToken
    {i : Input}
    {items : List Item}
    (h : i.Holds items)
    (hMid : i.MidLine)
    (token : String) :
    Agree (i.takeToken token)
      ( .ok (token ++ String.ofList
          ((items.takeWhile Item.inToken).filterMap Item.char?))
      , items.dropWhile Item.inToken ) := by
  induction items generalizing i token with
  | nil =>
      have hFilled := h.fill
      generalize hFill : i.fill = filled at hFilled
      cases hFilled with
      | ended hHolds =>
          rw [takeToken_of_fill_false hFill]
          exact ⟨congrArg Except.ok String.append_empty.symm, hHolds⟩
  | cons item items ih =>
      have hFilled := h.fill
      have hInLine := h.fill_of_midLine hMid
      generalize hFill : i.fill = filled at hFilled hInLine
      cases hFilled with
      | @char j c cs _ hPending hHolds =>
          rw [takeToken_of_fill_true hFill hPending]
          cases hBlank : Text.isBlank c with
          | true =>
              simp only [if_true, List.takeWhile_cons, List.dropWhile_cons,
                Item.inToken, hBlank, Bool.not_true, Bool.false_eq_true,
                if_false]
              exact ⟨congrArg Except.ok String.append_empty.symm, hHolds⟩
          | false =>
              rcases ih (hHolds.pop hPending)
                (hHolds.midLine_pop hPending hBlank) (token.push c) with
                ⟨hToken, hRest⟩
              simp only [Bool.false_eq_true, if_false, List.takeWhile_cons,
                List.dropWhile_cons, Item.inToken, hBlank, Bool.not_false,
                if_true]
              refine ⟨hToken.trans (congrArg Except.ok ?_), hRest⟩
              apply String.toList_inj.mp
              simp [Item.char?]
      | invalid hHolds =>
          -- The refill inside a token would have failed.
          rcases hInLine with hSame | ⟨_, hNone⟩
          · cases hSame
          · cases hNone

theorem Holds.nextToken
    {i : Input}
    {items : List Item}
    (h : i.Holds items) :
    Agree i.nextToken (FlatReader.nextToken items) := by
  have hFilled := h.skipBlanks
  rw [Input.nextToken]
  generalize i.skipBlanks = skipped at hFilled
  generalize hDrop : items.dropWhile Item.isBlank = rest at hFilled
  cases hFilled with
  | ended hHolds =>
      rw [FlatReader.nextToken, hDrop]
      exact ⟨rfl, hHolds⟩
  | invalid hHolds =>
      rw [FlatReader.nextToken, hDrop]
      exact ⟨rfl, hHolds⟩
  | @char j c cs rest hPending hHolds =>
      have hMid : j.MidLine := by
        intro hNone
        rw [hPending] at hNone
        cases hNone
      rcases hHolds.takeToken hMid "" with ⟨hToken, hRest⟩
      rw [String.empty_append] at hToken
      rw [FlatReader.nextToken_of_char hDrop]
      dsimp only
      generalize j.takeToken "" = taken at hToken hRest
      rcases taken with ⟨result, k⟩
      cases hToken
      exact ⟨rfl, hRest⟩

/- A token is read as a value in the same way by both. -/
theorem readToken_eq
    {α : Type}
    (expected : String)
    (parse : String → Option α)
    (i : Input) :
    i.readToken expected parse =
      i.nextToken.map (valueOfToken expected parse) id := by
  rw [Input.readToken]
  rcases i.nextToken with ⟨e | _ | token, rest⟩
  · rfl
  · rfl
  · dsimp only [Prod.map, valueOfToken]
    cases parse token <;> rfl

theorem readChar_eq
    (i : Input) :
    i.readChar = i.nextChar.map codeOfChar id := by
  rw [Input.readChar]
  rcases i.nextChar with ⟨e | _ | c, rest⟩ <;> rfl

/- One request: the same reply, and the same items ahead. -/
theorem Holds.serve
    {i : Input}
    {items : List Item}
    (h : i.Holds items)
    (q : ReadRequest) :
    Agree (i.serve q) (FlatReader.serve items q) := by
  cases q with
  | nextChar => exact h.nextChar.map _
  | nextToken => exact h.nextToken.map _
  | readInt =>
      rw [Input.serve, Input.readInt, readToken_eq]
      exact h.nextToken.map (ReadReply.readInt ∘ intOfToken)
  | readFloat =>
      rw [Input.serve, Input.readFloat, readToken_eq]
      exact h.nextToken.map (ReadReply.readFloat ∘ floatOfToken)
  | readChar =>
      rw [Input.serve, readChar_eq]
      exact h.nextChar.map (ReadReply.readChar ∘ codeOfChar)

/- All requests, one after the other. -/
theorem Holds.serveAll
    {i : Input}
    {items : List Item}
    (h : i.Holds items)
    (qs : List ReadRequest) :
    Agree (serveAll Input.serve qs i) (serveAll FlatReader.serve qs items) := by
  induction qs generalizing i items with
  | nil => exact ⟨rfl, h⟩
  | cons q qs ih =>
      rcases h.serve q with ⟨hReply, hHolds⟩
      rcases ih hHolds with ⟨hReplies, hRest⟩
      exact ⟨congrArg₂ List.cons hReply hReplies, hRest⟩

end Input

------------------------------------------------------------
-- Main Statement
------------------------------------------------------------

/-
  The input answers each sequence of requests as a flat reader
  of its items does. Each item is taken by at most one reply,
  and in order; what a reply says is what was taken for it; a
  read error takes blanks and the invalid line, and no
  character of a token. Once no item is left, each further
  request is answered with the end of the input.
-/
theorem input_reads_as_flat_stream
    (bytes : List UInt8)
    (requests : List ReadRequest) :
    let given := serveAll Input.serve requests (Input.ofBytes bytes)
    let flat := serveAll FlatReader.serve requests (Feed.items bytes)
    given.1 = flat.1 ∧
      (∃ takens,
        List.Forall₂
          (fun reply taken =>
            reply.Accounts taken ∧
              (reply.IsReadError → TakesOnlyInvalid taken))
          given.1 takens ∧
        Feed.items bytes = takens.flatten ++ flat.2) ∧
      (flat.2 = [] →
        ∀ more,
          (serveAll Input.serve more given.2).1 =
            more.map ReadRequest.atEnd) := by
  intro given flat
  rcases (Input.holds_ofBytes bytes).serveAll requests with ⟨hReplies, hRest⟩
  rcases FlatReader.exists_takens requests (Feed.items bytes) with
    ⟨takens, hAccounts, hItems⟩
  refine ⟨hReplies, ⟨takens, ?_, hItems⟩, ?_⟩
  · rw [hReplies]
    apply hAccounts.imp
    intro reply taken hTaken
    exact ⟨hTaken, hTaken.onlyInvalid_of_isReadError⟩
  · intro hEnd more
    have hMore := (hRest.serveAll more).1
    rw [hMore]
    show (serveAll FlatReader.serve more flat.2).1 = _
    rw [hEnd, FlatReader.serveAll_nil]

/-
  A number, a read error that passes the line feed behind the
  number and drops the invalid line, the character behind it,
  and the end.
-/
theorem invalid_line_between_tokens :
    let bytes : List UInt8 := [32, 49, 50, 10, 255, 49, 10, 120]
    let requests : List ReadRequest :=
      [.readInt, .readInt, .nextChar, .nextToken]
    let given := serveAll Input.serve requests (Input.ofBytes bytes)
    given.1 =
        [ .readInt (.ok 12), .readInt (.error Feed.invalidLine)
        , .nextChar (.ok (some 'x')), .nextToken (.ok none) ] ∧
      ∀ more,
        (serveAll Input.serve more given.2).1 = more.map ReadRequest.atEnd := by
  intro bytes requests given
  have hItems : Feed.items bytes =
      [ .char ' ', .char '1', .char '2', .char '\n'
      , .invalidLine, .char 'x' ] := by
    decide +kernel
  rcases input_reads_as_flat_stream bytes requests with ⟨hReplies, -, hEnd⟩
  rw [hItems] at hReplies hEnd
  exact ⟨hReplies, hEnd rfl⟩

end ThreeAddress
