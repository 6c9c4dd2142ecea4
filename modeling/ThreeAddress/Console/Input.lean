import ThreeAddress.Text.Blank
import ThreeAddress.Text.Decimal
import ThreeAddress.Text.Utf8
import ThreeAddress.Single.Text
import ThreeAddress.Console.Error

/-
  This file reads the input of a running program: characters,
  tokens between blanks, and the numbers that tokens name.

  The input is fetched one line at a time, through its line
  feed, and each line is decoded on its own. A line that is
  not valid UTF-8 is an error, and is dropped by it.

  Key definitions include:
    * `Feed`, `Feed.cutLine`, `Feed.decode?`, `Feed.readLine`
    * `Input`
    * `Input.fill`
    * `Input.skipBlanks`, `Input.takeToken`
    * `Input.nextChar`, `Input.nextToken`
    * `Input.readInt`, `Input.readFloat`, `Input.readChar`
-/

namespace ThreeAddress

------------------------------------------------------------
-- Bytes
------------------------------------------------------------

/-
  Where the lines come from: the bytes that are left, or a
  device whose every read fails.
-/
inductive Feed where
| bytes (left : List UInt8)
| broken (reason : String)
deriving DecidableEq, Repr

namespace Feed

/- The byte that ends a line. -/
def lineFeed : UInt8 :=
  10

/- The bytes through the first line feed, and the rest. -/
def cutLine (bs : List UInt8) : List UInt8 × List UInt8 :=
  let line := bs.takeWhile (· ≠ lineFeed)
  match bs.dropWhile (· ≠ lineFeed) with
  | [] => (line, [])
  | b :: rest => (line ++ [b], rest)

/- The characters of a line, if it is valid UTF-8. -/
def decode? (line : List UInt8) : Option (List Char) :=
  (String.fromUTF8? line.toByteArray).map String.toList

/- The failure of a line that is not valid UTF-8. -/
def invalidLine : ConsoleError :=
  .read "stream did not contain valid UTF-8"

/-
  Read the next line, through its line feed, if there is one.
  A line that is not valid is read all the same.
-/
def readLine : Feed → Except ConsoleError (Option (List Char)) × Feed
| .broken reason => (.error (.read reason), .broken reason)
| .bytes [] => (.ok none, .bytes [])
| .bytes left =>
    let cut := cutLine left
    match decode? cut.1 with
    | some line => (.ok (some line), .bytes cut.2)
    | none => (.error invalidLine, .bytes cut.2)

/- The count of bytes that are left. -/
def length : Feed → Nat
| .bytes left => left.length
| .broken _ => 0

/- A cut splits the bytes. -/
theorem cutLine_append
    (bs : List UInt8) :
    (cutLine bs).1 ++ (cutLine bs).2 = bs := by
  have h :=
    List.takeWhile_append_dropWhile (p := (· ≠ lineFeed)) (l := bs)
  rw [cutLine]
  split
  · next hRest =>
      rw [hRest] at h
      exact h
  · next hRest =>
      rw [hRest] at h
      rw [List.append_assoc]
      exact h

/- A cut of some bytes takes at least one of them. -/
theorem length_cutLine_cons_lt
    (b : UInt8)
    (bs : List UInt8) :
    (cutLine (b :: bs)).2.length < (b :: bs).length := by
  have h := congrArg List.length (cutLine_append (b :: bs))
  have hPos : 0 < (cutLine (b :: bs)).1.length := by
    rw [cutLine]
    split
    · next hRest =>
        by_cases hb : b = lineFeed <;> simp_all
    · simp
  rw [List.length_append] at h
  omega

/- The characters of a line are encoded by its bytes. -/
theorem flatMap_of_decode?
    {line : List UInt8}
    {cs : List Char}
    (h : decode? line = some cs) :
    cs.flatMap String.utf8EncodeChar = line := by
  rcases Option.map_eq_some_iff.mp h with ⟨text, hText, rfl⟩
  have hBytes : text.toByteArray = line.toByteArray :=
    Utf8.toUTF8_of_fromUTF8? hText
  have hEncode : (text.toList.flatMap String.utf8EncodeChar).toByteArray =
      line.toByteArray := String.utf8Encode_toList.trans hBytes
  have hData := congrArg ByteArray.data hEncode
  rw [List.data_toByteArray, List.data_toByteArray] at hData
  exact List.toArray_inj hData

/- A line has no more characters than bytes. -/
theorem length_le_of_decode?
    {line : List UInt8}
    {cs : List Char}
    (h : decode? line = some cs) :
    cs.length ≤ line.length := by
  rw [← flatMap_of_decode? h]
  clear h
  induction cs with
  | nil => exact Nat.le_refl 0
  | cons c cs ih =>
      have hPos : 0 < (String.utf8EncodeChar c).length :=
        List.length_pos_iff.mpr String.utf8EncodeChar_ne_nil
      rw [List.flatMap_cons, List.length_append, List.length_cons]
      omega

theorem readLine_cons
    (b : UInt8)
    (bs : List UInt8) :
    readLine (.bytes (b :: bs)) =
      match decode? (cutLine (b :: bs)).1 with
      | some line => (.ok (some line), .bytes (cutLine (b :: bs)).2)
      | none => (.error invalidLine, .bytes (cutLine (b :: bs)).2) :=
  rfl

/- A line that is read is taken from the feed. -/
theorem length_of_readLine_some
    {feed rest : Feed}
    {line : List Char}
    (h : feed.readLine = (.ok (some line), rest)) :
    rest.length < feed.length ∧
      line.length + rest.length ≤ feed.length := by
  rcases feed with (_ | ⟨b, bs⟩) | reason
  · cases h
  · rw [readLine_cons] at h
    cases hLine : decode? (cutLine (b :: bs)).1 with
    | none =>
        rw [hLine] at h
        cases h
    | some cs =>
        rw [hLine] at h
        cases h
        have hCut := congrArg List.length (cutLine_append (b :: bs))
        have hLess := length_cutLine_cons_lt b bs
        have hChars := length_le_of_decode? hLine
        rw [List.length_append] at hCut
        simp only [length]
        omega
  · cases h

theorem eq_of_readLine_none
    {feed rest : Feed}
    (h : feed.readLine = (.ok none, rest)) :
    rest = feed := by
  rcases feed with (_ | ⟨b, bs⟩) | reason
  · cases h
    rfl
  · rw [readLine_cons] at h
    split at h <;> cases h
  · cases h

end Feed

------------------------------------------------------------
-- Characters and Tokens
------------------------------------------------------------

/-
  The rest of the line being read, whether the end has been
  met, and the feed behind the line.
-/
structure Input where
  pending : List Char
  exhausted : Bool
  feed : Feed
deriving DecidableEq, Repr

namespace Input

/- An input of bytes. -/
def ofBytes (bytes : List UInt8) : Input :=
  { pending := [], exhausted := false, feed := .bytes bytes }

/- An input whose every read fails. -/
def broken (reason : String) : Input :=
  { pending := [], exhausted := false, feed := .broken reason }

/- An input of text. -/
def ofString (s : String) : Input :=
  ofBytes s.toUTF8.toList

/-
  Read lines until there is a character to take, and tell
  whether there is one. Once the end has been met, the feed is
  not read again.
-/
def fill (i : Input) : Except ConsoleError Bool × Input :=
  if i.pending.isEmpty then
    if i.exhausted then
      (.ok false, i)
    else
      match _h : i.feed.readLine with
      | (.error e, feed) => (.error e, { i with feed })
      | (.ok none, feed) => fill { i with exhausted := true, feed }
      | (.ok (some line), feed) => fill { i with pending := line, feed }
  else
    (.ok true, i)
termination_by i.feed.length + (!i.exhausted).toNat
decreasing_by
  · simp_all [Feed.eq_of_readLine_none _h]
  · have := (Feed.length_of_readLine_some _h).1
    simp_all

theorem fill_of_pending
    {i : Input}
    (h : i.pending ≠ []) :
    i.fill = (.ok true, i) := by
  rw [fill, if_neg]
  rwa [List.isEmpty_iff]

theorem fill_exhausted
    (feed : Feed) :
    fill ⟨[], true, feed⟩ = (.ok false, ⟨[], true, feed⟩) := by
  rw [fill]
  rfl

theorem fill_of_readLine_error
    {feed rest : Feed}
    {e : ConsoleError}
    (h : feed.readLine = (.error e, rest)) :
    fill ⟨[], false, feed⟩ = (.error e, ⟨[], false, rest⟩) := by
  rw [fill, if_pos List.isEmpty_nil, if_neg Bool.false_ne_true]
  split <;> simp_all

theorem fill_of_readLine_none
    {feed rest : Feed}
    (h : feed.readLine = (.ok none, rest)) :
    fill ⟨[], false, feed⟩ = (.ok false, ⟨[], true, rest⟩) := by
  rw [fill, if_pos List.isEmpty_nil, if_neg Bool.false_ne_true]
  split <;> simp_all [fill_exhausted]

theorem fill_of_readLine_some
    {feed rest : Feed}
    {line : List Char}
    (h : feed.readLine = (.ok (some line), rest)) :
    fill ⟨[], false, feed⟩ = fill ⟨line, false, rest⟩ := by
  rw [fill, if_pos List.isEmpty_nil, if_neg Bool.false_ne_true]
  split <;> simp_all

/- The count of what is left: characters, then bytes. -/
def size (i : Input) : Nat :=
  i.pending.length + i.feed.length

theorem size_le_of_fill
    {i j : Input}
    (h : i.fill = (.ok true, j)) :
    j.size ≤ i.size := by
  fun_induction fill i with
  | case1 i hEmpty hEnd => cases h
  | case2 i hEmpty hEnd e feed hRead => cases h
  | case3 i hEmpty hEnd feed hRead ih =>
      rw [Feed.eq_of_readLine_none hRead] at ih h
      exact ih h
  | case4 i hEmpty hEnd line feed hRead ih =>
      have hLine := (Feed.length_of_readLine_some hRead).2
      exact Nat.le_trans (ih h) (Nat.le_add_left_of_le hLine)
  | case5 i hSome =>
      cases h
      exact Nat.le_refl _

/- Taking a character that is there leaves less to read. -/
theorem size_pop_lt
    {i j : Input}
    {c : Char}
    {cs : List Char}
    (h : i.fill = (.ok true, j))
    (hPending : j.pending = c :: cs) :
    ({ j with pending := cs } : Input).size < i.size := by
  have hLe := size_le_of_fill h
  simp only [size, hPending, List.length_cons] at hLe ⊢
  omega

/- The next character, if the input has not ended. -/
def nextChar (i : Input) : Except ConsoleError (Option Char) × Input :=
  match i.fill with
  | (.error e, i) => (.error e, i)
  | (.ok false, i) => (.ok none, i)
  | (.ok true, i) =>
      match i.pending with
      | [] => (.ok none, i)
      | c :: cs => (.ok (some c), { i with pending := cs })

/-
  Drop blanks, over as many lines as they go on, and tell
  whether something stands behind them.
-/
def skipBlanks (i : Input) : Except ConsoleError Bool × Input :=
  match _h : i.fill with
  | (.error e, j) => (.error e, j)
  | (.ok false, j) => (.ok false, j)
  | (.ok true, j) =>
      match _hPending : j.pending with
      | [] => (.ok true, j)
      | c :: cs =>
          if Text.isBlank c then
            skipBlanks { j with pending := cs }
          else
            (.ok true, j)
termination_by i.size
decreasing_by exact size_pop_lt _h _hPending

theorem skipBlanks_of_fill_error
    {i j : Input}
    {e : ConsoleError}
    (h : i.fill = (.error e, j)) :
    i.skipBlanks = (.error e, j) := by
  rw [skipBlanks]
  split <;> simp_all

theorem skipBlanks_of_fill_false
    {i j : Input}
    (h : i.fill = (.ok false, j)) :
    i.skipBlanks = (.ok false, j) := by
  rw [skipBlanks]
  split <;> simp_all

theorem skipBlanks_of_fill_true
    {i j : Input}
    {c : Char}
    {cs : List Char}
    (h : i.fill = (.ok true, j))
    (hPending : j.pending = c :: cs) :
    i.skipBlanks =
      if Text.isBlank c then
        skipBlanks { j with pending := cs }
      else
        (.ok true, j) := by
  rw [skipBlanks]
  split
  · simp_all
  · simp_all
  · next hFill =>
      rw [h] at hFill
      cases hFill
      split <;> simp_all

/-
  Take the characters without a blank that come next, behind
  those already taken. What has been taken is lost if a line
  cannot be read.
-/
def takeToken (i : Input) (token : String) :
    Except ConsoleError String × Input :=
  match _h : i.fill with
  | (.error e, j) => (.error e, j)
  | (.ok false, j) => (.ok token, j)
  | (.ok true, j) =>
      match _hPending : j.pending with
      | [] => (.ok token, j)
      | c :: cs =>
          if Text.isBlank c then
            (.ok token, j)
          else
            takeToken { j with pending := cs } (token.push c)
termination_by i.size
decreasing_by exact size_pop_lt _h _hPending

theorem takeToken_of_fill_false
    {i j : Input}
    (h : i.fill = (.ok false, j))
    (token : String) :
    i.takeToken token = (.ok token, j) := by
  rw [takeToken]
  split <;> simp_all

theorem takeToken_of_fill_true
    {i j : Input}
    {c : Char}
    {cs : List Char}
    (h : i.fill = (.ok true, j))
    (hPending : j.pending = c :: cs)
    (token : String) :
    i.takeToken token =
      if Text.isBlank c then
        (.ok token, j)
      else
        takeToken { j with pending := cs } (token.push c) := by
  rw [takeToken]
  split
  · simp_all
  · simp_all
  · next hFill =>
      rw [h] at hFill
      cases hFill
      split <;> simp_all

/-
  The next run of characters without a blank, if there is
  one. The blank behind it stays in the input.
-/
def nextToken (i : Input) : Except ConsoleError (Option String) × Input :=
  match i.skipBlanks with
  | (.error e, i) => (.error e, i)
  | (.ok false, i) => (.ok none, i)
  | (.ok true, i) =>
      match i.takeToken "" with
      | (.error e, i) => (.error e, i)
      | (.ok token, i) => (.ok (some token), i)

------------------------------------------------------------
-- Values
------------------------------------------------------------

/- Read a token as a value of a kind. -/
def readToken
    {α : Type}
    (expected : String)
    (parse : String → Option α)
    (i : Input) : Except ConsoleError α × Input :=
  match i.nextToken with
  | (.error e, i) => (.error e, i)
  | (.ok none, i) => (.error (.endOfInput expected), i)
  | (.ok (some token), i) =>
      match parse token with
      | some a => (.ok a, i)
      | none => (.error (.malformedToken token expected), i)

/- Read an integer of 32 bits. -/
def readInt : Input → Except ConsoleError Int32 × Input :=
  readToken "int" fun s => Decimal.int32? s.toList

/- Read a finite number. -/
def readFloat : Input → Except ConsoleError Single × Input :=
  readToken "float" fun s =>
    (Single.ofText? s).filter Single.isFinite

/- Read a character as its code point. -/
def readChar (i : Input) : Except ConsoleError Int32 × Input :=
  match i.nextChar with
  | (.error e, i) => (.error e, i)
  | (.ok none, i) => (.error (.endOfInput "char"), i)
  | (.ok (some c), i) => (.ok (Int32.ofNat c.toNat), i)

end Input

end ThreeAddress
