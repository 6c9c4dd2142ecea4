/-
  This file decodes bytes of which some may not be valid
  UTF-8. Each character is kept, and bytes that start one and
  break off, or that start none, are replaced by a single
  character that stands for them.

  Key definitions include:
    * `Utf8.tailRanges`, `Utf8.countWithin`
    * `Utf8.decodeFrom`, `Utf8.decode`

  Main statements:
    * `Utf8.decodeFrom_utf8Encode`
    * `Utf8.decode_eq_decodeFrom`
-/

namespace ThreeAddress.Utf8

------------------------------------------------------------
-- Broken Characters
------------------------------------------------------------

/- The character that stands for bytes that are none. -/
def replacement : Char :=
  '�'

/- The range of the bytes behind the first one. -/
def anyTail : UInt8 × UInt8 :=
  (0x80, 0xBF)

/-
  The ranges of the bytes that a first byte asks for. The
  range of the next byte is narrower where a character would
  have a shorter form, would be half of a pair, or would be
  beyond the last one.
-/
def tailRanges (first : UInt8) : List (UInt8 × UInt8) :=
  if first < 0xC2 then []
  else if first < 0xE0 then [anyTail]
  else if first = 0xE0 then [(0xA0, 0xBF), anyTail]
  else if first = 0xED then [(0x80, 0x9F), anyTail]
  else if first < 0xF0 then [anyTail, anyTail]
  else if first = 0xF0 then [(0x90, 0xBF), anyTail, anyTail]
  else if first < 0xF4 then [anyTail, anyTail, anyTail]
  else if first = 0xF4 then [(0x80, 0x8F), anyTail, anyTail]
  else []

/- How many bytes from a position on lie in ranges, in order. -/
def countWithin (bytes : ByteArray) : List (UInt8 × UInt8) → Nat → Nat
| [], _ => 0
| (low, high) :: ranges, i =>
    match bytes[i]? with
    | none => 0
    | some b =>
        if low ≤ b ∧ b ≤ high then
          countWithin bytes ranges (i + 1) + 1
        else
          0

------------------------------------------------------------
-- Decoding
------------------------------------------------------------

/- The text of the bytes from a position on, behind a text. -/
def decodeFrom (bytes : ByteArray) (i : Nat) (text : String) : String :=
  if h : i < bytes.size then
    match bytes.utf8DecodeChar? i with
    | none =>
        let broken := countWithin bytes (tailRanges bytes[i]) (i + 1)
        decodeFrom bytes (i + 1 + broken) (text.push replacement)
    | some c =>
        have := c.utf8Size_pos
        decodeFrom bytes (i + c.utf8Size) (text.push c)
  else
    text
termination_by bytes.size - i

/- The text of bytes. Valid bytes are taken as they are. -/
def decode (bytes : ByteArray) : String :=
  match String.fromUTF8? bytes with
  | some text => text
  | none => decodeFrom bytes 0 ""

/- The bytes of a text are valid, and are those of the text. -/
theorem fromUTF8?_toUTF8
    (text : String) :
    String.fromUTF8? text.toUTF8 = some text := by
  simp only [String.fromUTF8?, Option.dite_none_right_eq_some]
  exact ⟨text.isValidUTF8, rfl⟩

theorem toUTF8_of_fromUTF8?
    {bytes : ByteArray}
    {text : String}
    (h : String.fromUTF8? bytes = some text) :
    text.toUTF8 = bytes := by
  unfold String.fromUTF8? at h
  split at h
  · cases h
    rfl
  · cases h

/- The character of a text that starts at a position. -/
theorem utf8DecodeChar?_append
    (front : ByteArray)
    (c : Char)
    (cs : List Char) :
    (front ++ (c :: cs).utf8Encode).utf8DecodeChar? front.size =
      some c := by
  rw [ByteArray.utf8DecodeChar?_eq_utf8DecodeChar?_extract,
    ByteArray.extract_append_eq_right rfl ByteArray.size_append]
  exact List.utf8DecodeChar?_utf8Encode_cons

/- The characters of a text are decoded one by one. -/
theorem decodeFrom_utf8Encode
    (front : ByteArray)
    (cs : List Char)
    (text : String) :
    decodeFrom (front ++ cs.utf8Encode) front.size text =
      text ++ String.ofList cs := by
  induction cs generalizing front text with
  | nil => simp [decodeFrom]
  | cons c cs ih =>
      have hSplit : front ++ (c :: cs).utf8Encode =
          front ++ [c].utf8Encode ++ cs.utf8Encode := by
        rw [ByteArray.append_assoc, ← List.utf8Encode_append]
        rfl
      have hSize : (front ++ [c].utf8Encode).size =
          front.size + c.utf8Size := by
        simp [List.utf8Encode_singleton]
      have hMore : front.size <
          (front ++ (c :: cs).utf8Encode).size := by
        have := c.utf8Size_pos
        rw [hSplit, ByteArray.size_append, hSize]
        omega
      rw [decodeFrom, dif_pos hMore, utf8DecodeChar?_append]
      dsimp only
      rw [← hSize, hSplit, ih, String.ofList_cons,
        String.push_eq_append, String.append_assoc]

/- Valid bytes are decoded to the text that they encode. -/
theorem decode_toUTF8
    (text : String) :
    decode text.toUTF8 = text := by
  rw [decode, fromUTF8?_toUTF8]

/- Both ways of decoding give the same text. -/
theorem decode_eq_decodeFrom
    (bytes : ByteArray) :
    decode bytes = decodeFrom bytes 0 "" := by
  rw [decode]
  split
  · next text h =>
      have hBytes : text.toList.utf8Encode = bytes :=
        String.utf8Encode_toList.trans (toUTF8_of_fromUTF8? h)
      have hDecode := decodeFrom_utf8Encode ByteArray.empty text.toList ""
      rw [ByteArray.empty_append, ByteArray.size_empty, hBytes] at hDecode
      rw [hDecode]
      simp
  · rfl

end ThreeAddress.Utf8
