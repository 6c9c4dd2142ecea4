import ThreeAddress.Console.Error
import ThreeAddress.Text.Utf8
import ThreeAddress.Value

/-
  This file defines where the output of a running program
  goes, and the bytes that it is made of.

  Key definitions include:
    * `Sink`
    * `Buffer`
    * `LimitedBuffer`
    * `outputInt`, `outputFloat`, `outputChar`
-/

namespace ThreeAddress

------------------------------------------------------------
-- Sinks
------------------------------------------------------------

/-
  Something that takes bytes. A write or a flush gives the
  sink behind it, and the reason if it failed.
-/
class Sink (ω : Type) where
  write : ω → ByteArray → ω × Option String
  flush : ω → ω × Option String

/- A sink that keeps all bytes. -/
structure Buffer where
  bytes : ByteArray

namespace Buffer

/- A buffer without bytes. -/
def empty : Buffer :=
  ⟨ByteArray.empty⟩

instance : Sink Buffer where
  write b chunk := (⟨b.bytes ++ chunk⟩, none)
  flush b := (b, none)

/- The text of the bytes. -/
def text (b : Buffer) : String :=
  Utf8.decode b.bytes

end Buffer

/-
  A sink that keeps bytes up to a limit and fails on those
  beyond it, and that may refuse to be flushed.
-/
structure LimitedBuffer where
  bytes : ByteArray
  limit : Option Nat
  fullReason : String
  flushReason : Option String

namespace LimitedBuffer

/- Keep what fits of some bytes. -/
def write (b : LimitedBuffer) (chunk : ByteArray) :
    LimitedBuffer × Option String :=
  match b.limit with
  | none => ({ b with bytes := b.bytes ++ chunk }, none)
  | some limit =>
      let room := limit - b.bytes.size
      if chunk.size ≤ room then
        ({ b with bytes := b.bytes ++ chunk }, none)
      else
        ( { b with bytes := b.bytes ++ chunk.extract 0 room }
        , some b.fullReason )

instance : Sink LimitedBuffer where
  write := write
  flush b := (b, b.flushReason)

end LimitedBuffer

------------------------------------------------------------
-- Written Values
------------------------------------------------------------

/- The bytes of a text. -/
def textBytes (cs : List Char) : ByteArray :=
  (String.ofList cs).toUTF8

/- The bytes of an integer. -/
def outputInt (n : Int32) : ByteArray :=
  textBytes (Decimal.ofInt n.toInt)

/- The bytes of a floating-point number. -/
def outputFloat (x : Single) : ByteArray :=
  textBytes x.chars

/- The bytes of a character. -/
def outputChar (c : Char) : ByteArray :=
  textBytes [c]

/- The character of a code point, if there is one. -/
def charOfCode? (code : Int32) : Option Char :=
  let n := code.toInt.toNat
  if h : 0 ≤ code.toInt ∧ n.isValidChar then
    some (Char.ofNatAux n h.2)
  else
    none

end ThreeAddress
