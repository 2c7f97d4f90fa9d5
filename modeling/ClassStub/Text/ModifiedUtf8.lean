import ClassStub.Text

/-! # Modified UTF-8

The encoding of text in class files. Each UTF-16 unit is written on its own, in one, two or three
bytes; the unit 0 takes two bytes, so no written text holds a zero byte. Decoding accepts longer
forms than the shortest one, but no zero byte and no stray or missing continuation byte. -/

namespace ClassStub.JavaText

/-- The shortest form of one unit, where 0 counts as needing two bytes. -/
def encodeUnit (unit : UInt16) : Bytes :=
  if unit != 0 && unit < 0x80 then [unit.toUInt8]
  else if unit < 0x800 then
    [(unit >>> 6).toUInt8 ||| 0xC0, (unit &&& 0x3F).toUInt8 ||| 0x80]
  else
    [(unit >>> 12).toUInt8 ||| 0xE0, ((unit >>> 6) &&& 0x3F).toUInt8 ||| 0x80,
      (unit &&& 0x3F).toUInt8 ||| 0x80]

/-- The modified UTF-8 form of a text. -/
def encode (text : JavaText) : Bytes :=
  text.units.flatMap encodeUnit

/-- Whether a byte continues a longer form. -/
def isContinuation (byte : UInt8) : Bool :=
  byte &&& 0xC0 == 0x80

/-- The six payload bits of a continuation byte. -/
def continuationBits (byte : UInt8) : UInt16 :=
  (byte &&& 0x3F).toUInt16

/-- Decode bytes behind the units read so far, which stand in reverse order. -/
def decodeUnits (reversed : List UInt16) : Bytes → Option (List UInt16)
  | [] => some reversed.reverse
  | first :: rest =>
    if first &&& 0x80 == 0 then
      if first == 0 then none else decodeUnits (first.toUInt16 :: reversed) rest
    else if first &&& 0xE0 == 0xC0 then
      match rest with
      | second :: rest =>
        if isContinuation second then
          let unit := ((first &&& 0x1F).toUInt16 <<< 6) ||| continuationBits second
          decodeUnits (unit :: reversed) rest
        else none
      | [] => none
    else if first &&& 0xF0 == 0xE0 then
      match rest with
      | second :: third :: rest =>
        if isContinuation second && isContinuation third then
          let unit := ((first &&& 0x0F).toUInt16 <<< 12) ||| (continuationBits second <<< 6)
            ||| continuationBits third
          decodeUnits (unit :: reversed) rest
        else none
      | _ => none
    else none

/-- The text that `bytes` encodes, or `none` if they are not modified UTF-8. -/
def decode? (bytes : Bytes) : Option JavaText :=
  (decodeUnits [] bytes).map JavaText.mk

end ClassStub.JavaText
