/-! # Big-endian bytes

Class files are sequences of bytes in which every number is stored high byte first. This module
holds the written form of the four word sizes and the number that a run of bytes denotes. -/

namespace ClassStub

/-- A run of bytes. -/
abbrev Bytes := List UInt8

namespace Bytes

/-- The number whose base-256 digits, highest first, are `bytes`. -/
def toNat (bytes : Bytes) : Nat :=
  bytes.foldl (fun value byte => value * 256 + byte.toNat) 0

/-- The two bytes of a 16-bit word. -/
def ofUInt16 (word : UInt16) : Bytes :=
  [(word >>> 8).toUInt8, word.toUInt8]

/-- The four bytes of a 32-bit word. -/
def ofUInt32 (word : UInt32) : Bytes :=
  [(word >>> 24).toUInt8, (word >>> 16).toUInt8, (word >>> 8).toUInt8, word.toUInt8]

/-- The eight bytes of a 64-bit word. -/
def ofUInt64 (word : UInt64) : Bytes :=
  [(word >>> 56).toUInt8, (word >>> 48).toUInt8, (word >>> 40).toUInt8, (word >>> 32).toUInt8,
    (word >>> 24).toUInt8, (word >>> 16).toUInt8, (word >>> 8).toUInt8, word.toUInt8]

/-- The UTF-8 form of `text`. -/
def ofString (text : String) : Bytes :=
  text.toUTF8.data.toList

@[simp] theorem length_ofUInt16 (word : UInt16) : (ofUInt16 word).length = 2 := rfl
@[simp] theorem length_ofUInt32 (word : UInt32) : (ofUInt32 word).length = 4 := rfl
@[simp] theorem length_ofUInt64 (word : UInt64) : (ofUInt64 word).length = 8 := rfl

end Bytes

/-- The lower-case hexadecimal digits of `value`, with zeros in front up to `width` digits. -/
def hexDigits (width value : Nat) : String :=
  let digits := Nat.toDigits 16 value
  String.ofList (List.replicate (width - digits.length) '0' ++ digits)

end ClassStub
