import ClassStub.Error.Format

/-! # Decoding from a cursor

A `Cursor` is what is left of the input together with the number of bytes consumed, and a
`Decoder` moves it forward or fails. Every read goes through `Decoder.bytes`, so a read past the
end is reported with the place where it began and the number of bytes that were missing. -/

namespace ClassStub

/-- The bytes still to be read, and how many were read before them. -/
structure Cursor where
  rest : Bytes
  offset : Nat
  deriving DecidableEq, Repr

namespace Cursor

/-- The cursor in front of `bytes`. -/
def start (bytes : Bytes) : Cursor :=
  ⟨bytes, 0⟩

/-- How many bytes are left. -/
def remaining (cursor : Cursor) : Nat :=
  cursor.rest.length

end Cursor

/-- A computation that reads from a cursor. -/
abbrev Decoder := StateT Cursor (Except FormatError)

namespace Decoder

/-- The next `count` bytes. -/
def bytes (count : Nat) : Decoder Bytes := fun cursor =>
  let (taken, rest) := cursor.rest.splitAt count
  let found := taken.length
  if found < count then .error (.truncated cursor.offset (count - found))
  else .ok (taken, ⟨rest, cursor.offset + count⟩)

/-- The next `size` bytes as one number. -/
def number (size : Nat) : Decoder Nat := do
  return Bytes.toNat (← bytes size)

/-- One byte. -/
def u1 : Decoder UInt8 := do
  return (← number 1).toUInt8

/-- A 16-bit word. -/
def u2 : Decoder UInt16 := do
  return (← number 2).toUInt16

/-- A 32-bit word. -/
def u4 : Decoder UInt32 := do
  return (← number 4).toUInt32

/-- A 64-bit word. -/
def u8 : Decoder UInt64 := do
  return (← number 8).toUInt64

/-- Give up with `error`. -/
def fail {α : Type} (error : FormatError) : Decoder α := fun _ => .error error

/-- The result of a constant pool look-up. -/
def lookup {α : Type} (result : Except PoolError α) : Decoder α := fun cursor =>
  match result with
  | .ok value => .ok (value, cursor)
  | .error cause => .error (.pool cause)

/-- Run `item` for `count` more items behind those in `reversed`. -/
def repeatOnto {α : Type} (item : Decoder α) : Nat → List α → Decoder (List α)
  | 0, reversed => fun cursor => .ok (reversed.reverse, cursor)
  | count + 1, reversed => fun cursor =>
    match item cursor with
    | .ok (value, next) => repeatOnto item count (value :: reversed) next
    | .error error => .error error

/-- `count` items in a row. -/
def replicate {α : Type} (count : Nat) (item : Decoder α) : Decoder (List α) :=
  repeatOnto item count []

/-- A 16-bit count and that many items. -/
def counted {α : Type} (item : Decoder α) : Decoder (List α) := do
  replicate (← u2).toNat item

/-- Decode a body of its own, with offsets counted from its first byte. Bytes behind what the
decoder reads are ignored. -/
def decode {α : Type} (decoder : Decoder α) (body : Bytes) : Except FormatError α :=
  (decoder (.start body)).map Prod.fst

end Decoder

end ClassStub
