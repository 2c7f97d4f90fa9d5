import ClassStub.Decoder
import ClassStub.Pool

/-! # The written form of a constant pool

A count in 16 bits, one more than there are slots, and then the constants. The second half of a
wide constant is not written. -/

namespace ClassStub

namespace Slot

/-- The written form of a slot. -/
def toBytes : Slot → Bytes
  | entry constant => constant.toBytes
  | upperHalf => []

end Slot

namespace Constant

/-- Two indexes in a row. -/
private def indexPair (make : UInt16 → UInt16 → Constant) : Decoder Constant := do
  return make (← Decoder.u2) (← Decoder.u2)

/-- The text of entry `index`. -/
def decodeUtf8 (index : UInt16) : Decoder Constant := do
  let length ← Decoder.u2
  let encoded ← Decoder.bytes length.toNat
  match JavaText.decode? encoded with
  | some text => return .utf8 text
  | none => Decoder.fail (.invalidUtf8 index)

/-- The constant of entry `index`. -/
def decode (index : UInt16) : Decoder Constant := do
  let tag ← Decoder.u1
  match tag with
  | 1 => decodeUtf8 index
  | 3 => return .integer (← Decoder.u4).toInt32
  | 4 => return .float (← Decoder.u4)
  | 5 => return .long (← Decoder.u8).toInt64
  | 6 => return .double (← Decoder.u8)
  | 7 => return .classRef (← Decoder.u2)
  | 8 => return .string (← Decoder.u2)
  | 9 => indexPair .fieldRef
  | 10 => indexPair .methodRef
  | 11 => indexPair .interfaceMethodRef
  | 12 => indexPair .nameAndType
  | 15 => return .methodHandle (← Decoder.u1) (← Decoder.u2)
  | 16 => return .methodType (← Decoder.u2)
  | 17 => indexPair .dynamic
  | 18 => indexPair .invokeDynamic
  | 19 => return .moduleRef (← Decoder.u2)
  | 20 => return .packageRef (← Decoder.u2)
  | _ => Decoder.fail (.pool (.unknownTag tag index))

end Constant

namespace Pool

/-- The written form of a pool. -/
def toBytes (pool : Pool) : Bytes :=
  Bytes.ofUInt16 pool.count ++ pool.slots.toList.flatMap Slot.toBytes

/-- Fill the slots that are still due behind `slots`. `owed` says that the last slot holds a wide
constant whose second half is still missing; a wide constant in the last slot that was counted
gets its second half all the same. -/
def decodeSlots : Nat → Bool → Array Slot → Decoder (Array Slot)
  | 0, owed, slots => fun cursor =>
    .ok (if owed then slots.push .upperHalf else slots, cursor)
  | due + 1, true, slots => decodeSlots due false (slots.push .upperHalf)
  | due + 1, false, slots => fun cursor =>
    match Constant.decode (slots.size + 1).toUInt16 cursor with
    | .ok (constant, next) => decodeSlots due constant.isWide (slots.push (.entry constant)) next
    | .error error => .error error

/-- A pool as it is written. None of its constants counts as added, so a later addition never
finds them. -/
def decode : Decoder Pool := do
  let count ← Decoder.u2
  let slots ← decodeSlots (count.toNat - 1) false #[]
  return { slots }

end Pool

end ClassStub
