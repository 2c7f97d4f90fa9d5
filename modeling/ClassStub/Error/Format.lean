import ClassStub.AttributeKind
import ClassStub.Bytes
import ClassStub.Error.Pool

/-! # Errors of class file decoding -/

namespace ClassStub

/-- Why bytes are not a class file. -/
inductive FormatError where
  | badMagic (magic : UInt32)
  /-- The bytes end at `offset`, where `needed` more were due. -/
  | truncated (offset needed : Nat)
  | pool (cause : PoolError)
  | invalidUtf8 (index : UInt16)
  | invalidElementTag (tag : UInt8)
  | invalidTargetType (targetType : UInt8)
  /-- An attribute of one index has a body of `found` bytes instead of two. -/
  | indexAttributeSize (kind : AttributeKind) (found : Nat)
  | trailingBytes (count : Nat)
  deriving DecidableEq, Repr

/-- The wording of a decoding error. -/
def FormatError.message : FormatError → String
  | badMagic magic => s!"Invalid magic number: 0x{hexDigits 8 magic.toNat}"
  | truncated offset needed =>
    s!"Unexpected end of class file at offset {offset} (needed {needed} more bytes)"
  | pool cause => s!"Constant pool error: {cause.message}"
  | invalidUtf8 index => s!"Invalid modified UTF-8 in constant pool entry {index}"
  | invalidElementTag tag => s!"Invalid element value tag '{Char.ofNat tag.toNat}'"
  | invalidTargetType targetType =>
    s!"Invalid type annotation target type 0x{hexDigits 2 targetType.toNat}"
  | indexAttributeSize kind found =>
    s!"Attribute {kind.name} is malformed: expected 2 bytes, found {found}"
  | trailingBytes count => s!"Trailing bytes after class file: {count}"

end ClassStub
