import ClassStub.Bytes

/-! # Access flags -/

namespace ClassStub

/-- The access flags of a class, a member or a nested link. Bits without a meaning here are kept. -/
structure AccessFlags where
  bits : UInt16
  deriving DecidableEq, Repr, Inhabited

namespace AccessFlags

/-- The flags as four hexadecimal digits. -/
def text (access : AccessFlags) : String :=
  s!"0x{hexDigits 4 access.bits.toNat}"

/-- Whether any bit of `mask` is set. -/
def hasAny (access : AccessFlags) (mask : UInt16) : Bool :=
  access.bits &&& mask != 0

/-- The public flag. -/
def isPublic (access : AccessFlags) : Bool := access.hasAny 0x0001
/-- The private flag. -/
def isPrivate (access : AccessFlags) : Bool := access.hasAny 0x0002
/-- The protected flag. -/
def isProtected (access : AccessFlags) : Bool := access.hasAny 0x0004
/-- The static flag. -/
def isStatic (access : AccessFlags) : Bool := access.hasAny 0x0008
/-- The interface flag. -/
def isInterface (access : AccessFlags) : Bool := access.hasAny 0x0200
/-- A method that is abstract or native has no body in the class file. -/
def isBodiless (access : AccessFlags) : Bool := access.hasAny (0x0400 ||| 0x0100)

/-- Whether at most one of public, protected and private is set. -/
def hasOneVisibility (access : AccessFlags) : Bool :=
  access.isPublic.toNat + access.isProtected.toNat + access.isPrivate.toNat ≤ 1

end AccessFlags

end ClassStub
