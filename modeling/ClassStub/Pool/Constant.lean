import ClassStub.Text.ModifiedUtf8

/-! # Constants

The entries of a constant pool. References to other entries are kept as pool indexes and floating
point numbers as bit patterns, so that two constants are equal exactly when their written forms
are. -/

namespace ClassStub

/-- An entry of a constant pool. -/
inductive Constant where
  | utf8 (text : JavaText)
  | integer (value : Int32)
  | float (bits : UInt32)
  | long (value : Int64)
  | double (bits : UInt64)
  | classRef (name : UInt16)
  | string (text : UInt16)
  | fieldRef (owner nameAndType : UInt16)
  | methodRef (owner nameAndType : UInt16)
  | interfaceMethodRef (owner nameAndType : UInt16)
  | nameAndType (name descriptor : UInt16)
  | methodHandle (kind : UInt8) (reference : UInt16)
  | methodType (descriptor : UInt16)
  | dynamic (bootstrap nameAndType : UInt16)
  | invokeDynamic (bootstrap nameAndType : UInt16)
  | moduleRef (name : UInt16)
  | packageRef (name : UInt16)
  deriving DecidableEq, Hashable, Repr

namespace Constant

/-- Whether the constant takes two slots of the pool. -/
def isWide : Constant → Bool
  | long _ | double _ => true
  | _ => false

/-- How many slots the constant takes. -/
def width (constant : Constant) : Nat :=
  if constant.isWide then 2 else 1

/-- Whether the constant is text. -/
def isUtf8 : Constant → Bool
  | utf8 _ => true
  | _ => false

/-- Whether the constant names a class. -/
def isClassRef : Constant → Bool
  | classRef _ => true
  | _ => false

/-- Whether the constant is a name with a descriptor. -/
def isNameAndType : Constant → Bool
  | nameAndType .. => true
  | _ => false

/-- Whether the constant names a field or method of a class. -/
def isMemberRef : Constant → Bool
  | fieldRef .. | methodRef .. | interfaceMethodRef .. => true
  | _ => false

/-- Whether a field can be initialised from the constant. -/
def isConstantValue : Constant → Bool
  | integer _ | float _ | long _ | double _ | string _ => true
  | _ => false

/-- The byte that begins the written form. -/
def tag : Constant → UInt8
  | utf8 _ => 1
  | integer _ => 3
  | float _ => 4
  | long _ => 5
  | double _ => 6
  | classRef _ => 7
  | string _ => 8
  | fieldRef .. => 9
  | methodRef .. => 10
  | interfaceMethodRef .. => 11
  | nameAndType .. => 12
  | methodHandle .. => 15
  | methodType _ => 16
  | dynamic .. => 17
  | invokeDynamic .. => 18
  | moduleRef _ => 19
  | packageRef _ => 20

/-- The written form behind the tag. The length of a text is written in 16 bits, and a text that
is too long for that loses the higher bits of its length. -/
def payload : Constant → Bytes
  | utf8 text =>
    let encoded := text.encode
    Bytes.ofUInt16 encoded.length.toUInt16 ++ encoded
  | integer value => Bytes.ofUInt32 value.toUInt32
  | float bits => Bytes.ofUInt32 bits
  | long value => Bytes.ofUInt64 value.toUInt64
  | double bits => Bytes.ofUInt64 bits
  | classRef index | string index | methodType index | moduleRef index | packageRef index =>
    Bytes.ofUInt16 index
  | fieldRef first second | methodRef first second | interfaceMethodRef first second
  | nameAndType first second | dynamic first second | invokeDynamic first second =>
    Bytes.ofUInt16 first ++ Bytes.ofUInt16 second
  | methodHandle kind reference => kind :: Bytes.ofUInt16 reference

/-- The written form of a constant. -/
def toBytes (constant : Constant) : Bytes :=
  constant.tag :: constant.payload

end Constant

end ClassStub
