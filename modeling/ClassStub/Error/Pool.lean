/-! # Constant pool errors -/

namespace ClassStub

/-- What a constant pool index was expected to name. -/
inductive ExpectedConstant where
  | utf8
  | classRef
  | nameAndType
  | integer
  | long
  | float
  | double
  | constantValue
  deriving DecidableEq, Repr

/-- The word for an expected constant in messages. -/
def ExpectedConstant.label : ExpectedConstant → String
  | .utf8 => "Utf8"
  | .classRef => "Class"
  | .nameAndType => "NameAndType"
  | .integer => "Integer"
  | .long => "Long"
  | .float => "Float"
  | .double => "Double"
  | .constantValue => "constant value"

/-- Why a constant could not be added, found or recognised. -/
inductive PoolError where
  | outOfSpace
  | invalidIndex (index : UInt16)
  | unexpectedKind (index : UInt16) (expected : ExpectedConstant)
  | unpairedSurrogate (index : UInt16)
  | unknownTag (tag : UInt8) (index : UInt16)
  deriving DecidableEq, Repr

/-- The wording of a constant pool error. -/
def PoolError.message : PoolError → String
  | outOfSpace => "Constant pool is out of space"
  | invalidIndex index => s!"Invalid constant pool index: {index}"
  | unexpectedKind index expected =>
    s!"Constant pool index {index} is not a {expected.label} entry"
  | unpairedSurrogate index =>
    s!"Constant pool entry {index} holds unpaired surrogates and cannot be used as a name"
  | unknownTag tag index => s!"Unknown constant pool tag {tag} at index {index}"

end ClassStub
