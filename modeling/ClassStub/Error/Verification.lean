import ClassStub.Access
import ClassStub.AttributeKind

/-! # Errors of class file verification

Each part of a class file has its own faults; `VerificationError` joins them with those of the
class as a whole. -/

namespace ClassStub

/-- The wording of an index that names no constant. -/
private def invalidIndexMessage (index : UInt16) : String :=
  s!"Invalid constant pool index {index}"

/-- The wording of an index that names a constant of the wrong kind. -/
private def invalidIndexKindMessage (index : UInt16) : String :=
  s!"Invalid constant pool index type {index}"

/-- A fault of the constant pool. The index is that of the faulty constant itself. -/
inductive PoolFault where
  | invalidIndex (owner : UInt16)
  | invalidIndexKind (owner : UInt16)
  | misplacedUpperHalf (index : UInt16)
  deriving DecidableEq, Repr

/-- The wording of a fault of the constant pool. -/
def PoolFault.message : PoolFault → String
  | invalidIndex owner => invalidIndexMessage owner
  | invalidIndexKind owner => invalidIndexKindMessage owner
  | misplacedUpperHalf index =>
    s!"Unusable constant pool slot {index} is not preceded by a Long or Double"

/-- A fault of a field. -/
inductive FieldFault where
  | invalidIndex (index : UInt16)
  | invalidIndexKind (index : UInt16)
  | invalidAccess (access : AccessFlags)
  | invalidAttribute (kind : AttributeKind)
  | duplicateAttribute (kind : AttributeKind)
  | invalidConstantValue
  deriving DecidableEq, Repr

/-- The wording of a fault of a field. -/
def FieldFault.message : FieldFault → String
  | invalidIndex index => invalidIndexMessage index
  | invalidIndexKind index => invalidIndexKindMessage index
  | invalidAccess access => s!"Invalid field access flags: {access.text}"
  | invalidAttribute kind => s!"Invalid field attribute: {kind.name}"
  | duplicateAttribute kind => s!"Duplicate field attribute: {kind.name}"
  | invalidConstantValue => "ConstantValue refers to invalid constant kind for field"

/-- A fault of a method. -/
inductive MethodFault where
  | invalidIndex (index : UInt16)
  | invalidIndexKind (index : UInt16)
  | invalidAccess (access : AccessFlags)
  | forbiddenCode
  | invalidAttribute (kind : AttributeKind)
  | duplicateAttribute (kind : AttributeKind)
  deriving DecidableEq, Repr

/-- The wording of a fault of a method. -/
def MethodFault.message : MethodFault → String
  | invalidIndex index => invalidIndexMessage index
  | invalidIndexKind index => invalidIndexKindMessage index
  | invalidAccess access => s!"Invalid method access flags: {access.text}"
  | forbiddenCode => "Abstract or native method must not have Code attribute"
  | invalidAttribute kind => s!"Invalid method attribute: {kind.name}"
  | duplicateAttribute kind => s!"Duplicate method attribute: {kind.name}"

/-- A fault of the attributes of a class. -/
inductive AttributeFault where
  | invalidName (index : UInt16)
  | duplicate (kind : AttributeKind)
  | misplaced (kind : AttributeKind)
  | invalidContent (kind : AttributeKind)
  deriving DecidableEq, Repr

/-- The wording of a fault of the attributes of a class. -/
def AttributeFault.message : AttributeFault → String
  | invalidName index => s!"Attribute name index {index} is not a Utf8 entry"
  | duplicate kind => s!"Duplicate class attribute: {kind.name}"
  | misplaced kind => s!"Attribute {kind.name} is not allowed on a class"
  | invalidContent kind => s!"Invalid attribute content: {kind.name}"

/-- Why a class file is not well-formed. -/
inductive VerificationError where
  | pool (fault : PoolFault)
  | field (fault : FieldFault)
  | method (fault : MethodFault)
  | attributes (fault : AttributeFault)
  | invalidIndex (index : UInt16)
  | invalidIndexKind (index : UInt16)
  | interfaceWithoutSuperclass
  deriving DecidableEq, Repr

namespace VerificationError

/-- The wording of a verification error. -/
def message : VerificationError → String
  | pool fault => s!"Constant pool: {fault.message}"
  | field fault => s!"Field: {fault.message}"
  | method fault => s!"Method: {fault.message}"
  | attributes fault => s!"Attribute: {fault.message}"
  | invalidIndex index => invalidIndexMessage index
  | invalidIndexKind index => invalidIndexKindMessage index
  | interfaceWithoutSuperclass => "Interface must extend java/lang/Object"

/-- The wording of the fault inside the error, if it is that of one part. -/
def cause? : VerificationError → Option String
  | pool fault => some fault.message
  | field fault => some fault.message
  | method fault => some fault.message
  | attributes fault => some fault.message
  | _ => none

end VerificationError

end ClassStub
