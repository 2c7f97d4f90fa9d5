import ClassStub.Verification.Attributes

/-! # Verification of fields -/

namespace ClassStub.Verification

/-- A name or descriptor of a field. -/
def verifyFieldText (pool : Pool) (index : UInt16) : Except FieldFault Unit :=
  match pool.check Constant.isUtf8 index with
  | .valid => .ok ()
  | .missing => .error (.invalidIndex index)
  | .wrongKind => .error (.invalidIndexKind index)

/-- The content of a constant value attribute. -/
def verifyConstantValue (pool : Pool) (body : Bytes) : Except FieldFault Unit :=
  if body.length = 2 then
    if pool.has Constant.isConstantValue (Bytes.toNat body).toUInt16 then .ok ()
    else .error .invalidConstantValue
  else .error (.invalidAttribute .constantValue)

/-- The kinds of attributes that a field may not have. -/
def forbiddenOnField : List AttributeKind :=
  [.code, .exceptions, .innerClasses, .enclosingMethod, .annotationDefault,
    .visibleParameterAnnotations, .invisibleParameterAnnotations]

/-- One attribute of a field. -/
def verifyFieldAttribute (pool : Pool) (item : Attribute) : Except FieldFault Unit :=
  match item.name? pool with
  | none => .error (.invalidIndexKind item.name)
  | some name =>
    match AttributeKind.ofName? name with
    | some .constantValue => verifyConstantValue pool item.body
    | some kind => if kind ∈ forbiddenOnField then .error (.invalidAttribute kind) else .ok ()
    | none => .ok ()

/-- One field: name, descriptor, access flags, repeated attributes, attributes. -/
def verifyField (pool : Pool) (field : Member) : Except FieldFault Unit := do
  verifyFieldText pool field.name
  verifyFieldText pool field.descriptor
  if !field.access.hasOneVisibility then throw (.invalidAccess field.access)
  if let some kind := duplicateKind? pool [.constantValue, .signature] field.attributes then
    throw (.duplicateAttribute kind)
  field.attributes.forM (verifyFieldAttribute pool)

/-- The fields of a class. -/
def verifyFields (file : ClassFile) : Except FieldFault Unit :=
  file.fields.forM (verifyField file.pool)

end ClassStub.Verification
