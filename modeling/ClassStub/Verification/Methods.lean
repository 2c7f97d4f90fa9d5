import ClassStub.Verification.Attributes

/-! # Verification of methods -/

namespace ClassStub.Verification

/-- An index of a method that needs a certain kind of constant. -/
def verifyMethodIndex (pool : Pool) (accepts : Constant → Bool) (index : UInt16) :
    Except MethodFault Unit :=
  match pool.check accepts index with
  | .valid => .ok ()
  | .missing => .error (.invalidIndex index)
  | .wrongKind => .error (.invalidIndexKind index)

/-- The content of an attribute that lists exceptions. -/
def verifyExceptions (pool : Pool) (body : Bytes) : Except MethodFault Unit :=
  match words body with
  | count :: exceptions =>
    if body.length = 2 + count.toNat * 2 then
      exceptions.forM (verifyMethodIndex pool Constant.isClassRef)
    else .error (.invalidAttribute .exceptions)
  | [] => .error (.invalidAttribute .exceptions)

/-- One attribute of a method; `bodiless` says that the method may have no code. -/
def verifyMethodAttribute (pool : Pool) (bodiless : Bool) (item : Attribute) :
    Except MethodFault Unit :=
  match item.name? pool with
  | none => .error (.invalidIndexKind item.name)
  | some name =>
    match AttributeKind.ofName? name with
    | some .code => if bodiless then .error .forbiddenCode else .ok ()
    | some .exceptions => verifyExceptions pool item.body
    | some .constantValue => .error (.invalidAttribute .constantValue)
    | some .innerClasses => .error (.invalidAttribute .innerClasses)
    | some .enclosingMethod => .error (.invalidAttribute .enclosingMethod)
    | _ => .ok ()

/-- The kinds of attributes that a method has at most once. -/
def uniqueOnMethod : List AttributeKind :=
  [.code, .exceptions, .signature, .annotationDefault]

/-- One method: access flags, name, descriptor, repeated attributes, attributes. -/
def verifyMethod (pool : Pool) (method : Member) : Except MethodFault Unit := do
  if !method.access.hasOneVisibility then throw (.invalidAccess method.access)
  verifyMethodIndex pool Constant.isUtf8 method.name
  verifyMethodIndex pool Constant.isUtf8 method.descriptor
  if let some kind := duplicateKind? pool uniqueOnMethod method.attributes then
    throw (.duplicateAttribute kind)
  method.attributes.forM (verifyMethodAttribute pool method.access.isBodiless)

/-- The methods of a class. -/
def verifyMethods (file : ClassFile) : Except MethodFault Unit :=
  file.methods.forM (verifyMethod file.pool)

end ClassStub.Verification
