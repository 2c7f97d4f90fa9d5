import ClassStub.Member

/-! # Which parts of a class belong to its surface

Private parts do not, nor does the static initializer, which no other class can refer to. Bridges
and synthetic methods do: code that was compiled against the class may link to them. Of the nested
links, a class needs the one about itself and those about classes nested directly in it. Access
flag bits without a meaning here are not looked at. -/

namespace ClassStub

/-- Why a part of a class does not belong to its surface. -/
inductive DropReason where
  | privateAccess
  | staticInitializer
  | unrelatedNestedType
  deriving DecidableEq, Repr

/-- The word for a reason. -/
def DropReason.label : DropReason → String
  | privateAccess => "Private"
  | staticInitializer => "StaticInitializer"
  | unrelatedNestedType => "UnrelatedNestedType"

/-- Whether a part of a class belongs to its surface. -/
inductive Membership where
  | retain
  | drop (reason : DropReason)
  deriving DecidableEq, Repr

/-- The name of static initializers. -/
def staticInitializerName : String := "<clinit>"

/-- Whether a field belongs to the surface. -/
def Field.membership (field : Field) : Membership :=
  if field.access.isPrivate then .drop .privateAccess else .retain

/-- Whether a method belongs to the surface. -/
def Method.membership (method : Method) : Membership :=
  if method.access.isPrivate then .drop .privateAccess
  else if method.name = staticInitializerName ∧ method.access.isStatic then
    .drop .staticInitializer
  else .retain

/-- Whether a nested link belongs to the surface of `thisClass`. -/
def NestedLink.membership (link : NestedLink) (thisClass : String) : Membership :=
  if link.access.isPrivate then .drop .privateAccess
  else if link.name = thisClass ∨ link.outerName = some thisClass then .retain
  else .drop .unrelatedNestedType

end ClassStub
