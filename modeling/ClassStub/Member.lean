import ClassStub.Access
import ClassStub.Annotation

/-! # The parts of a class

What a class says about itself, its fields and methods, and its links to other classes. Fields and
methods are told apart by name and descriptor, nested links by their three names; access flags and
all other content do not enter the comparison. -/

namespace ClassStub

attribute [local instance] lexOrd

/-- The version of the class file format. -/
structure ClassVersion where
  major : UInt16
  minor : UInt16
  deriving DecidableEq, Repr, Inhabited

instance : Keyed ClassVersion where
  Key := UInt16 × UInt16
  key := fun version => (version.major, version.minor)

/-- The version of Java 8, which a fresh class file has. -/
def ClassVersion.java8 : ClassVersion := ⟨52, 0⟩

/-- What a class says about itself. -/
structure ClassHeader where
  version : ClassVersion
  access : AccessFlags
  name : String
  signature : Option String := none
  /-- Absent for `java/lang/Object` and for module descriptions. -/
  superName : Option String := none
  interfaces : List String := []
  deprecated : Bool := false
  synthetic : Bool := false
  deriving DecidableEq, Repr, Inhabited

/-- The constant that a field is initialised with. -/
inductive ConstantValue where
  | int (value : Int32)
  | float (bits : UInt32)
  | long (value : Int64)
  | double (bits : UInt64)
  | string (text : JavaText)
  deriving DecidableEq, Inhabited

/-- Whether two constants are equal, with floating point numbers compared as numbers. -/
def ConstantValue.agrees : ConstantValue → ConstantValue → Bool
  | int a, int b => a == b
  | float a, float b => Ieee.singleEqual a b
  | long a, long b => a == b
  | double a, double b => Ieee.doubleEqual a b
  | string a, string b => a == b
  | _, _ => false

/-- A field. -/
structure Field where
  access : AccessFlags
  name : String
  descriptor : String
  signature : Option String := none
  value : Option ConstantValue := none
  annotations : CanonicalSet Annotation := .empty
  typeAnnotations : CanonicalSet TypeAnnotation := .empty
  deprecated : Bool := false
  synthetic : Bool := false
  deriving Inhabited

instance : Keyed Field where
  Key := String × String
  key := fun field => (field.name, field.descriptor)

/-- A method, without its body. -/
structure Method where
  access : AccessFlags
  name : String
  descriptor : String
  signature : Option String := none
  exceptions : List String := []
  annotations : CanonicalSet Annotation := .empty
  typeAnnotations : CanonicalSet TypeAnnotation := .empty
  visibleParameters : Option ParameterTable := none
  invisibleParameters : Option ParameterTable := none
  /-- The default of an annotation element. -/
  defaultValue : Option ElementValue := none
  deprecated : Bool := false
  synthetic : Bool := false
  deriving Inhabited

instance : Keyed Method where
  Key := String × String
  key := fun method => (method.name, method.descriptor)

/-- Add an annotation to a parameter, in the table of the annotation's visibility. -/
def Method.annotateParameter (method : Method) (parameter : Nat) (item : Annotation) : Method :=
  let extend (table : Option ParameterTable) :=
    some ((table.getD ⟨[]⟩).insert parameter item)
  if item.visible then
    { method with visibleParameters := extend method.visibleParameters }
  else { method with invisibleParameters := extend method.invisibleParameters }

/-- A statement that the class `name` is nested in `outerName`. -/
structure NestedLink where
  name : String
  /-- Absent for anonymous and local classes. -/
  outerName : Option String
  /-- Absent for anonymous classes. -/
  simpleName : Option String
  access : AccessFlags
  deriving DecidableEq, Repr, Inhabited

/-- Absent names count as empty ones. -/
instance : Keyed NestedLink where
  Key := String × String × String
  key := fun link => (link.name, link.outerName.getD "", link.simpleName.getD "")

/-- The class, and the method if there is one, that encloses a local or anonymous class. -/
structure EnclosingLink where
  owner : String
  methodName : Option String := none
  methodDescriptor : Option String := none
  deriving DecidableEq, Repr, Inhabited

end ClassStub
