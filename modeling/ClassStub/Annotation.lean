import ClassStub.Annotation.Value
import ClassStub.Canonical

/-! # Annotations

Annotations on declarations and annotations on the types within them. Both are ordered by what
they say and by nothing else: names by their characters, values by their canonical form. -/

namespace ClassStub

attribute [local instance] lexOrd

/-- An annotation. A visible one is there at run time, an invisible one in the class file only. -/
structure Annotation where
  descriptor : String
  visible : Bool
  elements : List ElementPair
  deriving Inhabited

/-- The key of an annotation: its descriptor, whether it is visible, and its elements. -/
abbrev AnnotationKey := String × Bool × Bytes

/-- The canonical key of an annotation. -/
def Annotation.canonicalKey (item : Annotation) : AnnotationKey :=
  (item.descriptor, item.visible, ElementValue.elementsKey item.elements)

instance : Keyed Annotation where
  Key := AnnotationKey
  key := Annotation.canonicalKey

/-- The part of a declaration to which a type annotation belongs. -/
inductive Target where
  | typeParameter (index : UInt8)
  | supertype (index : UInt16)
  | typeParameterBound (parameter bound : UInt8)
  | empty
  | formalParameter (index : UInt8)
  | throws (index : UInt16)
  deriving DecidableEq, Repr, Inhabited

namespace Target

/-- The written form of a target. -/
def toBytes : Target → Bytes
  | typeParameter index | formalParameter index => [index]
  | supertype index | throws index => Bytes.ofUInt16 index
  | typeParameterBound parameter bound => [parameter, bound]
  | empty => []

/-- The place of a target among its kinds and the numbers it holds. -/
def rank : Target → Nat × List Nat
  | typeParameter index => (0, [index.toNat])
  | supertype index => (1, [index.toNat])
  | typeParameterBound parameter bound => (2, [parameter.toNat, bound.toNat])
  | empty => (3, [])
  | formalParameter index => (4, [index.toNat])
  | throws index => (5, [index.toNat])

end Target

instance : Keyed Target where
  Key := Nat × List Nat
  key := Target.rank

/-- One step into a type. -/
structure PathStep where
  kind : UInt8
  argumentIndex : UInt8
  deriving DecidableEq, Repr, Inhabited

/-- The steps from a whole type to the annotated part of it. -/
structure TypePath where
  steps : List PathStep
  deriving DecidableEq, Repr, Inhabited

/-- The written form of a path, with the number of steps in 8 bits. -/
def TypePath.toBytes (path : TypePath) : Bytes :=
  path.steps.length.toUInt8 :: path.steps.flatMap fun step => [step.kind, step.argumentIndex]

instance : Keyed TypePath where
  Key := List (UInt8 × UInt8)
  key := fun path => path.steps.map fun step => (step.kind, step.argumentIndex)

/-- An annotation on a type within a declaration. -/
structure TypeAnnotation where
  targetType : UInt8
  target : Target
  path : TypePath
  content : Annotation
  deriving Inhabited

namespace TypeAnnotation

/-- Whether the annotation is there at run time. -/
def visible (item : TypeAnnotation) : Bool :=
  item.content.visible

/-- The written form of the place that is annotated. -/
def siteBytes (item : TypeAnnotation) : Bytes :=
  item.targetType :: (item.target.toBytes ++ item.path.toBytes)

end TypeAnnotation

instance : Keyed TypeAnnotation where
  Key := Bytes × AnnotationKey
  key := fun item => (item.siteBytes, item.content.canonicalKey)

instance : Keyed JavaText where
  Key := List UInt16
  key := JavaText.units

/-- The annotations of each formal parameter of a method, for one visibility. The number of
parameters is the table's own and may differ from the descriptor's. -/
structure ParameterTable where
  parameters : List (CanonicalSet Annotation)
  deriving Inhabited

namespace ParameterTable

/-- Add an annotation to a parameter, growing the table as far as that parameter. -/
def insert (table : ParameterTable) (parameter : Nat) (item : Annotation) : ParameterTable :=
  let missing := parameter + 1 - table.parameters.length
  let parameters := table.parameters ++ List.replicate missing CanonicalSet.empty
  ⟨parameters.modify parameter fun set => set.insert item⟩

/-- Whether two tables have equal sets for equal parameters. -/
def sameKeys (a b : ParameterTable) : Bool :=
  a.parameters.length == b.parameters.length
    && (a.parameters.zip b.parameters).all fun (x, y) => x.sameKeys y

end ParameterTable

end ClassStub
