import ClassStub.Code
import ClassStub.Event
import ClassStub.Proofs.Limits

/-! # Limits on classes

What the class file format demands of the parts of a class: texts that can be written, lists that
can be counted in 16 bits for each attribute they are written to, tables whose annotations have the
visibility of the table, and enclosing methods that have both a name and a descriptor. -/

namespace ClassStub

variable {α : Type}

/-- Items with the visible ones first. -/
def visibleFirst (visible : α → Bool) (items : List α) : List α :=
  items.filter (visible · == true) ++ items.filter (visible · == false)

@[simp] theorem mem_visibleFirst {visible : α → Bool} {items : List α} {item : α} :
    item ∈ visibleFirst visible items ↔ item ∈ items := by
  rw [visibleFirst, List.mem_append, List.mem_filter, List.mem_filter]
  cases visible item <;> simp

/-- The items of either visibility can be counted in 16 bits, and all of them have a property. -/
structure VisibilitiesWithin (visible : α → Bool) (property : α → Prop) (items : List α) :
    Prop where
  count : ∀ visibility, (items.filter (visible · == visibility)).length ≤ 65535
  items : ∀ item ∈ items, property item

/-- Annotations that can be written to the two attributes for them. -/
abbrev Annotation.ListWithin (texts : JavaText → Prop) (items : List Annotation) : Prop :=
  VisibilitiesWithin Annotation.visible (fun item => item.Within (.counted texts)) items

/-- Type annotations that can be written to the two attributes for them. -/
abbrev TypeAnnotation.ListWithin (texts : JavaText → Prop) (items : List TypeAnnotation) : Prop :=
  VisibilitiesWithin TypeAnnotation.visible (fun item => item.Within (.counted texts)) items

/-- A name is among `texts`. -/
def NameWithin (texts : JavaText → Prop) (name : String) : Prop :=
  texts (.ofString name)

instance (texts : JavaText → Prop) [DecidablePred texts] (name : String) :
    Decidable (NameWithin texts name) :=
  inferInstanceAs (Decidable (texts _))

/-- The text of a constant is among `texts`, if it is one. -/
def ConstantValue.Within (texts : JavaText → Prop) (value : ConstantValue) : Prop :=
  ∀ text, value = .string text → texts text

/-- The names in a header are among `texts`. -/
structure ClassHeader.Within (texts : JavaText → Prop) (header : ClassHeader) : Prop where
  name : NameWithin texts header.name
  signature : ∀ value ∈ header.signature, NameWithin texts value
  superName : ∀ name ∈ header.superName, NameWithin texts name
  interfaces : ∀ name ∈ header.interfaces, NameWithin texts name

/-- A field that can be written. -/
structure Field.Within (texts : JavaText → Prop) (field : Field) : Prop where
  name : NameWithin texts field.name
  descriptor : NameWithin texts field.descriptor
  signature : ∀ value ∈ field.signature, NameWithin texts value
  value : ∀ value ∈ field.value, value.Within texts
  annotations : Annotation.ListWithin texts field.annotations.toList
  typeAnnotations : TypeAnnotation.ListWithin texts field.typeAnnotations.toList

/-- A method that can be written. -/
structure Method.Within (texts : JavaText → Prop) (method : Method) : Prop where
  name : NameWithin texts method.name
  descriptor : NameWithin texts method.descriptor
  signature : ∀ value ∈ method.signature, NameWithin texts value
  exceptionCount : method.exceptions.length ≤ 65535
  exceptions : ∀ name ∈ method.exceptions, NameWithin texts name
  annotations : Annotation.ListWithin texts method.annotations.toList
  typeAnnotations : TypeAnnotation.ListWithin texts method.typeAnnotations.toList
  visibleParameters : ∀ table ∈ method.visibleParameters, table.Within (.counted texts) true
  invisibleParameters : ∀ table ∈ method.invisibleParameters, table.Within (.counted texts) false
  defaultValue : ∀ value ∈ method.defaultValue, value.Within (.counted texts)

/-- The names in a nested link are among `texts`. -/
structure NestedLink.Within (texts : JavaText → Prop) (link : NestedLink) : Prop where
  name : NameWithin texts link.name
  outerName : ∀ name ∈ link.outerName, NameWithin texts name
  simpleName : ∀ name ∈ link.simpleName, NameWithin texts name

/-- The names in an enclosing link are among `texts`, and a method has a descriptor exactly if it
has a name. -/
structure EnclosingLink.Within (texts : JavaText → Prop) (link : EnclosingLink) : Prop where
  owner : NameWithin texts link.owner
  methodName : ∀ name ∈ link.methodName, NameWithin texts name
  methodDescriptor : ∀ descriptor ∈ link.methodDescriptor, NameWithin texts descriptor
  paired : link.methodName.isSome = link.methodDescriptor.isSome

/-- An event that can be written, as far as it can be judged by itself. -/
def ClassEvent.Within (texts : JavaText → Prop) : ClassEvent → Prop
  | .header item => item.Within texts
  | .enclosing link => link.Within texts
  | .annotated item => item.Within (.counted texts)
  | .typeAnnotated item => item.Within (.counted texts)
  | .nested link => link.Within texts
  | .field item => item.Within texts
  | .method item => item.Within texts
  | .finish => True

/-! ## Sizes of attribute bodies -/

/-- The sizes of the bodies that are written for items, if there are any. -/
def listSizes (size : α → Nat) (items : List α) : List Nat :=
  if items.isEmpty then [] else [listSize size items]

/-- The sizes of the bodies that are written for items of both visibilities. -/
def visibilitySizes (visible : α → Bool) (size : α → Nat) (items : List α) : List Nat :=
  listSizes size (items.filter (visible · == true))
    ++ listSizes size (items.filter (visible · == false))

/-- The sizes of the bodies of signature and markers. -/
def commonSizes (signature : Option String) (deprecated synthetic : Bool) : List Nat :=
  (signature.toList.map fun _ => 2) ++ (if deprecated then [0] else [])
    ++ (if synthetic then [0] else [])

/-- The sizes of the bodies of the attributes of a field. -/
def Field.bodySizes (field : Field) : List Nat :=
  (field.value.toList.map fun _ => 2)
    ++ commonSizes field.signature field.deprecated field.synthetic
    ++ visibilitySizes Annotation.visible Annotation.writtenSize field.annotations.toList
    ++ visibilitySizes TypeAnnotation.visible TypeAnnotation.writtenSize
      field.typeAnnotations.toList

/-- The sizes of the bodies of the attributes of a method whose own body has the given style. -/
def Method.bodySizes (method : Method) (style : BodyStyle) : List Nat :=
  ((method.stubCode style).toList.map fun code => code.toBytes.length)
    ++ listSizes (fun _ => 2) method.exceptions
    ++ commonSizes method.signature method.deprecated method.synthetic
    ++ method.defaultValue.toList.map ElementValue.writtenSize
    ++ visibilitySizes Annotation.visible Annotation.writtenSize method.annotations.toList
    ++ method.visibleParameters.toList.map ParameterTable.writtenSize
    ++ method.invisibleParameters.toList.map ParameterTable.writtenSize
    ++ visibilitySizes TypeAnnotation.visible TypeAnnotation.writtenSize
      method.typeAnnotations.toList

end ClassStub
