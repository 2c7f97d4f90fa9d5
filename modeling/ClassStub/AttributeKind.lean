/-! # Attribute kinds

The attributes that the class file format defines and that matter for the surface of a class. An
attribute with any other name is left alone everywhere. -/

namespace ClassStub

/-- The attributes that are known by name. -/
inductive AttributeKind where
  | code
  | constantValue
  | exceptions
  | signature
  | innerClasses
  | enclosingMethod
  | deprecated
  | synthetic
  | annotationDefault
  | visibleAnnotations
  | invisibleAnnotations
  | visibleParameterAnnotations
  | invisibleParameterAnnotations
  | visibleTypeAnnotations
  | invisibleTypeAnnotations
  deriving DecidableEq, Repr

namespace AttributeKind

/-- The name of a kind of attribute. -/
def name : AttributeKind → String
  | code => "Code"
  | constantValue => "ConstantValue"
  | exceptions => "Exceptions"
  | signature => "Signature"
  | innerClasses => "InnerClasses"
  | enclosingMethod => "EnclosingMethod"
  | deprecated => "Deprecated"
  | synthetic => "Synthetic"
  | annotationDefault => "AnnotationDefault"
  | visibleAnnotations => "RuntimeVisibleAnnotations"
  | invisibleAnnotations => "RuntimeInvisibleAnnotations"
  | visibleParameterAnnotations => "RuntimeVisibleParameterAnnotations"
  | invisibleParameterAnnotations => "RuntimeInvisibleParameterAnnotations"
  | visibleTypeAnnotations => "RuntimeVisibleTypeAnnotations"
  | invisibleTypeAnnotations => "RuntimeInvisibleTypeAnnotations"

/-- The kind of attribute that has a name. -/
def ofName? : String → Option AttributeKind
  | "Code" => some code
  | "ConstantValue" => some constantValue
  | "Exceptions" => some exceptions
  | "Signature" => some signature
  | "InnerClasses" => some innerClasses
  | "EnclosingMethod" => some enclosingMethod
  | "Deprecated" => some deprecated
  | "Synthetic" => some synthetic
  | "AnnotationDefault" => some annotationDefault
  | "RuntimeVisibleAnnotations" => some visibleAnnotations
  | "RuntimeInvisibleAnnotations" => some invisibleAnnotations
  | "RuntimeVisibleParameterAnnotations" => some visibleParameterAnnotations
  | "RuntimeInvisibleParameterAnnotations" => some invisibleParameterAnnotations
  | "RuntimeVisibleTypeAnnotations" => some visibleTypeAnnotations
  | "RuntimeInvisibleTypeAnnotations" => some invisibleTypeAnnotations
  | _ => none

@[simp] theorem ofName?_name (kind : AttributeKind) : ofName? kind.name = some kind := by
  cases kind <;> rfl

/-- Annotations on a declaration, by visibility. -/
def annotations (visible : Bool) : AttributeKind :=
  if visible then visibleAnnotations else invisibleAnnotations

/-- Annotations on types, by visibility. -/
def typeAnnotations (visible : Bool) : AttributeKind :=
  if visible then visibleTypeAnnotations else invisibleTypeAnnotations

/-- Annotations on parameters, by visibility. -/
def parameterAnnotations (visible : Bool) : AttributeKind :=
  if visible then visibleParameterAnnotations else invisibleParameterAnnotations

end AttributeKind

end ClassStub
