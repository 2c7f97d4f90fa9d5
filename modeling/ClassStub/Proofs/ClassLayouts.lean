import ClassStub.Proofs.AnnotationWriting
import ClassStub.Proofs.Layouts

/-! # Layouts of the parts of a class

For each part of a class, the layout in which it is written. The layouts do not mention a pool, so
what is written for a part is determined by the part and by the pool alone; each encoder is shown to
be the writing of a layout. -/

namespace ClassStub

/-! ## Annotations -/

namespace ElementValue

mutual

/-- The layout of a value: its tag, and behind it an index, two of them, or further values. -/
def layout (value : ElementValue) : Layout :=
  .plain [value.tag] ++ match value with
    | byte value => .index (.value (.int value.toInt32))
    | char unit => .index (.value (.int unit.toUInt32.toInt32))
    | double bits => .index (.value (.double bits))
    | float bits => .index (.value (.float bits))
    | int value => .index (.value (.int value))
    | long value => .index (.value (.long value))
    | short value => .index (.value (.int value.toInt32))
    | boolean value => .index (.value (.int (intOfBool value)))
    | string text => .index (.text text)
    | enumConstant typeDescriptor constantName => .name typeDescriptor ++ .name constantName
    | classInfo descriptor => .name descriptor
    | nested descriptor elements => .name descriptor ++ .counted .u2 (pairLayouts elements)
    | array values => .counted .u2 (valueLayouts values)

/-- The layouts of named values. -/
def pairLayouts : List ElementPair → List Layout
  | [] => []
  | (name, value) :: rest => (.name name ++ value.layout) :: pairLayouts rest

/-- The layouts of values. -/
def valueLayouts : List ElementValue → List Layout
  | [] => []
  | value :: rest => value.layout :: valueLayouts rest

end

@[simp] theorem length_pairLayouts (elements : List ElementPair) :
    (pairLayouts elements).length = elements.length := by
  induction elements with
  | nil => simp [pairLayouts]
  | cons pair elements ih => simp [pairLayouts, ih]

@[simp] theorem length_valueLayouts (values : List ElementValue) :
    (valueLayouts values).length = values.length := by
  induction values with
  | nil => simp [valueLayouts]
  | cons value values ih => simp [valueLayouts, ih]

end ElementValue

theorem encodeList_eq_write {α : Type} {encode : α → PoolM Bytes} {items : List α}
    {layouts : List Layout} (hlength : layouts.length = items.length)
    (h : items.mapM encode = layouts.mapM Layout.write) :
    encodeList encode items = (Layout.counted .u2 layouts).write := by
  rw [Layout.write_counted, encodeList, h, hlength]
  rfl

namespace ElementValue

mutual

theorem encode_eq_write (value : ElementValue) : value.encode = value.layout.write := by
  match value with
  | nested descriptor elements =>
    have helements := encodeList_eq_write (length_pairLayouts elements)
      (mapM_encodePair_eq_write elements)
    rw [encode_nested, helements, layout, Layout.write_plain_append, Layout.write_append]
    rfl
  | array values =>
    have hvalues := encodeList_eq_write (length_valueLayouts values)
      (mapM_encode_eq_write values)
    rw [encode_array, hvalues, layout, Layout.write_plain_append]
    rfl
  | enumConstant typeDescriptor constantName =>
    rw [encode, layout, Layout.write_plain_append, Layout.write_append]
    rfl
  | byte _ | char _ | double _ | float _ | int _ | long _ | short _ | boolean _ | string _
  | classInfo _ =>
    rw [encode, layout, Layout.write_plain_append, Layout.write]
    rfl

theorem mapM_encodePair_eq_write (elements : List ElementPair) :
    elements.mapM encodePair = (pairLayouts elements).mapM Layout.write := by
  match elements with
  | [] => rw [pairLayouts, List.mapM_nil, List.mapM_nil]
  | (name, value) :: rest =>
    have hvalue := encode_eq_write value
    have hrest := mapM_encodePair_eq_write rest
    rw [pairLayouts, List.mapM_cons, List.mapM_cons, hrest, encodePair, hvalue,
      Layout.write_append]
    rfl

theorem mapM_encode_eq_write (values : List ElementValue) :
    values.mapM encode = (valueLayouts values).mapM Layout.write := by
  match values with
  | [] => rw [valueLayouts, List.mapM_nil, List.mapM_nil]
  | value :: rest =>
    rw [valueLayouts, List.mapM_cons, List.mapM_cons, encode_eq_write value,
      mapM_encode_eq_write rest]

end

end ElementValue

theorem encodeList_map_eq_write {α : Type} {encode : α → PoolM Bytes} {layout : α → Layout}
    (h : ∀ item, encode item = (layout item).write) (items : List α) :
    encodeList encode items = (Layout.counted .u2 (items.map layout)).write := by
  apply encodeList_eq_write (List.length_map layout)
  rw [List.mapM_map]
  exact congrArg (fun encode => items.mapM encode) (funext h)

/-- The layout of an annotation. -/
def Annotation.layout (item : Annotation) : Layout :=
  .name item.descriptor ++ .counted .u2 (ElementValue.pairLayouts item.elements)

theorem Annotation.encode_eq_write (item : Annotation) : item.encode = item.layout.write := by
  have helements := encodeList_eq_write (ElementValue.length_pairLayouts item.elements)
    (ElementValue.mapM_encodePair_eq_write item.elements)
  rw [layout, Layout.write_append, ← helements, Layout.write]
  exact bind_congr fun written => ElementValue.bind_encodePairs item.elements fun pairs =>
    pure (written ++ pairs)

/-- The layout of a path, whose steps are counted in one byte. -/
def TypePath.layout (path : TypePath) : Layout :=
  .counted .u1 (path.steps.map fun step => .plain [step.kind, step.argumentIndex])

theorem Layout.mapM_write_plain {α : Type} (bytes : α → Bytes) (items : List α) :
    (items.map fun item => Layout.plain (bytes item)).mapM Layout.write =
      pure (items.map bytes) := by
  induction items with
  | nil => rfl
  | cons item items ih =>
    rw [List.map_cons, List.mapM_cons, ih, write, pure_bind, pure_bind, List.map_cons]

theorem TypePath.write_layout (path : TypePath) : path.layout.write = pure path.toBytes := by
  rw [layout, Layout.write_counted, Layout.mapM_write_plain, pure_bind, List.length_map]
  rfl

/-- The layout of a type annotation: the place that is annotated, and the annotation. -/
def TypeAnnotation.layout (item : TypeAnnotation) : Layout :=
  .plain (item.targetType :: item.target.toBytes) ++ (item.path.layout ++ item.content.layout)

theorem TypeAnnotation.encode_eq_write (item : TypeAnnotation) :
    item.encode = item.layout.write := by
  rw [layout, Layout.write_plain_append, Layout.write_append, TypePath.write_layout, pure_bind,
    encode, Annotation.encode_eq_write]
  simp [siteBytes]

/-- The layout of a parameter table, whose parameters are counted in one byte. -/
def ParameterTable.layout (table : ParameterTable) : Layout :=
  .counted .u1 (table.parameters.map fun set => .counted .u2 (set.toList.map Annotation.layout))

theorem ParameterTable.encode_eq_write (table : ParameterTable) :
    table.encode = table.layout.write := by
  have hset : ∀ set : CanonicalSet Annotation, encodeList Annotation.encode set.toList =
      (Layout.counted .u2 (set.toList.map Annotation.layout)).write := by
    intro set
    exact encodeList_map_eq_write Annotation.encode_eq_write set.toList
  rw [layout, Layout.write_counted, List.mapM_map, List.length_map, encode]
  simp only [hset]
  rfl

/-! ## Links and bodies -/

/-- The layout of a nested link. -/
def NestedLink.layout (link : NestedLink) : Layout :=
  .index (.classRef link.name) ++ (.optional (link.outerName.map .classRef)
    ++ (.optional (link.simpleName.map .name) ++ .plain (Bytes.ofUInt16 link.access.bits)))

theorem Layout.write_optional (symbol : Option Symbol) :
    (optional symbol).write = ElementValue.indexBytes (symbol.elim (pure 0) Symbol.add) := by
  cases symbol with
  | none =>
    rw [optional, write]
    rfl
  | some symbol =>
    rw [optional, write]
    rfl

theorem NestedLink.encode_eq_write (link : NestedLink) : link.encode = link.layout.write := by
  obtain ⟨name, outer, simple, access⟩ := link
  simp only [layout, encode, Layout.write_append, Layout.write_optional, Layout.write, bind_assoc,
    pure_bind]
  cases outer <;> cases simple <;> rfl

/-- The method of an enclosing link, if both its name and its descriptor are given. -/
def EnclosingLink.method (link : EnclosingLink) : Option Symbol :=
  match link.methodName, link.methodDescriptor with
  | some name, some descriptor => some (.nameAndType name descriptor)
  | _, _ => none

/-- The layout of an enclosing link. -/
def EnclosingLink.layout (link : EnclosingLink) : Layout :=
  .index (.classRef link.owner) ++ .optional link.method

/-- The layout of a method body, which has no exception handlers and no attributes. -/
def Code.layout (code : Code) : Layout :=
  .plain (Bytes.ofUInt16 code.maxStack ++ Bytes.ofUInt16 code.maxLocals)
    ++ (.measured .u4 (.plain code.instructions) ++ (.counted .u2 [] ++ .counted .u2 []))

theorem Code.write_layout (code : Code) : code.layout.write = pure code.toBytes := by
  simp [layout, toBytes, Layout.write_append, Layout.write, Layout.writeAll]
  rfl

/-! ## Attributes -/

/-- The layout of an attribute of a known kind. -/
structure AttributeLayout where
  kind : AttributeKind
  body : Layout

/-- Write the body of an attribute, and then add its name. -/
def AttributeLayout.write (layout : AttributeLayout) : PoolM Attribute :=
  Attribute.ofEncoded layout.kind layout.body.write

namespace Attribute

/-- Write attributes one after the other. -/
abbrev writeAll (layouts : List AttributeLayout) : PoolM (List Attribute) :=
  layouts.mapM AttributeLayout.write

variable {α : Type}

theorem optional_eq_writeAll {make : α → PoolM Attribute} {layout : α → AttributeLayout}
    (h : ∀ item, make item = (layout item).write) (value : Option α) :
    optional value make = writeAll (value.toList.map layout) := by
  cases value with
  | none => rfl
  | some value =>
    rw [optional, h, Option.toList_some, List.map_singleton, writeAll, List.mapM_cons,
      List.mapM_nil]
    simp

/-- The layout for items, if there are any. -/
def layoutUnlessEmpty (items : List α) (layout : List α → AttributeLayout) :
    List AttributeLayout :=
  if items.isEmpty then [] else [layout items]

theorem unlessEmpty_eq_writeAll {make : List α → PoolM Attribute}
    {layout : List α → AttributeLayout} (h : ∀ items, make items = (layout items).write)
    (items : List α) : unlessEmpty items make = writeAll (layoutUnlessEmpty items layout) := by
  unfold unlessEmpty layoutUnlessEmpty
  by_cases hempty : items.isEmpty
  · rw [if_pos hempty, if_pos hempty]
    rfl
  · rw [if_neg hempty, if_neg hempty, h, writeAll, List.mapM_cons, List.mapM_nil]
    simp

/-- The layout of a marker, if it is wanted. -/
def layoutIf (wanted : Bool) (kind : AttributeKind) : List AttributeLayout :=
  if wanted then [⟨kind, .plain []⟩] else []

theorem markerIf_eq_writeAll (wanted : Bool) (kind : AttributeKind) :
    markerIf wanted kind = writeAll (layoutIf wanted kind) := by
  cases wanted with
  | false => rfl
  | true =>
    simp [markerIf, layoutIf, writeAll, marker, AttributeLayout.write, ofEncoded, Layout.write]

theorem writeAll_append (first second : List AttributeLayout) :
    writeAll (first ++ second) = do return (← writeAll first) ++ (← writeAll second) := by
  simp [writeAll, List.mapM_append]

/-- The layouts of signature and markers. -/
def commonLayouts (signature : Option String) (deprecated synthetic : Bool) :
    List AttributeLayout :=
  signature.toList.map (fun text => ⟨.signature, .name text⟩)
    ++ layoutIf deprecated .deprecated ++ layoutIf synthetic .synthetic

theorem common_eq_writeAll (signature : Option String) (deprecated synthetic : Bool) :
    common signature deprecated synthetic =
      writeAll (commonLayouts signature deprecated synthetic) := by
  have hsignature : ∀ text, (do ofIndex .signature (← Pool.addName text)) =
      AttributeLayout.write ⟨.signature, .name text⟩ := by
    intro text
    simp [AttributeLayout.write, ofEncoded, Layout.write, ElementValue.indexBytes, ofIndex,
      Symbol.add, Pool.addName]
  simp only [common, commonLayouts, optional_eq_writeAll hsignature, markerIf_eq_writeAll,
    writeAll_append, bind_assoc, pure_bind]

/-- The layouts for items of both visibilities, the visible ones first. -/
def visibilityLayouts (visible : α → Bool) (layout : Bool → List α → AttributeLayout)
    (items : List α) : List AttributeLayout :=
  layoutUnlessEmpty (items.filter (visible · == true)) (layout true)
    ++ layoutUnlessEmpty (items.filter (visible · == false)) (layout false)

/-- The layouts of annotations. -/
def annotationLayouts (items : List Annotation) : List AttributeLayout :=
  visibilityLayouts Annotation.visible
    (fun visible items => ⟨.annotations visible, .counted .u2 (items.map Annotation.layout)⟩) items

/-- The layouts of type annotations. -/
def typeAnnotationLayouts (items : List TypeAnnotation) : List AttributeLayout :=
  visibilityLayouts TypeAnnotation.visible
    (fun visible items =>
      ⟨.typeAnnotations visible, .counted .u2 (items.map TypeAnnotation.layout)⟩) items

/-- A list that is written item by item is the attribute for its layout. -/
theorem ofEncoded_encodeList_eq_write {encode : α → PoolM Bytes} {layout : α → Layout}
    (h : ∀ item, encode item = (layout item).write) (kind : AttributeKind) (items : List α) :
    ofEncoded kind (encodeList encode items) =
      AttributeLayout.write ⟨kind, .counted .u2 (items.map layout)⟩ := by
  rw [encodeList_map_eq_write h, AttributeLayout.write]

theorem annotations_eq_writeAll (items : List Annotation) :
    annotations items = writeAll (annotationLayouts items) := by
  simp only [annotations, annotationsOf, annotationLayouts, visibilityLayouts, writeAll_append]
  rw [unlessEmpty_eq_writeAll (ofEncoded_encodeList_eq_write Annotation.encode_eq_write _),
    unlessEmpty_eq_writeAll (ofEncoded_encodeList_eq_write Annotation.encode_eq_write _)]

theorem typeAnnotations_eq_writeAll (items : List TypeAnnotation) :
    typeAnnotations items = writeAll (typeAnnotationLayouts items) := by
  simp only [typeAnnotations, typeAnnotationsOf, typeAnnotationLayouts, visibilityLayouts,
    writeAll_append]
  rw [unlessEmpty_eq_writeAll (ofEncoded_encodeList_eq_write TypeAnnotation.encode_eq_write _),
    unlessEmpty_eq_writeAll (ofEncoded_encodeList_eq_write TypeAnnotation.encode_eq_write _)]

/-- The layouts of a parameter table, if there is one. -/
def tableLayouts (visible : Bool) (table : Option ParameterTable) : List AttributeLayout :=
  table.toList.map fun table => ⟨.parameterAnnotations visible, table.layout⟩

theorem parameterTable_eq_writeAll (visible : Bool) (table : Option ParameterTable) :
    parameterTable visible table = writeAll (tableLayouts visible table) := by
  apply optional_eq_writeAll
  intro table
  rw [ParameterTable.encode_eq_write, AttributeLayout.write]

/-- The layouts of declared exceptions. -/
def exceptionLayouts (names : List String) : List AttributeLayout :=
  layoutUnlessEmpty names fun names =>
    ⟨.exceptions, .counted .u2 (names.map fun name => .index (.classRef name))⟩

theorem exceptions_eq_writeAll (names : List String) :
    unlessEmpty names ofExceptions = writeAll (exceptionLayouts names) := by
  apply unlessEmpty_eq_writeAll
  intro names
  apply ofEncoded_encodeList_eq_write
  intro name
  rw [Layout.write]
  rfl

/-- The layouts of an enclosing link, if there is one. -/
def enclosingLayouts (link : Option EnclosingLink) : List AttributeLayout :=
  link.toList.map fun link => ⟨.enclosingMethod, link.layout⟩

theorem enclosing_eq_writeAll (link : Option EnclosingLink) :
    optional link enclosing = writeAll (enclosingLayouts link) := by
  apply optional_eq_writeAll
  intro link
  obtain ⟨owner, name, descriptor⟩ := link
  cases name <;> cases descriptor <;>
    simp [enclosing, AttributeLayout.write, EnclosingLink.layout, EnclosingLink.method,
      Layout.write_append, Layout.write_optional, Layout.write, Symbol.add]

/-- The layouts of nested links. -/
def nestedLayouts (links : List NestedLink) : List AttributeLayout :=
  layoutUnlessEmpty links fun links =>
    ⟨.innerClasses, .counted .u2 (links.map NestedLink.layout)⟩

theorem nested_eq_writeAll (links : List NestedLink) :
    unlessEmpty links nested = writeAll (nestedLayouts links) := by
  apply unlessEmpty_eq_writeAll
  intro links
  exact ofEncoded_encodeList_eq_write NestedLink.encode_eq_write _ links

end Attribute

/-! ## Members -/

/-- The layout of a field or a method. -/
structure MemberLayout where
  access : AccessFlags
  name : String
  descriptor : String
  attributes : List AttributeLayout

/-- Write a member: its name, its descriptor, and then its attributes. -/
def MemberLayout.write (layout : MemberLayout) : PoolM Member := do
  let name ← Pool.addName layout.name
  let descriptor ← Pool.addName layout.descriptor
  let attributes ← Attribute.writeAll layout.attributes
  return { access := layout.access, name, descriptor, attributes }

/-- The layout of a field. -/
def Field.layout (field : Field) : MemberLayout where
  access := field.access
  name := field.name
  descriptor := field.descriptor
  attributes :=
    field.value.toList.map (fun value => ⟨.constantValue, .index (.value value)⟩)
      ++ Attribute.commonLayouts field.signature field.deprecated field.synthetic
      ++ Attribute.annotationLayouts field.annotations.toList
      ++ Attribute.typeAnnotationLayouts field.typeAnnotations.toList

theorem Field.encode_eq_write (field : Field) : field.encode = field.layout.write := by
  have hvalue : ∀ value : ConstantValue, (do Attribute.ofIndex .constantValue (← value.add)) =
      AttributeLayout.write ⟨.constantValue, .index (.value value)⟩ := by
    intro value
    simp [AttributeLayout.write, Attribute.ofEncoded, Layout.write, ElementValue.indexBytes,
      Attribute.ofIndex, Symbol.add]
  simp only [encode, layout, MemberLayout.write, Attribute.optional_eq_writeAll hvalue,
    Attribute.common_eq_writeAll, Attribute.annotations_eq_writeAll,
    Attribute.typeAnnotations_eq_writeAll, Attribute.writeAll_append, bind_assoc, pure_bind]

/-- The layout of a method whose body has the given style. -/
def Method.layout (method : Method) (style : BodyStyle) : MemberLayout where
  access := method.access
  name := method.name
  descriptor := method.descriptor
  attributes :=
    (method.stubCode style).toList.map (fun code => ⟨.code, code.layout⟩)
      ++ Attribute.exceptionLayouts method.exceptions
      ++ Attribute.commonLayouts method.signature method.deprecated method.synthetic
      ++ method.defaultValue.toList.map (fun value => ⟨.annotationDefault, value.layout⟩)
      ++ Attribute.annotationLayouts method.annotations.toList
      ++ Attribute.tableLayouts true method.visibleParameters
      ++ Attribute.tableLayouts false method.invisibleParameters
      ++ Attribute.typeAnnotationLayouts method.typeAnnotations.toList

theorem Method.encode_eq_write (method : Method) (style : BodyStyle) :
    method.encode style = (method.layout style).write := by
  have hcode : ∀ code : Code, Attribute.named .code code.toBytes =
      AttributeLayout.write ⟨.code, code.layout⟩ := by
    intro code
    rw [AttributeLayout.write, Code.write_layout, Attribute.ofEncoded, pure_bind]
  have hdefault : ∀ value : ElementValue, Attribute.ofEncoded .annotationDefault value.encode =
      AttributeLayout.write ⟨.annotationDefault, value.layout⟩ := by
    intro value
    rw [AttributeLayout.write, ElementValue.encode_eq_write]
  simp only [encode, layout, MemberLayout.write, Attribute.optional_eq_writeAll hcode,
    Attribute.exceptions_eq_writeAll, Attribute.common_eq_writeAll,
    Attribute.optional_eq_writeAll hdefault, Attribute.annotations_eq_writeAll,
    Attribute.parameterTable_eq_writeAll, Attribute.typeAnnotations_eq_writeAll,
    Attribute.writeAll_append, bind_assoc, pure_bind]

end ClassStub
