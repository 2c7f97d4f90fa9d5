import ClassStub.Proofs.RefusedEvents

/-! # Counts and lengths that are exact

A class file as a whole has a layout, in which all its counts and lengths are fields. They hold what
follows them exactly if every list and every text of the class can be counted in its field; the
assembly itself sees to this for interfaces, members and nested links only. -/

namespace ClassStub

/-! ## What can be counted -/

/-- The lists in an annotation, at every depth, can be counted in 16 bits. -/
abbrev Annotation.Countable (item : Annotation) : Prop :=
  item.Within (.counted anyText)

/-- The path of a type annotation can be counted in 8 bits. -/
structure TypeAnnotation.Countable (item : TypeAnnotation) : Prop where
  path : item.path.steps.length ≤ 255
  content : item.content.Countable

/-- The parameters of a table can be counted in 8 bits, and the annotations of each in 16. -/
structure ParameterTable.Countable (table : ParameterTable) : Prop where
  parameters : table.parameters.length ≤ 255
  sets : ∀ set ∈ table.parameters, set.toList.length ≤ 65535
  items : ∀ set ∈ table.parameters, ∀ item ∈ set.toList, item.Countable

/-- The lists in a field can be counted. -/
structure Field.Countable (field : Field) : Prop where
  annotations :
    VisibilitiesWithin Annotation.visible Annotation.Countable field.annotations.toList
  typeAnnotations :
    VisibilitiesWithin TypeAnnotation.visible TypeAnnotation.Countable field.typeAnnotations.toList

/-- The lists in a method can be counted. -/
structure Method.Countable (method : Method) : Prop where
  exceptions : method.exceptions.length ≤ 65535
  defaultValue : ∀ value ∈ method.defaultValue, value.Within (.counted anyText)
  annotations :
    VisibilitiesWithin Annotation.visible Annotation.Countable method.annotations.toList
  visibleParameters : ∀ table ∈ method.visibleParameters, table.Countable
  invisibleParameters : ∀ table ∈ method.invisibleParameters, table.Countable
  typeAnnotations :
    VisibilitiesWithin TypeAnnotation.visible TypeAnnotation.Countable method.typeAnnotations.toList

/-- The lists in a class that an assembly does not count itself can be counted. -/
structure ClassDescription.PartsCountable (description : ClassDescription) : Prop where
  annotations : VisibilitiesWithin Annotation.visible Annotation.Countable description.annotations
  typeAnnotations :
    VisibilitiesWithin TypeAnnotation.visible TypeAnnotation.Countable description.typeAnnotations
  fields : ∀ field ∈ description.fields, field.Countable
  methods : ∀ method ∈ description.methods, method.Countable

/-! ## Exact annotations -/

theorem LengthField.u2_lt_iff {count : Nat} : count < LengthField.u2.capacity ↔ count ≤ 65535 :=
  Nat.lt_succ_iff

theorem LengthField.u1_lt_iff {count : Nat} : count < LengthField.u1.capacity ↔ count ≤ 255 :=
  Nat.lt_succ_iff

namespace ElementValue

theorem countable_nested_iff {descriptor : String} {elements : List ElementPair} :
    (nested descriptor elements).Within (.counted anyText) ↔
      elements.length ≤ 65535 ∧ ∀ pair ∈ elements, pair.2.Within (.counted anyText) := by
  constructor
  · intro h
    cases h with
    | nested _ hcount _ hvalues => exact ⟨hcount, hvalues⟩
  · intro h
    exact .nested trivial h.1 (fun _ _ => trivial) h.2

theorem countable_array_iff {values : List ElementValue} :
    (array values).Within (.counted anyText) ↔
      values.length ≤ 65535 ∧ ∀ value ∈ values, value.Within (.counted anyText) := by
  constructor
  · intro h
    cases h with
    | array hcount hvalues => exact ⟨hcount, hvalues⟩
  · intro h
    exact .array h.1 h.2

mutual

theorem isExact_layout (value : ElementValue) :
    value.layout.IsExact ↔ value.Within (.counted anyText) := by
  match value with
  | nested descriptor elements =>
    have helements := forall_pairLayouts_isExact elements
    simp [layout, countable_nested_iff, helements, LengthField.u2_lt_iff]
  | array values =>
    have hvalues := forall_valueLayouts_isExact values
    simp [layout, countable_array_iff, hvalues, LengthField.u2_lt_iff]
  | byte value => exact iff_of_true (by simp [layout]) (.byte value)
  | char unit => exact iff_of_true (by simp [layout]) (.char unit)
  | double bits => exact iff_of_true (by simp [layout]) (.double bits)
  | float bits => exact iff_of_true (by simp [layout]) (.float bits)
  | int value => exact iff_of_true (by simp [layout]) (.int value)
  | long value => exact iff_of_true (by simp [layout]) (.long value)
  | short value => exact iff_of_true (by simp [layout]) (.short value)
  | boolean value => exact iff_of_true (by simp [layout]) (.boolean value)
  | string text => exact iff_of_true (by simp [layout]) (.string trivial)
  | classInfo descriptor => exact iff_of_true (by simp [layout]) (.classInfo trivial)
  | enumConstant typeDescriptor constantName =>
    exact iff_of_true (by simp [layout]) (.enumConstant trivial trivial)

theorem forall_pairLayouts_isExact (elements : List ElementPair) :
    (∀ item ∈ pairLayouts elements, item.IsExact) ↔
      ∀ pair ∈ elements, pair.2.Within (.counted anyText) := by
  match elements with
  | [] => simp [pairLayouts]
  | (name, value) :: rest =>
    rw [pairLayouts, List.forall_mem_cons, List.forall_mem_cons, forall_pairLayouts_isExact rest,
      Layout.isExact_append, isExact_layout value]
    simp

theorem forall_valueLayouts_isExact (values : List ElementValue) :
    (∀ item ∈ valueLayouts values, item.IsExact) ↔
      ∀ value ∈ values, value.Within (.counted anyText) := by
  match values with
  | [] => simp [valueLayouts]
  | value :: rest =>
    rw [valueLayouts, List.forall_mem_cons, List.forall_mem_cons, forall_valueLayouts_isExact rest,
      isExact_layout value]

end

end ElementValue

theorem Annotation.isExact_layout (item : Annotation) :
    item.layout.IsExact ↔ item.Countable := by
  have helements := ElementValue.forall_pairLayouts_isExact item.elements
  simp only [layout, Layout.isExact_append, Layout.isExact_counted, helements,
    Layout.isExact_index, ElementValue.length_pairLayouts, LengthField.u2_lt_iff, true_and]
  constructor
  · intro h
    exact ⟨trivial, h.1, fun _ _ => trivial, h.2⟩
  · intro h
    exact ⟨h.count, h.values⟩

/-- A counted list is exact if its items are, and if there are not too many of them. -/
theorem isExact_counted_map {α : Type} {layout : α → Layout} {countable : α → Prop}
    (h : ∀ item, (layout item).IsExact ↔ countable item) (items : List α) :
    (Layout.counted .u2 (items.map layout)).IsExact ↔
      items.length ≤ 65535 ∧ ∀ item ∈ items, countable item := by
  simp [LengthField.u2_lt_iff, h]

theorem TypeAnnotation.isExact_layout (item : TypeAnnotation) :
    item.layout.IsExact ↔ item.Countable := by
  have hcontent := item.content.isExact_layout
  have hpath : item.path.layout.IsExact ↔ item.path.steps.length ≤ 255 := by
    simp [TypePath.layout, LengthField.u1_lt_iff]
  rw [layout, Layout.isExact_append, Layout.isExact_append, hpath, hcontent]
  constructor
  · intro h
    exact ⟨h.2.1, h.2.2⟩
  · intro h
    exact ⟨Layout.isExact_plain _, h.path, h.content⟩

theorem ParameterTable.isExact_layout (table : ParameterTable) :
    table.layout.IsExact ↔ table.Countable := by
  have hsets := isExact_counted_map Annotation.isExact_layout
  simp only [layout, Layout.isExact_counted, List.forall_mem_map, List.length_map] at hsets ⊢
  rw [LengthField.u1_lt_iff]
  constructor
  · intro h
    obtain ⟨hcount, hitems⟩ := h
    exact ⟨hcount, fun set hset => ((hsets _).1 (hitems set hset)).1,
      fun set hset => ((hsets _).1 (hitems set hset)).2⟩
  · intro h
    exact ⟨h.parameters, fun set hset => (hsets _).2 ⟨h.sets set hset, h.items set hset⟩⟩

/-! ## Exact attributes -/

/-- The bodies of attributes are exact. -/
def Attribute.AreExact (layouts : List AttributeLayout) : Prop :=
  ∀ layout ∈ layouts, layout.body.IsExact

namespace Attribute

variable {α : Type}

@[simp] theorem areExact_append {first second : List AttributeLayout} :
    AreExact (first ++ second) ↔ AreExact first ∧ AreExact second :=
  List.forall_mem_append

theorem areExact_optional {layout : α → AttributeLayout} {value : Option α} :
    AreExact (value.toList.map layout) ↔ ∀ item ∈ value, (layout item).body.IsExact := by
  cases value <;> simp [AreExact]

@[simp] theorem areExact_common (signature : Option String) (deprecated synthetic : Bool) :
    AreExact (commonLayouts signature deprecated synthetic) := by
  have hmarker : ∀ (wanted : Bool) (kind : AttributeKind), AreExact (layoutIf wanted kind) := by
    intro wanted kind
    cases wanted <;> simp [layoutIf, AreExact]
  simp [commonLayouts, areExact_optional, hmarker]

variable {layout : α → Layout} {countable : α → Prop}

theorem areExact_unlessEmpty (h : ∀ item, (layout item).IsExact ↔ countable item)
    (kind : AttributeKind) (items : List α) :
    AreExact (layoutUnlessEmpty items fun items => ⟨kind, .counted .u2 (items.map layout)⟩) ↔
      items.length ≤ 65535 ∧ ∀ item ∈ items, countable item := by
  rw [← isExact_counted_map h]
  cases items with
  | nil => simp [layoutUnlessEmpty, AreExact, LengthField.u2_lt_iff]
  | cons item items => simp [layoutUnlessEmpty, AreExact]

theorem areExact_visibilities (h : ∀ item, (layout item).IsExact ↔ countable item)
    (kind : Bool → AttributeKind) (visible : α → Bool) (items : List α) :
    AreExact (visibilityLayouts visible
        (fun visibility items => ⟨kind visibility, .counted .u2 (items.map layout)⟩) items) ↔
      VisibilitiesWithin visible countable items := by
  rw [visibilityLayouts, areExact_append, areExact_unlessEmpty h, areExact_unlessEmpty h]
  constructor
  · intro hexact
    obtain ⟨⟨hvisible, hitems⟩, hinvisible, hothers⟩ := hexact
    refine ⟨Bool.forall_bool.2 ⟨hinvisible, hvisible⟩, fun item hitem => ?_⟩
    cases hvisibility : visible item with
    | true => exact hitems item (List.mem_filter.2 ⟨hitem, by simp [hvisibility]⟩)
    | false => exact hothers item (List.mem_filter.2 ⟨hitem, by simp [hvisibility]⟩)
  · intro hwithin
    exact ⟨⟨hwithin.count true, fun item hitem => hwithin.items item (List.mem_filter.1 hitem).1⟩,
      hwithin.count false, fun item hitem => hwithin.items item (List.mem_filter.1 hitem).1⟩

end Attribute

theorem Field.areExact_iff (field : Field) :
    Attribute.AreExact field.layout.attributes ↔ field.Countable := by
  have hannotations := Attribute.areExact_visibilities Annotation.isExact_layout
    AttributeKind.annotations Annotation.visible field.annotations.toList
  have htypes := Attribute.areExact_visibilities TypeAnnotation.isExact_layout
    AttributeKind.typeAnnotations TypeAnnotation.visible field.typeAnnotations.toList
  simp only [layout, Attribute.areExact_append, Attribute.areExact_optional,
    Attribute.areExact_common, Attribute.annotationLayouts, Attribute.typeAnnotationLayouts,
    hannotations, htypes, Layout.isExact_index]
  constructor
  · intro h
    exact ⟨h.1.2, h.2⟩
  · intro h
    exact ⟨⟨⟨fun _ _ => trivial, trivial⟩, h.annotations⟩, h.typeAnnotations⟩

/-- The body of a stub is too short for its length to be cut. -/
theorem Method.isExact_stubCode {method : Method} {style : BodyStyle} {code : Code}
    (h : method.stubCode style = some code) : code.layout.IsExact := by
  have hlength : code.instructions.length ≤ 2 := by
    unfold stubCode at h
    split at h
    · cases h
    · split at h
      · cases h
      · cases h
        exact Nat.le_refl 2
  have hcapacity : code.instructions.length < LengthField.u4.capacity :=
    Nat.lt_of_le_of_lt hlength (by decide)
  simp [Code.layout, Layout.size, hcapacity, LengthField.u2_lt_iff]

theorem Method.areExact_iff (method : Method) (style : BodyStyle) :
    Attribute.AreExact (method.layout style).attributes ↔ method.Countable := by
  have hannotations := Attribute.areExact_visibilities Annotation.isExact_layout
    AttributeKind.annotations Annotation.visible method.annotations.toList
  have htypes := Attribute.areExact_visibilities TypeAnnotation.isExact_layout
    AttributeKind.typeAnnotations TypeAnnotation.visible method.typeAnnotations.toList
  have hexceptions := Attribute.areExact_unlessEmpty
    (fun name => iff_of_true (Layout.isExact_index (.classRef name)) trivial) .exceptions
    method.exceptions
  simp only [layout, Attribute.areExact_append, Attribute.areExact_optional,
    Attribute.areExact_common, Attribute.annotationLayouts, Attribute.typeAnnotationLayouts,
    Attribute.exceptionLayouts, Attribute.tableLayouts, hannotations, htypes, hexceptions,
    ElementValue.isExact_layout, ParameterTable.isExact_layout]
  constructor
  · intro h
    obtain ⟨⟨⟨⟨⟨⟨⟨-, hexceptions, -⟩, -⟩, hdefault⟩, hannotations⟩, hvisible⟩, hinvisible⟩,
      htypes⟩ := h
    exact ⟨hexceptions, hdefault, hannotations, hvisible, hinvisible, htypes⟩
  · intro h
    exact ⟨⟨⟨⟨⟨⟨⟨fun _ hcode => Method.isExact_stubCode hcode, h.exceptions, fun _ _ => trivial⟩,
      trivial⟩, h.defaultValue⟩, h.annotations⟩, h.visibleParameters⟩, h.invisibleParameters⟩,
      h.typeAnnotations⟩

theorem ClassDescription.areExact_iff (description : ClassDescription) :
    Attribute.AreExact description.attributeLayouts ↔
      description.nested.length ≤ 65535
        ∧ VisibilitiesWithin Annotation.visible Annotation.Countable description.annotations
        ∧ VisibilitiesWithin TypeAnnotation.visible TypeAnnotation.Countable
          description.typeAnnotations := by
  have hannotations := Attribute.areExact_visibilities Annotation.isExact_layout
    AttributeKind.annotations Annotation.visible description.annotations
  have htypes := Attribute.areExact_visibilities TypeAnnotation.isExact_layout
    AttributeKind.typeAnnotations TypeAnnotation.visible description.typeAnnotations
  have hlink : ∀ link : NestedLink, link.layout.IsExact ↔ True := by
    intro link
    simp [NestedLink.layout]
  have hnested := Attribute.areExact_unlessEmpty hlink .innerClasses description.nested
  have henclosing : ∀ link : EnclosingLink, link.layout.IsExact := by
    intro link
    simp [EnclosingLink.layout]
  simp only [attributeLayouts, Attribute.areExact_append, Attribute.areExact_optional,
    Attribute.areExact_common, Attribute.annotationLayouts, Attribute.typeAnnotationLayouts,
    Attribute.nestedLayouts, Attribute.enclosingLayouts, hannotations, htypes, hnested, henclosing]
  simp [and_assoc]

/-! ## How many attributes there are -/

section Lengths

variable {α : Type}

theorem length_layoutUnlessEmpty_le (items : List α) (layout : List α → AttributeLayout) :
    (Attribute.layoutUnlessEmpty items layout).length ≤ 1 := by
  unfold Attribute.layoutUnlessEmpty
  split <;> simp

theorem length_visibilityLayouts_le (visible : α → Bool)
    (layout : Bool → List α → AttributeLayout) (items : List α) :
    (Attribute.visibilityLayouts visible layout items).length ≤ 2 := by
  rw [Attribute.visibilityLayouts, List.length_append]
  exact Nat.add_le_add (length_layoutUnlessEmpty_le ..) (length_layoutUnlessEmpty_le ..)

theorem length_commonLayouts_le (signature : Option String) (deprecated synthetic : Bool) :
    (Attribute.commonLayouts signature deprecated synthetic).length ≤ 3 := by
  cases signature <;> cases deprecated <;> cases synthetic <;>
    simp [Attribute.commonLayouts, Attribute.layoutIf]

end Lengths

theorem Field.length_attributes_le (field : Field) : field.layout.attributes.length ≤ 8 := by
  have hvalue := length_map_toList_le field.value fun value =>
    AttributeLayout.mk .constantValue (.index (.value value))
  have hcommon := length_commonLayouts_le field.signature field.deprecated field.synthetic
  have hannotations : (Attribute.annotationLayouts field.annotations.toList).length ≤ 2 :=
    length_visibilityLayouts_le ..
  have htypes : (Attribute.typeAnnotationLayouts field.typeAnnotations.toList).length ≤ 2 :=
    length_visibilityLayouts_le ..
  simp only [layout, List.length_append]
  omega

theorem Method.length_attributes_le (method : Method) (style : BodyStyle) :
    (method.layout style).attributes.length ≤ 12 := by
  have hcode := length_map_toList_le (method.stubCode style) fun code =>
    AttributeLayout.mk .code code.layout
  have hexceptions : (Attribute.exceptionLayouts method.exceptions).length ≤ 1 :=
    length_layoutUnlessEmpty_le ..
  have hcommon := length_commonLayouts_le method.signature method.deprecated method.synthetic
  have hdefault := length_map_toList_le method.defaultValue fun value =>
    AttributeLayout.mk .annotationDefault value.layout
  have hannotations : (Attribute.annotationLayouts method.annotations.toList).length ≤ 2 :=
    length_visibilityLayouts_le ..
  have hvisible : (Attribute.tableLayouts true method.visibleParameters).length ≤ 1 :=
    length_map_toList_le ..
  have hinvisible : (Attribute.tableLayouts false method.invisibleParameters).length ≤ 1 :=
    length_map_toList_le ..
  have htypes : (Attribute.typeAnnotationLayouts method.typeAnnotations.toList).length ≤ 2 :=
    length_visibilityLayouts_le ..
  simp only [layout, List.length_append]
  omega

theorem ClassDescription.length_attributeLayouts_le (description : ClassDescription) :
    description.attributeLayouts.length ≤ 9 := by
  have hcommon := length_commonLayouts_le description.header.signature
    description.header.deprecated description.header.synthetic
  have henclosing : (Attribute.enclosingLayouts description.enclosing).length ≤ 1 :=
    length_map_toList_le ..
  have hnested : (Attribute.nestedLayouts description.nested).length ≤ 1 :=
    length_layoutUnlessEmpty_le ..
  have hannotations : (Attribute.annotationLayouts description.annotations).length ≤ 2 :=
    length_visibilityLayouts_le ..
  have htypes : (Attribute.typeAnnotationLayouts description.typeAnnotations).length ≤ 2 :=
    length_visibilityLayouts_le ..
  simp only [attributeLayouts, List.length_append]
  omega

/-! ## The layout of a class file -/

/-- The layout of an attribute, with the length of its body. -/
def AttributeLayout.layout (layout : AttributeLayout) : Layout :=
  .name layout.kind.name ++ .measured .u4 layout.body

/-- The layout of a member. -/
def MemberLayout.layout (layout : MemberLayout) : Layout :=
  .plain (Bytes.ofUInt16 layout.access.bits) ++ (.name layout.name ++ (.name layout.descriptor
    ++ .counted .u2 (layout.attributes.map AttributeLayout.layout)))

/-- The layout of a constant. -/
def Constant.layout : Constant → Layout
  | utf8 text => .plain [tag (utf8 text)] ++ .measured .u2 (.plain text.encode)
  | constant => .plain constant.toBytes

/-- The layout of a slot. -/
def Slot.layout : Slot → Layout
  | entry constant => constant.layout
  | upperHalf => .plain []

/-- The layout of a pool. The unused index 0 is counted too. -/
def Pool.layout (pool : Pool) : Layout :=
  .counted .u2 (.plain [] :: pool.slots.toList.map Slot.layout)

/-- The layout of a class file with a given pool. -/
def ClassLayout.layout (layout : ClassLayout) (pool : Pool) : Layout :=
  .plain (Bytes.ofUInt32 ClassFile.standardMagic)
    ++ (.plain (Bytes.ofUInt16 layout.version.minor)
    ++ (.plain (Bytes.ofUInt16 layout.version.major)
    ++ (pool.layout
    ++ (.plain (Bytes.ofUInt16 layout.access.bits)
    ++ (.index (.classRef layout.name)
    ++ (.optional (layout.superName.map .classRef)
    ++ (.counted .u2 (layout.interfaces.map fun name => .index (.classRef name))
    ++ (.counted .u2 (layout.fields.map MemberLayout.layout)
    ++ (.counted .u2 (layout.methods.map MemberLayout.layout)
    ++ .counted .u2 (layout.attributes.map AttributeLayout.layout))))))))))

/-- A list is written behind its number if each item is written. -/
theorem isWrittenAs_ofList {α : Type} {pool : Pool} {write : α → Bytes} {layouts : List Layout}
    {items : List α}
    (h : List.Forall₂ (fun layout item => layout.IsWrittenAs pool (write item)) layouts items) :
    (Layout.counted .u2 layouts).IsWrittenAs pool (Bytes.ofList write items) := by
  have hparts : (Layout.counted .u2 layouts).IsWrittenAs pool _ :=
    .counted (List.forall₂_map_right_iff.2 h)
  rw [h.length_eq] at hparts
  exact hparts

theorem isWrittenAs_name {pool : Pool} {index : UInt16} {name : String}
    (h : pool.getName index = .ok name) :
    (Layout.name name).IsWrittenAs pool (Bytes.ofUInt16 index) :=
  .index (Pool.getText_ok.2 (Pool.getName_ok.1 h))

theorem AttributeLayout.IsWrittenAs.toBytes {pool : Pool} {layout : AttributeLayout}
    {item : Attribute} (h : layout.IsWrittenAs pool item) :
    layout.layout.IsWrittenAs pool item.toBytes :=
  (isWrittenAs_name h.name).append (.measured h.body)

theorem MemberLayout.IsWrittenAs.toBytes {pool : Pool} {layout : MemberLayout} {member : Member}
    (h : layout.IsWrittenAs pool member) : layout.layout.IsWrittenAs pool member.toBytes := by
  have hattributes := h.attributes.imp fun _ _ => AttributeLayout.IsWrittenAs.toBytes
  have haccess := Layout.IsWrittenAs.plain pool (Bytes.ofUInt16 member.access.bits)
  rw [MemberLayout.layout, ← h.access]
  exact haccess.append ((isWrittenAs_name h.name).append ((isWrittenAs_name h.descriptor).append
    (isWrittenAs_ofList (List.forall₂_map_left_iff.2 hattributes))))

theorem Constant.isWrittenAs_toBytes (pool : Pool) (constant : Constant) :
    constant.layout.IsWrittenAs pool constant.toBytes := by
  cases constant with
  | utf8 text =>
    have hencoded : (Layout.measured .u2 (.plain text.encode)).IsWrittenAs pool
        (Constant.utf8 text).payload :=
      .measured (.plain pool text.encode)
    exact (Layout.IsWrittenAs.plain pool [_]).append hencoded
  | _ => exact .plain pool _

theorem Pool.isWrittenAs_toBytes (pool other : Pool) :
    pool.layout.IsWrittenAs other pool.toBytes := by
  have hslot : ∀ slot : Slot, slot.layout.IsWrittenAs other slot.toBytes := by
    intro slot
    cases slot with
    | entry constant => exact constant.isWrittenAs_toBytes other
    | upperHalf => exact .plain other []
  have hslots : List.Forall₂ (Layout.IsWrittenAs other) (pool.slots.toList.map Slot.layout)
      (pool.slots.toList.map Slot.toBytes) := by
    rw [List.forall₂_map_left_iff, List.forall₂_map_right_iff, List.forall₂_same]
    exact fun slot _ => hslot slot
  have hcounted : pool.layout.IsWrittenAs other _ :=
    .counted (.cons (.plain other []) hslots)
  rw [List.length_cons, List.length_map] at hcounted
  exact hcounted

theorem isWrittenAs_optionalClass {pool : Pool} {index : UInt16} {name : Option String}
    (h : pool.getOptionalClassName index = .ok name) :
    (Layout.optional (name.map .classRef)).IsWrittenAs pool (Bytes.ofUInt16 index) := by
  unfold Pool.getOptionalClassName at h
  by_cases hindex : index = 0
  · rw [if_pos hindex] at h
    cases h
    rw [hindex]
    exact .plain pool _
  · rw [if_neg hindex, map_eq_ok] at h
    obtain ⟨found, hfound, rfl⟩ := h
    exact .index hfound

/-- A class file that is written from a layout is written in bytes as the layout says. -/
theorem ClassLayout.IsWrittenAs.toBytes {layout : ClassLayout} {file : ClassFile}
    (h : layout.IsWrittenAs file) :
    (layout.layout file.pool).IsWrittenAs file.pool file.toBytes := by
  have hplain := Layout.IsWrittenAs.plain file.pool
  have hname : (Layout.index (.classRef layout.name)).IsWrittenAs file.pool
      (Bytes.ofUInt16 file.thisClass) := .index h.name
  have hsuper := isWrittenAs_optionalClass h.superName
  have hinterface : ∀ name index, file.pool.getClassName index = .ok name →
      (Layout.index (.classRef name)).IsWrittenAs file.pool (Bytes.ofUInt16 index) :=
    fun _ _ hindex => .index hindex
  have hinterfaces := isWrittenAs_ofList (List.forall₂_map_left_iff.2
    (h.interfaces.imp hinterface))
  have hfields := isWrittenAs_ofList (List.forall₂_map_left_iff.2
    (h.fields.imp fun _ _ => MemberLayout.IsWrittenAs.toBytes))
  have hmethods := isWrittenAs_ofList (List.forall₂_map_left_iff.2
    (h.methods.imp fun _ _ => MemberLayout.IsWrittenAs.toBytes))
  have hattributes := isWrittenAs_ofList (List.forall₂_map_left_iff.2
    (h.attributes.imp fun _ _ => AttributeLayout.IsWrittenAs.toBytes))
  rw [ClassLayout.layout, ClassFile.toBytes, h.magic, ← h.version, ← h.access]
  exact (hplain _).append <| (hplain _).append <| (hplain _).append <|
    (file.pool.isWrittenAs_toBytes _).append <| (hplain _).append <| hname.append <|
    hsuper.append <| hinterfaces.append <| hfields.append <| hmethods.append hattributes

/-! ## Exact class files -/

theorem AttributeLayout.isExact_layout (layout : AttributeLayout) :
    layout.layout.IsExact ↔ layout.body.size < 2 ^ 32 ∧ layout.body.IsExact := by
  rw [AttributeLayout.layout, Layout.isExact_append, Layout.isExact_measured]
  exact and_iff_right (Layout.isExact_index _)

/-- Not too many attributes are exact if their bodies are. -/
theorem isExact_attributes {layouts : List AttributeLayout} (hcount : layouts.length ≤ 65535) :
    (Layout.counted .u2 (layouts.map AttributeLayout.layout)).IsExact ↔
      (∀ layout ∈ layouts, layout.body.size < 2 ^ 32) ∧ Attribute.AreExact layouts := by
  rw [isExact_counted_map AttributeLayout.isExact_layout, and_iff_right hcount]
  exact forall₂_and

theorem MemberLayout.isExact_layout {layout : MemberLayout}
    (hcount : layout.attributes.length ≤ 65535) :
    layout.layout.IsExact ↔ (∀ item ∈ layout.attributes, item.body.size < 2 ^ 32)
      ∧ Attribute.AreExact layout.attributes := by
  rw [← isExact_attributes hcount]
  simp [MemberLayout.layout]

theorem Slot.isExact_layout (slot : Slot) :
    slot.layout.IsExact ↔ ∀ text, slot = .entry (.utf8 text) → text.IsWritable := by
  cases slot with
  | upperHalf => simp [layout]
  | entry constant =>
    cases constant with
    | utf8 text =>
      simp [layout, Constant.layout, Layout.size, LengthField.u2_lt_iff, JavaText.IsWritable]
    | _ => simp [layout, Constant.layout]

/-- A pool that can be counted is exact if the lengths of its texts are. -/
theorem Pool.isExact_layout {pool : Pool} (h : pool.slots.size ≤ maxSlots) :
    pool.layout.IsExact ↔ ∀ text, .entry (.utf8 text) ∈ pool.slots → text.IsWritable := by
  have hcount : pool.slots.size + 1 ≤ 65535 := Nat.succ_le_succ h
  rw [layout, Layout.isExact_counted, List.length_cons, List.length_map, Array.length_toList,
    LengthField.u2_lt_iff, and_iff_right hcount, List.forall_mem_cons,
    and_iff_right (Layout.isExact_plain []), List.forall_mem_map]
  simp only [Slot.isExact_layout, Array.mem_toList_iff]
  constructor
  · intro hslots text htext
    exact hslots _ htext text rfl
  · rintro htexts slot hslot text rfl
    exact htexts text hslot

/-- The bodies that were written have the sizes of their layouts. -/
theorem forall_size_lt_iff {pool : Pool} {layouts : List AttributeLayout} {items : List Attribute}
    (h : List.Forall₂ (AttributeLayout.IsWrittenAs pool) layouts items) :
    (∀ layout ∈ layouts, layout.body.size < 2 ^ 32) ↔ ∀ item ∈ items, item.IsWritable := by
  induction h with
  | nil => simp
  | cons hitem _ ih =>
    rw [List.forall_mem_cons, List.forall_mem_cons, ih, ← hitem.body.length_eq]
    rfl

theorem forall_members_size_lt_iff {α : Type} {layout : α → MemberLayout} {pool : Pool}
    {items : List α} {members : List Member}
    (h : List.Forall₂ (fun item member => (layout item).IsWrittenAs pool member) items members) :
    (∀ item ∈ items, ∀ other ∈ (layout item).attributes, other.body.size < 2 ^ 32) ↔
      ∀ member ∈ members, ∀ item ∈ member.attributes, item.IsWritable := by
  induction h with
  | nil => simp
  | cons hmember _ ih =>
    rw [List.forall_mem_cons, List.forall_mem_cons, ih, forall_size_lt_iff hmember.attributes]

/-- Members are exact if what they stand for can be counted and their bodies can be measured. -/
theorem isExact_members {α : Type} {layout : α → MemberLayout} {countable : α → Prop} {pool : Pool}
    (hcount : ∀ item, (layout item).attributes.length ≤ 65535)
    (hexact : ∀ item, Attribute.AreExact (layout item).attributes ↔ countable item)
    {items : List α} {members : List Member} (hmembers : members.length ≤ 65535)
    (h : List.Forall₂ (MemberLayout.IsWrittenAs pool) (items.map layout) members) :
    (Layout.counted .u2 ((items.map layout).map MemberLayout.layout)).IsExact ↔
      (∀ member ∈ members, ∀ item ∈ member.attributes, item.IsWritable)
        ∧ ∀ item ∈ items, countable item := by
  have hlength : ((items.map layout).map MemberLayout.layout).length ≤ 65535 := by
    rwa [List.length_map, h.length_eq]
  rw [Layout.isExact_counted, LengthField.u2_lt_iff, and_iff_right hlength, List.forall_mem_map,
    List.forall_mem_map, ← forall_members_size_lt_iff (List.forall₂_map_left_iff.1 h)]
  simp only [MemberLayout.isExact_layout (hcount _), hexact]
  exact forall₂_and

namespace ClassFile

/-- The parts of a class file that an assembly counts are not too many. -/
structure CountsChecked (description : ClassDescription) (file : ClassFile) : Prop where
  slots : file.pool.slots.size ≤ Pool.maxSlots
  interfaces : file.interfaces.length ≤ 65535
  fields : file.fields.length ≤ 65535
  methods : file.methods.length ≤ 65535
  nested : description.nested.length ≤ 65535

end ClassFile

/-- The layout of a class file whose counts were checked is exact if everything else can be counted
and measured. -/
theorem ClassDescription.isExact_layout {description : ClassDescription} {style : BodyStyle}
    {interfaces : List String} {file : ClassFile} (hchecked : file.CountsChecked description)
    (h : ((description.layout style).behind interfaces).IsWrittenAs file) :
    (((description.layout style).behind interfaces).layout file.pool).IsExact ↔
      description.PartsCountable ∧ file.BodiesWritable
        ∧ ∀ text, .entry (.utf8 text) ∈ file.pool.slots → text.IsWritable := by
  generalize hlayout : (description.layout style).behind interfaces = layout at h ⊢
  have hinterfaces : (Layout.counted .u2
      (layout.interfaces.map fun name => .index (.classRef name))).IsExact := by
    have hlength := h.interfaces.length_eq.trans_le hchecked.interfaces
    simpa [LengthField.u2_lt_iff] using hlength
  have hfields : (Layout.counted .u2 (layout.fields.map MemberLayout.layout)).IsExact ↔
      (∀ member ∈ file.fields, ∀ item ∈ member.attributes, item.IsWritable)
        ∧ ∀ field ∈ description.fields, field.Countable := by
    subst hlayout
    exact isExact_members (fun field => field.length_attributes_le.trans (by decide))
      Field.areExact_iff hchecked.fields h.fields
  have hmethods : (Layout.counted .u2 (layout.methods.map MemberLayout.layout)).IsExact ↔
      (∀ member ∈ file.methods, ∀ item ∈ member.attributes, item.IsWritable)
        ∧ ∀ method ∈ description.methods, method.Countable := by
    subst hlayout
    exact isExact_members (fun method => (method.length_attributes_le style).trans (by decide))
      (fun method => method.areExact_iff style) hchecked.methods h.methods
  have hattributes : (Layout.counted .u2
      (layout.attributes.map AttributeLayout.layout)).IsExact ↔
        (∀ item ∈ file.attributes, item.IsWritable) ∧ description.nested.length ≤ 65535
          ∧ VisibilitiesWithin Annotation.visible Annotation.Countable description.annotations
          ∧ VisibilitiesWithin TypeAnnotation.visible TypeAnnotation.Countable
            description.typeAnnotations := by
    subst hlayout
    have hcount : description.attributeLayouts.length ≤ 65535 :=
      description.length_attributeLayouts_le.trans (by decide)
    exact (isExact_attributes hcount).trans
      (and_congr (forall_size_lt_iff h.attributes) description.areExact_iff)
  rw [ClassLayout.layout]
  simp only [Layout.isExact_append, Layout.isExact_plain, Layout.isExact_index,
    Layout.isExact_optional, true_and, hinterfaces, Pool.isExact_layout hchecked.slots, hfields,
    hmethods, hattributes]
  constructor
  · intro hexact
    obtain ⟨htexts, ⟨hfieldBodies, hfields⟩, ⟨hmethodBodies, hmethods⟩, hbodies, -, hannotations,
      htypes⟩ := hexact
    exact ⟨⟨hannotations, htypes, hfields, hmethods⟩, ⟨hbodies, hfieldBodies, hmethodBodies⟩,
      htexts⟩
  · intro hexact
    obtain ⟨hparts, hbodies, htexts⟩ := hexact
    exact ⟨htexts, ⟨hbodies.fields, hparts.fields⟩, ⟨hbodies.methods, hparts.methods⟩,
      hbodies.attributes, hchecked.nested, hparts.annotations, hparts.typeAnnotations⟩

namespace Assembly

/-- Whatever events an assembly is tried with, the bytes of its class file have the layout of the
class that the accepted events tell of. All counts and lengths in them are exact if and only if the
lists that the assembly does not count, its texts and the bodies of its attributes fit their
fields. -/
theorem isExact_attempt {style : BodyStyle} {events : List ClassEvent} {file : ClassFile}
    (hfile : (Assembly.visit.attempt (start style) events).toClassFile = .ok file) :
    ∃ header middle,
      Assembly.visit.accepted (start style) events = .header header :: (middle ++ [.finish])
      ∧ file.CountsChecked (.ofEvents header middle)
      ∧ ((attemptLayout style events header middle).layout file.pool).IsWrittenAs file.pool
        file.toBytes
      ∧ (((attemptLayout style events header middle).layout file.pool).IsExact ↔
        (ClassDescription.ofEvents header middle).PartsCountable ∧ file.BodiesWritable
          ∧ ∀ text, .entry (.utf8 text) ∈ file.pool.slots → text.IsWritable) := by
  have hstage := (reached_attempt style events).stage
  obtain ⟨header, middle, hseen, -, htold, hwritten⟩ := hstage.exists_isWrittenAs hfile
  have hnested := (finished_of_toClassFile hfile).2
  obtain ⟨rfl, hinterfaces, hfields, hmethods⟩ := toClassFile_ok hfile
  have hchecked : ClassFile.CountsChecked (.ofEvents header middle)
      (Assembly.visit.attempt (start style) events).build :=
    { slots := htold.pool.slots
      interfaces := hinterfaces
      fields := hfields
      methods := hmethods
      nested := by rwa [← htold.nested, Array.length_toList] }
  exact ⟨header, middle, hseen, hchecked, hwritten.toBytes,
    ClassDescription.isExact_layout hchecked hwritten⟩

/-! ## A path that is too long -/

/-- An annotation `A` on the superclass, with a path of 256 steps. -/
def longPath : TypeAnnotation where
  targetType := 0x10
  target := .supertype 0
  path := ⟨List.replicate 256 ⟨0, 0⟩⟩
  content := { descriptor := "A", visible := false, elements := [] }

/-- The finished assembly of a class `A` with the annotation. -/
def annotatedFar : Assembly where
  bodies := .omit
  pool := Pool.ofClassA.push (.utf8 (.ofString "RuntimeInvisibleTypeAnnotations"))
  access := ⟨0x0021⟩
  thisClass := 2
  attributes := [⟨3, Bytes.ofUInt16 1 ++ (longPath.siteBytes ++ [0, 1, 0, 0])⟩]
  header := some headerOfClassA
  typeAnnotations := #[longPath]
  finished := true

theorem addName_typeAnnotations : Pool.addName "RuntimeInvisibleTypeAnnotations" Pool.ofClassA =
    .ok 3 (Pool.ofClassA.push (.utf8 (.ofString "RuntimeInvisibleTypeAnnotations"))) := by
  unfold Pool.addName Pool.addText
  rw [Pool.add_eq, Pool.ofClassA, Pool.known_push, Pool.known_push, Pool.known_empty]
  rfl

theorem named_typeAnnotations (body : Bytes) :
    Attribute.named (.typeAnnotations false) body Pool.ofClassA =
      .ok ⟨3, body⟩ (Pool.ofClassA.push (.utf8 (.ofString "RuntimeInvisibleTypeAnnotations"))) := by
  change EStateM.bind (Pool.addName "RuntimeInvisibleTypeAnnotations") _ _ = _
  rw [EStateM.bind, addName_typeAnnotations]
  rfl

theorem encode_longPath : longPath.encode Pool.ofClassA =
    .ok (longPath.siteBytes ++ [0, 1, 0, 0]) Pool.ofClassA := by
  have hcontent : longPath.content.encode Pool.ofClassA = .ok [0, 1, 0, 0] Pool.ofClassA := by
    change EStateM.bind (EStateM.map _ (Pool.addName "A")) _ _ = _
    rw [EStateM.bind, EStateM.map, Pool.addName_ofClassA_known]
    rfl
  change EStateM.bind longPath.content.encode _ _ = _
  rw [EStateM.bind, hcontent]
  rfl

/-- One invisible annotation is written to one attribute. -/
theorem typeAnnotations_singleton {item : TypeAnnotation} {written : Bytes}
    (hvisible : item.visible = false)
    (hitem : item.encode Pool.ofClassA = .ok written Pool.ofClassA) :
    Attribute.typeAnnotations [item] Pool.ofClassA =
      .ok [⟨3, Bytes.ofUInt16 1 ++ written⟩]
        (Pool.ofClassA.push (.utf8 (.ofString "RuntimeInvisibleTypeAnnotations"))) := by
  have hnone : Attribute.typeAnnotationsOf true [item] = pure [] := by
    simp [Attribute.typeAnnotationsOf, Attribute.unlessEmpty, hvisible]
  have hsome : Attribute.typeAnnotationsOf false [item] = do
      return [← Attribute.ofEncoded (.typeAnnotations false)
        (encodeList TypeAnnotation.encode [item])] := by
    simp [Attribute.typeAnnotationsOf, Attribute.unlessEmpty, hvisible]
  have hbody : encodeList TypeAnnotation.encode [item] Pool.ofClassA =
      .ok (Bytes.ofUInt16 1 ++ written) Pool.ofClassA := by
    rw [encodeList, List.mapM_cons, List.mapM_nil]
    change EStateM.bind (EStateM.bind item.encode _) _ _ = _
    rw [EStateM.bind, EStateM.bind, hitem]
    change EStateM.Result.ok (Bytes.ofUInt16 1 ++ (written ++ [])) _ = _
    rw [List.append_nil]
  rw [Attribute.typeAnnotations, hnone, hsome, pure_bind]
  change EStateM.bind (EStateM.bind (EStateM.bind (encodeList TypeAnnotation.encode [item]) _) _)
    _ _ = _
  rw [EStateM.bind, EStateM.bind, EStateM.bind, hbody]
  dsimp only
  rw [named_typeAnnotations]
  rfl

theorem run_longPath : [ClassEvent.header headerOfClassA, .typeAnnotated longPath, .finish].forM
    visit (start .omit) = .ok () annotatedFar := by
  have htypes := typeAnnotations_singleton rfl encode_longPath
  have htyped : visit (.typeAnnotated longPath) (ofClassA .omit) =
      .ok () { ofClassA .omit with typeAnnotations := #[longPath] } := rfl
  have hfinish : visit .finish { ofClassA .omit with typeAnnotations := #[longPath] } =
      .ok () annotatedFar := by
    refine Run.bind_ok.2 ⟨_, _, rfl, Run.bind_ok.2 ⟨_, _, rfl, Run.bind_ok.2 ⟨_, _, rfl, ?_⟩⟩⟩
    refine Run.bind_ok.2 ⟨_, _, rfl, Run.bind_ok.2 ⟨_, _, rfl, Run.bind_ok.2 ⟨_, _, rfl, ?_⟩⟩⟩
    refine Run.bind_ok.2 ⟨_, _, rfl, Run.bind_ok.2 ⟨_, _, rfl, Run.bind_ok.2 ⟨_, _, rfl, ?_⟩⟩⟩
    exact Run.bind_ok.2 ⟨_, _, rfl, Run.bind_ok.2 ⟨_, _, interning_eq htypes, rfl⟩⟩
  exact Run.forM_cons_ok.2 ⟨_, visit_header_ofClassA .omit, Run.forM_cons_ok.2
    ⟨_, htyped, Run.forM_cons_ok.2 ⟨_, hfinish, rfl⟩⟩⟩

/-- The path of 256 steps is taken, but its length is not what the class file says. -/
theorem isExact_attempt_longPath :
    (Assembly.visit.attempt (start .omit)
        [.header headerOfClassA, .typeAnnotated longPath, .finish]).toClassFile =
          .ok annotatedFar.build
      ∧ ¬((attemptLayout .omit [.header headerOfClassA, .typeAnnotated longPath, .finish]
        headerOfClassA [.typeAnnotated longPath]).layout annotatedFar.pool).IsExact := by
  have hrun := run_longPath
  have hfile : (Assembly.visit.attempt (start .omit)
      [.header headerOfClassA, .typeAnnotated longPath, .finish]).toClassFile =
        .ok annotatedFar.build := by
    rw [Consumer.attempt_of_ok hrun]
    rfl
  obtain ⟨header, middle, hseen, -, -, hexact⟩ := isExact_attempt hfile
  rw [Consumer.accepted_of_ok hrun, List.cons.injEq, ClassEvent.header.injEq] at hseen
  obtain ⟨rfl, hmiddle⟩ := hseen
  obtain rfl : [.typeAnnotated longPath] = middle := List.append_cancel_right hmiddle
  refine ⟨hfile, fun hlayout => ?_⟩
  obtain ⟨hparts, -⟩ := hexact.1 hlayout
  have hpath := (hparts.typeAnnotations.items longPath List.mem_cons_self).path
  rw [longPath, List.length_replicate] at hpath
  exact absurd hpath (by decide)

end Assembly

end ClassStub
