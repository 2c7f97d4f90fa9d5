import ClassStub.Proofs.AssemblyRun
import ClassStub.Proofs.ClassLayouts

/-! # Class files that are written from layouts

A class file is written from a layout if all that its indexes lead to, by look-ups in its own pool,
is what the layout names. The layout of a class is given by the class alone, so a class file that is
written from it holds nothing else, in whatever pool it has. -/

namespace ClassStub

/-! ## Attributes and members -/

/-- An attribute is written from a layout, in terms of a pool. -/
structure AttributeLayout.IsWrittenAs (pool : Pool) (layout : AttributeLayout) (item : Attribute) :
    Prop where
  name : pool.getName item.name = .ok layout.kind.name
  body : layout.body.IsWrittenAs pool item.body

/-- A member is written from a layout, in terms of a pool. -/
structure MemberLayout.IsWrittenAs (pool : Pool) (layout : MemberLayout) (member : Member) :
    Prop where
  access : member.access = layout.access
  name : pool.getName member.name = .ok layout.name
  descriptor : pool.getName member.descriptor = .ok layout.descriptor
  attributes : List.Forall₂ (AttributeLayout.IsWrittenAs pool) layout.attributes member.attributes

variable {pool later : Pool}

theorem AttributeLayout.IsWrittenAs.mono (hle : pool ≤ later) {layout : AttributeLayout}
    {item : Attribute} (h : layout.IsWrittenAs pool item) : layout.IsWrittenAs later item where
  name := Pool.getName_mono hle h.name
  body := h.body.mono hle

theorem MemberLayout.IsWrittenAs.mono (hle : pool ≤ later) {layout : MemberLayout}
    {member : Member} (h : layout.IsWrittenAs pool member) : layout.IsWrittenAs later member where
  access := h.access
  name := Pool.getName_mono hle h.name
  descriptor := Pool.getName_mono hle h.descriptor
  attributes := h.attributes.imp fun _ _ => AttributeLayout.IsWrittenAs.mono hle

theorem AttributeLayout.interns_write (layout : AttributeLayout) :
    Interns anyText layout.write fun later item => layout.IsWrittenAs later item := by
  apply layout.body.interns_write.bind
  intro body
  apply (Pool.interns_addName trivial).map
  intro later name hname hbody
  exact ⟨hname, hbody⟩

theorem Attribute.interns_writeAll (layouts : List AttributeLayout) :
    Interns anyText (writeAll layouts) fun later items =>
      List.Forall₂ (AttributeLayout.IsWrittenAs later) layouts items := by
  apply interns_mapM
  intro layout _
  exact layout.interns_write

theorem MemberLayout.interns_write (layout : MemberLayout) :
    Interns anyText layout.write fun later member => layout.IsWrittenAs later member := by
  apply (Pool.interns_addName trivial).bind
  intro name
  apply (Pool.interns_addName trivial).bind
  intro descriptor
  apply (Attribute.interns_writeAll layout.attributes).bind
  intro attributes
  apply interns_pure
  intro later hattributes hdescriptor hname
  exact ⟨rfl, hname, hdescriptor, hattributes⟩

/-! ## Classes -/

/-- The layout of a class. -/
structure ClassLayout where
  version : ClassVersion
  access : AccessFlags
  name : String
  superName : Option String
  interfaces : List String
  fields : List MemberLayout
  methods : List MemberLayout
  attributes : List AttributeLayout

/-- A class file is begun from a layout: all but the attributes of the class is found where the
class file says. -/
structure ClassLayout.IsBegunAs (layout : ClassLayout) (file : ClassFile) : Prop where
  magic : file.magic = ClassFile.standardMagic
  version : file.version = layout.version
  access : file.access = layout.access
  name : file.pool.getClassName file.thisClass = .ok layout.name
  superName : file.pool.getOptionalClassName file.superClass = .ok layout.superName
  interfaces : List.Forall₂ (fun name index => file.pool.getClassName index = .ok name)
    layout.interfaces file.interfaces
  fields : List.Forall₂ (MemberLayout.IsWrittenAs file.pool) layout.fields file.fields
  methods : List.Forall₂ (MemberLayout.IsWrittenAs file.pool) layout.methods file.methods

/-- A class file is written from a layout, with the attributes of the class. -/
structure ClassLayout.IsWrittenAs (layout : ClassLayout) (file : ClassFile) : Prop
    extends layout.IsBegunAs file where
  attributes :
    List.Forall₂ (AttributeLayout.IsWrittenAs file.pool) layout.attributes file.attributes

theorem ClassLayout.IsBegunAs.mono {layout : ClassLayout} {file : ClassFile}
    (hle : file.pool ≤ later) (h : layout.IsBegunAs file) :
    layout.IsBegunAs { file with pool := later } where
  magic := h.magic
  version := h.version
  access := h.access
  name := Pool.getClassName_mono hle h.name
  superName := Pool.getOptionalClassName_mono hle h.superName
  interfaces := h.interfaces.imp fun _ _ => Pool.getClassName_mono hle
  fields := h.fields.imp fun _ _ => MemberLayout.IsWrittenAs.mono hle
  methods := h.methods.imp fun _ _ => MemberLayout.IsWrittenAs.mono hle

namespace ClassLayout

/-- The layout with further interfaces in front of its own. -/
def behind (interfaces : List String) (layout : ClassLayout) : ClassLayout :=
  { layout with interfaces := interfaces ++ layout.interfaces }

/-- A class file has no other interfaces than those of the class if none stand before them. -/
theorem isWrittenAs_iff_of_behind {layout : ClassLayout} {interfaces : List String}
    {file : ClassFile} (h : (layout.behind interfaces).IsWrittenAs file) :
    layout.IsWrittenAs file ↔ interfaces = [] := by
  constructor
  · intro hwritten
    have hlength := h.interfaces.length_eq.trans hwritten.interfaces.length_eq.symm
    simpa [behind] using hlength
  · rintro rfl
    exact h

end ClassLayout

namespace ClassDescription

/-- The layouts of the attributes of the class itself. -/
def attributeLayouts (description : ClassDescription) : List AttributeLayout :=
  Attribute.commonLayouts description.header.signature description.header.deprecated
      description.header.synthetic
    ++ Attribute.enclosingLayouts description.enclosing
    ++ Attribute.nestedLayouts description.nested
    ++ Attribute.annotationLayouts description.annotations
    ++ Attribute.typeAnnotationLayouts description.typeAnnotations

/-- The layout of a class whose method bodies have the given style. -/
def layout (description : ClassDescription) (style : BodyStyle) : ClassLayout where
  version := description.header.version
  access := description.header.access
  name := description.header.name
  superName := description.header.superName
  interfaces := description.header.interfaces
  fields := description.fields.map Field.layout
  methods := description.methods.map fun method => method.layout style
  attributes := description.attributeLayouts

end ClassDescription

end ClassStub
