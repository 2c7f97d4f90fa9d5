import ClassStub.Proofs.Container
import ClassStub.Proofs.DecodedStatements
import ClassStub.Proofs.Description

/-! # What was read of a class can be written

If no recognised attribute is repeated, then each part of a class comes from a single attribute, and
what is made of it fits into a single attribute again. -/

namespace ClassStub

variable {texts : JavaText → Prop}

/-! ## Both visibilities -/

/-- The items of each visibility fit into one attribute. -/
def VisibilitiesFit {α : Type} (visible : α → Bool) (property : α → Prop) (size : α → Nat)
    (items : List α) : Prop :=
  ∀ visibility, ListFits property size (items.filter (visible · == visibility))

namespace VisibilitiesFit

variable {α : Type} {visible : α → Bool} {property : α → Prop} {size : α → Nat}
  {items others : List α}

theorem within (h : VisibilitiesFit visible property size items) :
    VisibilitiesWithin visible property items where
  count visibility := (h visibility).count
  items item hitem := (h (visible item)).each item (List.mem_filter.2 ⟨hitem, beq_self_eq_true _⟩)

theorem subset (h : VisibilitiesFit visible property size others) (hnodup : items.Nodup)
    (hsub : items ⊆ others) : VisibilitiesFit visible property size items := by
  intro visibility
  refine (h visibility).subset (hnodup.filter _) fun item hitem => ?_
  obtain ⟨hitem, hvisible⟩ := List.mem_filter.1 hitem
  exact List.mem_filter.2 ⟨hsub hitem, hvisible⟩

end VisibilitiesFit

/-! ## One attribute of each kind -/

namespace Statements

open Statement (decodeAll)

variable {pool : Pool} {place : AttributePlace} {attributes : List Attribute}
  {statements : Statements}

/-- What only attributes of one kind say is said by one of them, if none repeats. -/
theorem flatMap_of_noneRepeats {α : Type} {select : Statement → List α} {kind : AttributeKind}
    (hskipped : select .skipped = [])
    (hselect : ∀ statement other, statement.Answers other → other ≠ kind → select statement = [])
    (hrepeats : Attribute.NoneRepeats pool place attributes)
    (h : decodeAll pool place attributes = .ok statements) :
    statements.flatMap select = []
      ∨ ∃ statement ∈ statements, statements.flatMap select = select statement := by
  have hnamed : ∀ {item statement}, Statement.decode pool place item = .ok statement →
      select statement ≠ [] → kind ∈ place.recognised ∧ item.IsNamed pool kind := by
    intro item statement hdecode hsome
    rcases (Statement.decode_ok hdecode).2 with rfl | ⟨other, hrecognised, hname, hanswers⟩
    · exact absurd hskipped hsome
    · by_cases hother : other = kind
      · subst hother
        exact ⟨hrecognised, hname⟩
      · exact absurd (hselect statement other hanswers hother) hsome
  have hdecoded := mapM_eq_ok.1 h
  clear h
  induction hdecoded with
  | nil => exact .inl rfl
  | @cons item statement items statements hitem hitems ih =>
    obtain ⟨hfirst, hrest⟩ := List.pairwise_cons.1 hrepeats
    rw [List.flatMap_cons]
    by_cases hempty : select statement = []
    · rw [hempty, List.nil_append]
      refine (ih hrest).imp_right ?_
      rintro ⟨other, hother, heq⟩
      exact ⟨other, List.mem_cons_of_mem _ hother, heq⟩
    · have hothers : statements.flatMap select = [] := by
        refine List.flatMap_eq_nil_iff.2 fun other hother => ?_
        obtain ⟨item', hitem', hdecode⟩ := exists_of_forall₂ hitems.flip hother
        by_contra hsome
        obtain ⟨hrecognised, hname⟩ := hnamed hitem hempty
        exact hfirst item' hitem' kind hrecognised ⟨hname, (hnamed hdecode hsome).2⟩
      rw [hothers, List.append_nil]
      exact .inr ⟨statement, List.mem_cons_self, rfl⟩

theorem fits_of_noneRepeats {α : Type} {select : Statement → List α} (kind : AttributeKind)
    {property : α → Prop} {size : α → Nat} (hskipped : select .skipped = [])
    (hselect : ∀ statement other, statement.Answers other → other ≠ kind → select statement = [])
    (hrepeats : Attribute.NoneRepeats pool place attributes)
    (h : decodeAll pool place attributes = .ok statements)
    (hfits : ∀ statement ∈ statements, ListFits property size (select statement)) :
    ListFits property size (statements.flatMap select) := by
  rcases flatMap_of_noneRepeats hskipped hselect hrepeats h with hnone | ⟨statement, hmem, hone⟩
  · rw [hnone]
    exact .nil
  · rw [hone]
    exact hfits statement hmem

/-- Items that come in one kind of attribute for each visibility fit into two attributes. -/
theorem visibilitiesFit_of_noneRepeats {α : Type} {select : Statement → List α}
    (kind : Bool → AttributeKind) {visible : α → Bool} {property : α → Prop} {size : α → Nat}
    (hskipped : select .skipped = [])
    (hkind : ∀ statement other, statement.Answers other → ∀ item ∈ select statement,
      other = kind (visible item))
    (hrepeats : Attribute.NoneRepeats pool place attributes)
    (h : decodeAll pool place attributes = .ok statements)
    (hfits : ∀ statement ∈ statements, ListFits property size (select statement)) :
    VisibilitiesFit visible property size (statements.flatMap select) := by
  intro visibility
  rw [List.filter_flatMap]
  refine fits_of_noneRepeats (kind visibility) ?_ ?_ hrepeats h fun statement hmem => ?_
  · rw [hskipped, List.filter_nil]
  · intro statement other hanswers hother
    refine List.filter_eq_nil_iff.2 fun item hitem hvisibility => hother ?_
    rw [← beq_iff_eq.1 hvisibility]
    exact hkind statement other hanswers item hitem
  · exact (hfits statement hmem).sublist List.filter_sublist

/-- What the last statement of a kind says is said by one of the statements. -/
theorem last?_within {α : Type} {select : Statement → Option α} {property : α → Prop}
    (hstatements : ∀ statement ∈ statements, statement.Within texts)
    (hselect : ∀ statement value, statement.Within texts → select statement = some value →
      property value) : ∀ value ∈ statements.last? select, property value := by
  intro value hvalue
  obtain ⟨statement, hmem, hsome⟩ := List.mem_filterMap.1 (List.mem_of_getLast? hvalue)
  exact hselect statement value (hstatements statement hmem) hsome

/-- What statements list one after another is listed by each of them. -/
theorem flatMap_within {α : Type} {select : Statement → List α} {property : α → Prop}
    (hstatements : ∀ statement ∈ statements, statement.Within texts)
    (hselect : ∀ statement : Statement, statement.Within texts → ∀ item ∈ select statement,
      property item) : ∀ item ∈ statements.flatMap select, property item := by
  intro item hitem
  obtain ⟨statement, hmem, hitem⟩ := List.mem_flatMap.1 hitem
  exact hselect statement (hstatements statement hmem) item hitem

end Statements

/-- Each answer that attributes gave can be written to one attribute. -/
structure Digest.Within (texts : JavaText → Prop) (digest : Digest) : Prop where
  signature : ∀ value ∈ digest.signature, NameWithin texts value
  annotations : VisibilitiesFit Annotation.visible (fun item => item.Within (.counted texts))
    Annotation.writtenSize digest.annotations
  typeAnnotations : VisibilitiesFit TypeAnnotation.visible
    (fun item => item.Within (.counted texts)) TypeAnnotation.writtenSize digest.typeAnnotations
  enclosing : ∀ link ∈ digest.enclosing, link.Within texts
  nested : ∀ links ∈ digest.nested,
    ListFits (fun link : NestedLink => link.Within texts) (fun _ => 8) links
  constantValue : ∀ value ∈ digest.constantValue, value.Within texts
  exceptions : ListFits (NameWithin texts) (fun _ => 2) digest.exceptions
  visibleParameters : ∀ table ∈ digest.visibleParameters,
    table.Within (.counted texts) true ∧ table.writtenSize < 2 ^ 32
  invisibleParameters : ∀ table ∈ digest.invisibleParameters,
    table.Within (.counted texts) false ∧ table.writtenSize < 2 ^ 32
  defaultValue : ∀ value ∈ digest.defaultValue,
    value.Within (.counted texts) ∧ value.writtenSize < 2 ^ 32

/-- Each statement that attributes make can be written. -/
theorem Statements.within_of_decodeAll {pool : Pool} {place : AttributePlace}
    {attributes : List Attribute} {statements : Statements} (hpool : pool.Holds texts)
    (hbodies : ∀ item ∈ attributes, item.IsWritable)
    (h : Statement.decodeAll pool place attributes = .ok statements) :
    ∀ statement ∈ statements, statement.Within texts := by
  intro statement hstatement
  obtain ⟨item, hitem, hdecode⟩ := exists_of_forall₂ (mapM_eq_ok.1 h).flip hstatement
  exact Statement.within_of_decode hpool (hbodies item hitem) hdecode

/-- Attributes of which none repeats say what can be written. -/
theorem Statements.digest_within {pool : Pool} {place : AttributePlace}
    {attributes : List Attribute} {statements : Statements} (hpool : pool.Holds texts)
    (hbodies : ∀ item ∈ attributes, item.IsWritable)
    (hrepeats : Attribute.NoneRepeats pool place attributes)
    (h : Statement.decodeAll pool place attributes = .ok statements) :
    statements.digest.Within texts := by
  have hstatements := within_of_decodeAll hpool hbodies h
  constructor
  case annotations =>
    refine visibilitiesFit_of_noneRepeats .annotations rfl ?_ hrepeats h fun statement hmem => ?_
    · intro statement other hanswers item hitem
      cases statement with
      | annotations items =>
        obtain ⟨visible, hother, hvisible⟩ := hanswers
        rw [hother, hvisible item hitem]
      | _ => cases hitem
    · have hwithin := hstatements statement hmem
      cases statement with
      | annotations items => exact hwithin
      | _ => exact .nil
  case typeAnnotations =>
    refine visibilitiesFit_of_noneRepeats .typeAnnotations rfl ?_ hrepeats h
      fun statement hmem => ?_
    · intro statement other hanswers item hitem
      cases statement with
      | typeAnnotations items =>
        obtain ⟨visible, hother, hvisible⟩ := hanswers
        rw [hother, hvisible item hitem]
      | _ => cases hitem
    · have hwithin := hstatements statement hmem
      cases statement with
      | typeAnnotations items => exact hwithin
      | _ => exact .nil
  case exceptions =>
    refine fits_of_noneRepeats .exceptions rfl ?_ hrepeats h fun statement hmem => ?_
    · intro statement other hanswers hother
      cases statement with
      | exceptions names => exact absurd hanswers hother
      | _ => rfl
    · have hwithin := hstatements statement hmem
      cases statement with
      | exceptions names => exact hwithin
      | _ => exact .nil
  all_goals
    exact last?_within hstatements fun statement _ hwithin hselect => by
      cases statement <;> cases hselect
      exact hwithin

/-! ## Sizes of bodies -/

theorem ListFits.listSizes_lt {α : Type} {property : α → Prop} {size : α → Nat} {items : List α}
    (h : ListFits property size items) : ∀ length ∈ listSizes size items, length < 2 ^ 32 := by
  intro length hlength
  unfold listSizes at hlength
  split at hlength
  · cases hlength
  · cases List.mem_singleton.1 hlength
    exact h.size

theorem VisibilitiesFit.sizes_lt {α : Type} {visible : α → Bool} {property : α → Prop}
    {size : α → Nat} {items : List α} (h : VisibilitiesFit visible property size items) :
    ∀ length ∈ visibilitySizes visible size items, length < 2 ^ 32 := by
  intro length hlength
  rcases List.mem_append.1 hlength with hlength | hlength
  · exact (h true).listSizes_lt length hlength
  · exact (h false).listSizes_lt length hlength

theorem commonSizes_lt (signature : Option String) (deprecated synthetic : Bool) :
    ∀ length ∈ commonSizes signature deprecated synthetic, length < 2 ^ 32 := by
  cases signature <;> cases deprecated <;> cases synthetic <;> simp [commonSizes]

theorem mapSizes_lt {α : Type} {value : Option α} {size : α → Nat}
    (h : ∀ found ∈ value, size found < 2 ^ 32) :
    ∀ length ∈ value.toList.map size, length < 2 ^ 32 := by
  intro length hlength
  obtain ⟨found, hfound, rfl⟩ := List.mem_map.1 hlength
  exact h found (Option.mem_toList.1 hfound)

theorem Method.length_stubCode {method : Method} {style : BodyStyle} {code : Code}
    (h : code ∈ method.stubCode style) : code.toBytes.length = 14 := by
  unfold stubCode at h
  split at h
  · cases h
  · cases style <;> cases h
    rfl

/-! ## Members and classes -/

/-- A field that can be written to attributes whose bodies can be written. -/
structure Field.Fits (texts : JavaText → Prop) (field : Field) : Prop where
  within : field.Within texts
  sizes : ∀ length ∈ field.bodySizes, length < 2 ^ 32

/-- A method that can be written to attributes whose bodies can be written. -/
structure Method.Fits (texts : JavaText → Prop) (method : Method) : Prop where
  within : method.Within texts
  sizes : ∀ style, ∀ length ∈ method.bodySizes style, length < 2 ^ 32

/-- A class that can be written to attributes whose bodies can be written. -/
structure ClassDescription.Fits (texts : JavaText → Prop) (description : ClassDescription) :
    Prop where
  header : description.header.Within texts
  enclosing : ∀ link ∈ description.enclosing, link.Within texts
  annotations : VisibilitiesFit Annotation.visible (fun item => item.Within (.counted texts))
    Annotation.writtenSize description.annotations
  typeAnnotations : VisibilitiesFit TypeAnnotation.visible
    (fun item => item.Within (.counted texts)) TypeAnnotation.writtenSize
    description.typeAnnotations
  nested : ListFits (fun link : NestedLink => link.Within texts) (fun _ => 8) description.nested
  fields : ∀ field ∈ description.fields, field.Fits texts
  methods : ∀ method ∈ description.methods, method.Fits texts

namespace Digest.Within

variable {digest : Digest} {access : AccessFlags} {name descriptor : String}

theorem field (h : digest.Within texts) (hname : NameWithin texts name)
    (hdescriptor : NameWithin texts descriptor) :
    (digest.field access name descriptor).Fits texts := by
  have hannotations := h.annotations.subset (CanonicalSet.nodup (.ofList digest.annotations))
    fun _ => CanonicalSet.mem_of_mem_ofList
  have htypes := h.typeAnnotations.subset (CanonicalSet.nodup (.ofList digest.typeAnnotations))
    fun _ => CanonicalSet.mem_of_mem_ofList
  refine ⟨⟨hname, hdescriptor, h.signature, h.constantValue, hannotations.within,
    htypes.within⟩, ?_⟩
  intro length hlength
  simp only [Field.bodySizes, List.mem_append] at hlength
  rcases hlength with ((hlength | hlength) | hlength) | hlength
  · exact mapSizes_lt (fun _ _ => by decide) length hlength
  · exact commonSizes_lt _ _ _ length hlength
  · exact hannotations.sizes_lt length hlength
  · exact htypes.sizes_lt length hlength

theorem method (h : digest.Within texts) (hname : NameWithin texts name)
    (hdescriptor : NameWithin texts descriptor) :
    (digest.method access name descriptor).Fits texts := by
  have hannotations := h.annotations.subset (CanonicalSet.nodup (.ofList digest.annotations))
    fun _ => CanonicalSet.mem_of_mem_ofList
  have htypes := h.typeAnnotations.subset (CanonicalSet.nodup (.ofList digest.typeAnnotations))
    fun _ => CanonicalSet.mem_of_mem_ofList
  refine ⟨⟨hname, hdescriptor, h.signature, h.exceptions.count, h.exceptions.each,
    hannotations.within, htypes.within, fun table htable => (h.visibleParameters table htable).1,
    fun table htable => (h.invisibleParameters table htable).1,
    fun value hvalue => (h.defaultValue value hvalue).1⟩, ?_⟩
  intro style length hlength
  simp only [Method.bodySizes, List.mem_append] at hlength
  rcases hlength with ((((((hlength | hlength) | hlength) | hlength) | hlength) | hlength)
    | hlength) | hlength
  · exact mapSizes_lt (fun _ hcode => by rw [Method.length_stubCode hcode]; decide) length hlength
  · exact h.exceptions.listSizes_lt length hlength
  · exact commonSizes_lt _ _ _ length hlength
  · exact mapSizes_lt (fun value hvalue => (h.defaultValue value hvalue).2) length hlength
  · exact hannotations.sizes_lt length hlength
  · exact mapSizes_lt (fun table htable => (h.visibleParameters table htable).2) length hlength
  · exact mapSizes_lt (fun table htable => (h.invisibleParameters table htable).2) length hlength
  · exact htypes.sizes_lt length hlength

end Digest.Within

namespace ClassFile

/-- Nothing that is recognised is repeated, in a class or in any of its members. -/
structure NoneRepeats (file : ClassFile) : Prop where
  attributes : Attribute.NoneRepeats file.pool .onClass file.attributes
  fields : ∀ member ∈ file.fields, Attribute.NoneRepeats file.pool .onField member.attributes
  methods : ∀ member ∈ file.methods, Attribute.NoneRepeats file.pool .onMethod member.attributes

/-- What a parsed class file without repetitions describes can be written. -/
theorem Describes.fits {file : ClassFile} {description : ClassDescription}
    (h : file.Describes description) (hparsed : file.IsParsed) (hrepeats : file.NoneRepeats) :
    description.Fits JavaText.IsWritable := by
  obtain ⟨name, superName, interfaces, statements, hname, hsuper, hinterfaces, hstatements,
    hheader, henclosing, hannotations, htypes, hnested⟩ := h.front
  have hdigest := Statements.digest_within hparsed.texts hparsed.attributes.bodies
    hrepeats.attributes hstatements
  refine ⟨?_, ?_, ?_, ?_, ?_, ?_, ?_⟩
  · rw [hheader]
    refine ⟨hparsed.texts.className hname, hdigest.signature,
      hparsed.texts.optionalClassName hsuper, fun interface hinterface => ?_⟩
    obtain ⟨index, -, hindex⟩ := exists_of_forall₂ (mapM_eq_ok.1 hinterfaces).flip hinterface
    exact hparsed.texts.className hindex
  · rw [henclosing]
    exact hdigest.enclosing
  · rw [hannotations]
    exact hdigest.annotations
  · rw [htypes]
    exact hdigest.typeAnnotations
  · rw [hnested]
    have hlinks := hdigest.nested
    cases hlast : statements.digest.nested with
    | none => exact .nil
    | some links => exact hlinks links hlast
  · intro field hfield
    obtain ⟨member, hmember, hdecode⟩ := exists_of_forall₂ (mapM_eq_ok.1 h.fields).flip hfield
    obtain ⟨_, _, _, hname, hdescriptor, hstatements, rfl⟩ := decodeField_ok.1 hdecode
    exact (Statements.digest_within hparsed.texts (hparsed.fieldAttributes member hmember).bodies
      (hrepeats.fields member hmember) hstatements).field (hparsed.texts.name hname)
        (hparsed.texts.name hdescriptor)
  · intro method hmethod
    obtain ⟨member, hmember, hdecode⟩ := exists_of_forall₂ (mapM_eq_ok.1 h.methods).flip hmethod
    obtain ⟨_, _, _, hname, hdescriptor, hstatements, rfl⟩ := decodeMethod_ok.1 hdecode
    exact (Statements.digest_within hparsed.texts (hparsed.methodAttributes member hmember).bodies
      (hrepeats.methods member hmember) hstatements).method (hparsed.texts.name hname)
        (hparsed.texts.name hdescriptor)

end ClassFile

end ClassStub
