import ClassStub.Proofs.AnnotationKeys
import ClassStub.Proofs.Restubbing

/-! # Hidden parts

Private members, static initializers and unrelated nested links do not reach a stub, and neither
does the order in which a class tells of the other parts. Classes that agree on what is left have
the same stub, or fail to have one in the same way. -/

namespace ClassStub

open SurfaceBuilder (retained)

/-! ## What is hidden -/

/-- A field that is kept from other classes. -/
def Field.IsHidden (field : Field) : Prop :=
  field.access.isPrivate

/-- A method that is kept from other classes, or a static initializer. -/
def Method.IsHidden (method : Method) : Prop :=
  method.access.isPrivate ∨ method.name = "<clinit>" ∧ method.access.isStatic

/-- A nested link that is kept from other classes, or is about neither `thisClass` nor a class that
is nested directly in it. -/
def NestedLink.IsHidden (thisClass : String) (link : NestedLink) : Prop :=
  link.access.isPrivate ∨ link.name ≠ thisClass ∧ link.outerName ≠ some thisClass

instance (field : Field) : Decidable field.IsHidden :=
  inferInstanceAs (Decidable (_ = true))

instance (method : Method) : Decidable method.IsHidden :=
  inferInstanceAs (Decidable (_ ∨ _))

instance (thisClass : String) (link : NestedLink) : Decidable (link.IsHidden thisClass) :=
  inferInstanceAs (Decidable (_ ∨ _))

/-- The items that are not hidden. -/
def exposed {α : Type} (hidden : α → Prop) [DecidablePred hidden] (items : List α) : List α :=
  items.filter fun item => ¬hidden item

/-- Exactly what is hidden does not belong to a surface. -/
theorem retained_eq_exposed {α : Type} {membership : α → Membership} {hidden : α → Prop}
    [DecidablePred hidden] (h : ∀ item, membership item = .retain ↔ ¬hidden item)
    (items : List α) : retained membership items = exposed hidden items := by
  unfold retained exposed
  refine List.filter_congr fun item _ => ?_
  rw [decide_eq_decide]
  exact h item

theorem Field.membership_eq_retain (field : Field) :
    field.membership = .retain ↔ ¬field.IsHidden := by
  unfold membership IsHidden
  by_cases hprivate : field.access.isPrivate
  · simp [hprivate]
  · simp [hprivate]

theorem Method.membership_eq_retain (method : Method) :
    method.membership = .retain ↔ ¬method.IsHidden := by
  unfold membership IsHidden staticInitializerName
  by_cases hprivate : method.access.isPrivate
  · simp [hprivate]
  · by_cases hstatic : method.name = "<clinit>" ∧ method.access.isStatic
    · simp [hprivate, hstatic]
    · simp [hprivate, hstatic]

theorem NestedLink.membership_eq_retain (thisClass : String) (link : NestedLink) :
    link.membership thisClass = .retain ↔ ¬link.IsHidden thisClass := by
  unfold membership IsHidden
  rw [← not_or]
  by_cases hprivate : link.access.isPrivate
  · simp [hprivate]
  · by_cases hrelated : link.name = thisClass ∨ link.outerName = some thisClass
    · simp [hprivate, hrelated]
    · simp [hprivate, hrelated]

/-! ## Classes that agree on what is exposed -/

/-- Two classes differ in hidden parts and in the order of the others only, and the exposed parts
are told apart by their names. -/
structure ClassDescription.AgreesWith (description other : ClassDescription) : Prop where
  header : description.header = other.header
  enclosing : description.enclosing = other.enclosing
  annotations : ∀ item, item ∈ description.annotations ↔ item ∈ other.annotations
  typeAnnotations : ∀ item, item ∈ description.typeAnnotations ↔ item ∈ other.typeAnnotations
  nested : (exposed (NestedLink.IsHidden description.header.name) description.nested).Perm
    (exposed (NestedLink.IsHidden other.header.name) other.nested)
  fields : (exposed Field.IsHidden description.fields).Perm
    (exposed Field.IsHidden other.fields)
  methods : (exposed Method.IsHidden description.methods).Perm
    (exposed Method.IsHidden other.methods)
  nestedApart : (exposed (NestedLink.IsHidden description.header.name)
    description.nested).Pairwise fun a b =>
      (a.name, a.outerName.getD "", a.simpleName.getD "") ≠
        (b.name, b.outerName.getD "", b.simpleName.getD "")
  fieldsApart : (exposed Field.IsHidden description.fields).Pairwise fun a b =>
    (a.name, a.descriptor) ≠ (b.name, b.descriptor)
  methodsApart : (exposed Method.IsHidden description.methods).Pairwise fun a b =>
    (a.name, a.descriptor) ≠ (b.name, b.descriptor)

/-- Classes that agree on what is exposed have one surface, if their annotations are told apart by
their keys. -/
theorem ClassDescription.AgreesWith.surface_eq {description other : ClassDescription}
    (h : description.AgreesWith other)
    (hannotations : CanonicalSet.KeysDistinct description.annotations)
    (htypeAnnotations : CanonicalSet.KeysDistinct description.typeAnnotations) :
    description.surface = other.surface := by
  have hnested := CanonicalSet.ofList_eq_of_mem_iff
    (CanonicalSet.keysDistinct_of_pairwise h.nestedApart) fun _ => h.nested.mem_iff
  have hfields := CanonicalSet.ofList_eq_of_mem_iff
    (CanonicalSet.keysDistinct_of_pairwise h.fieldsApart) fun _ => h.fields.mem_iff
  have hmethods := CanonicalSet.ofList_eq_of_mem_iff
    (CanonicalSet.keysDistinct_of_pairwise h.methodsApart) fun _ => h.methods.mem_iff
  unfold surface
  simp only [retained_eq_exposed Field.membership_eq_retain,
    retained_eq_exposed Method.membership_eq_retain,
    retained_eq_exposed (NestedLink.membership_eq_retain _)]
  rw [h.enclosing, CanonicalSet.ofList_eq_of_mem_iff hannotations h.annotations,
    CanonicalSet.ofList_eq_of_mem_iff htypeAnnotations h.typeAnnotations, hnested, hfields,
    hmethods, h.header]

/-! ## Annotations that were read -/

namespace ClassFile.Describes

variable {file : ClassFile} {description : ClassDescription}

/-- The annotations that were read of a class are told apart by their keys. -/
theorem keysDistinct_annotations (h : file.Describes description) (hparsed : file.IsParsed) :
    CanonicalSet.KeysDistinct description.annotations := by
  obtain ⟨_, _, _, statements, -, -, -, hstatements, -, -, hannotations, -⟩ := h.front
  have hkeyed : ∀ item ∈ description.annotations, item.Within .keyed := by
    rw [hannotations]
    have hwithin := Statements.within_of_decodeAll hparsed.texts hparsed.attributes.bodies
      hstatements
    refine Statements.flatMap_within hwithin fun statement hstatement item hitem => ?_
    cases statement with
    | annotations items => exact (hstatement.each item hitem).mono Limits.classFile_stricter
    | _ => cases hitem
  exact fun item hitem other hother => Annotation.eq_of_canonicalKey (hkeyed item hitem)
    (hkeyed other hother)

/-- The type annotations that were read of a class are told apart by their keys. -/
theorem keysDistinct_typeAnnotations (h : file.Describes description) (hparsed : file.IsParsed) :
    CanonicalSet.KeysDistinct description.typeAnnotations := by
  obtain ⟨_, _, _, statements, -, -, -, hstatements, -, -, -, hannotations, -⟩ := h.front
  have hkeyed : ∀ item ∈ description.typeAnnotations, item.Within .keyed := by
    rw [hannotations]
    have hwithin := Statements.within_of_decodeAll hparsed.texts hparsed.attributes.bodies
      hstatements
    refine Statements.flatMap_within hwithin fun statement hstatement item hitem => ?_
    cases statement with
    | typeAnnotations items => exact (hstatement.each item hitem).mono Limits.classFile_stricter
    | _ => cases hitem
  exact fun item hitem other hother => TypeAnnotation.eq_of_key (hkeyed item hitem).isKeyed
    (hkeyed other hother).isKeyed

end ClassFile.Describes

/-! ## Stubs -/

/-- A class is what its events tell. -/
theorem ClassDescription.ofEvents_events (description : ClassDescription) :
    .ofEvents description.header description.events = description := by
  have hlast : description.enclosing.toList.getLast? = description.enclosing := by
    cases description.enclosing <;> rfl
  unfold ClassDescription.ofEvents events frontEvents
  simp [List.filterMap_map, hlast]

theorem ClassDescription.header_of_mem_events {description : ClassDescription}
    {header : ClassHeader} (h : .header header ∈ description.events) :
    header = description.header := by
  rw [events_eq] at h
  cases h with
  | head => rfl
  | tail _ h => exact absurd rfl (kind_of_mem_body h)

/-- A class file describes the class of which its recorded events tell. -/
theorem describes_of_record {file : ClassFile} {events : Array ClassEvent} {header : ClassHeader}
    (hevents : (file.replay (record none)).outcome #[] = (.ok (), events))
    (hheader : .header header ∈ events) :
    file.Describes (.ofEvents header events.toList) := by
  obtain ⟨description, hdescribes, rfl⟩ := ClassFile.replay_record_ok.1 hevents
  rw [List.mem_toArray] at hheader
  rw [ClassDescription.header_of_mem_events hheader, ClassDescription.ofEvents_events]
  exact hdescribes

theorem readSurface_of_describes {bytes : Bytes} {file : ClassFile}
    {description : ClassDescription} (hfile : ClassFile.parse bytes = .ok file)
    (hdescribes : file.Describes description) :
    readSurface bytes = .ok description.surface :=
  bind_eq_ok.2 ⟨file, mapError_eq_ok.2 hfile, ClassFile.surface_ok.2 ⟨_, hdescribes, rfl⟩⟩

/-- Classes whose recorded events differ in hidden parts and in the order of the others have the
same stub, or none for the same reason. -/
theorem stubClass_of_agreesWith {bytes others : Bytes} {file other : ClassFile}
    {events otherEvents : Array ClassEvent} {header otherHeader : ClassHeader}
    (hfile : ClassFile.parse bytes = .ok file) (hother : ClassFile.parse others = .ok other)
    (hevents : (file.replay (record none)).outcome #[] = (.ok (), events))
    (hotherEvents : (other.replay (record none)).outcome #[] = (.ok (), otherEvents))
    (hheader : .header header ∈ events) (hotherHeader : .header otherHeader ∈ otherEvents)
    (hagree : (ClassDescription.ofEvents header events.toList).AgreesWith
      (.ofEvents otherHeader otherEvents.toList)) (config : Config) :
    stubClass bytes config = stubClass others config := by
  have hdescribes := describes_of_record hevents hheader
  have hparsed := ClassFile.isParsed_of_parse hfile
  have hsurface := hagree.surface_eq (hdescribes.keysDistinct_annotations hparsed)
    (hdescribes.keysDistinct_typeAnnotations hparsed)
  unfold stubClass
  rw [readSurface_of_describes hfile hdescribes, hsurface,
    readSurface_of_describes hother (describes_of_record hotherEvents hotherHeader)]

/-! ## Classes with the same fields -/

/-- A field without attributes. -/
def Field.plain (access : UInt16) (name descriptor : String) : Field where
  access := ⟨access⟩
  name := name
  descriptor := descriptor
  annotations := .ofList []
  typeAnnotations := .ofList []

/-- The class `A` that is enclosed in itself and has fields. -/
def selfEnclosedClass (fields : List Field) : ClassDescription where
  header := Assembly.headerOfClassA
  enclosing := some { owner := "A" }
  annotations := []
  typeAnnotations := []
  nested := []
  fields := fields
  methods := []

theorem decodeField_plain {file : ClassFile} {name descriptor : UInt16} {first second : String}
    (hname : file.pool.get name = .ok (.utf8 (.ofString first)))
    (hdescriptor : file.pool.get descriptor = .ok (.utf8 (.ofString second))) (access : UInt16) :
    file.decodeField ⟨⟨access⟩, name, descriptor, []⟩ = .ok (.plain access first second) :=
  ClassFile.decodeField_ok.2 ⟨first, second, [], Pool.getName_ok.2 hname,
    Pool.getName_ok.2 hdescriptor, rfl, rfl⟩

theorem describes_classWithFields {members : List Member} {fields : List Field}
    (h : members.mapM (classWithFields members).written.decodeField = .ok fields) :
    (classWithFields members).written.Describes (selfEnclosedClass fields) where
  front := ⟨"A", none, [], [.enclosing { owner := "A" }], rfl, rfl, rfl, rfl, rfl, rfl, rfl, rfl,
    rfl⟩
  fields := h
  methods := rfl

theorem record_classWithFields {members : List Member} {fields : List Field}
    (h : List.Forall₂ (fun member field =>
      (classWithFields members).written.decodeField member = .ok field) members fields) :
    ((classWithFields members).written.replay (record none)).outcome #[] =
      (.ok (), (selfEnclosedClass fields).events.toArray) :=
  ClassFile.replay_record_ok.2 ⟨_, describes_classWithFields (mapM_eq_ok.2 h), rfl⟩

theorem agreesWith_selfEnclosedClass {fields others : List Field}
    (hfields : (exposed Field.IsHidden fields).Perm (exposed Field.IsHidden others))
    (happart : (exposed Field.IsHidden fields).Pairwise fun a b =>
      (a.name, a.descriptor) ≠ (b.name, b.descriptor)) :
    (selfEnclosedClass fields).AgreesWith (selfEnclosedClass others) :=
  ⟨rfl, rfl, fun _ => Iff.rfl, fun _ => Iff.rfl, .nil, hfields, .nil, .nil, happart, .nil⟩

theorem ClassDescription.AgreesWith.ofEvents {description other : ClassDescription}
    (h : description.AgreesWith other) :
    (ClassDescription.ofEvents description.header description.events.toArray.toList).AgreesWith
      (.ofEvents other.header other.events.toArray.toList) := by
  rwa [List.toList_toArray, List.toList_toArray, ClassDescription.ofEvents_events,
    ClassDescription.ofEvents_events]

/-- Two classes tell of the same two fields in different orders, and one of them has a private
field besides. -/
theorem stubClass_of_fieldsSwapped :
    stubClass (classWithFields
        [⟨⟨0x0002⟩, 1, 1, []⟩, ⟨⟨0x0001⟩, 1, 3, []⟩, ⟨⟨0x0001⟩, 3, 1, []⟩]).toBytes {} =
      stubClass (classWithFields [⟨⟨0x0001⟩, 3, 1, []⟩, ⟨⟨0x0001⟩, 1, 3, []⟩]).toBytes {} := by
  have hfirst : ∀ fields, (classWithFields fields).written.pool.get 1 =
      .ok (.utf8 (.ofString "A")) := fun _ => rfl
  have hthird : ∀ fields, (classWithFields fields).written.pool.get 3 =
      .ok (.utf8 (.ofString "EnclosingMethod")) := fun _ => rfl
  have hevents := record_classWithFields
    (.cons (decodeField_plain (hfirst _) (hfirst _) 0x0002)
      (.cons (decodeField_plain (hfirst _) (hthird _) 0x0001)
        (.cons (decodeField_plain (hthird _) (hfirst _) 0x0001) .nil)))
  have hothers := record_classWithFields
    (.cons (decodeField_plain (hthird _) (hfirst _) 0x0001)
      (.cons (decodeField_plain (hfirst _) (hthird _) 0x0001) .nil))
  have happart : [Field.plain 0x0001 "A" "EnclosingMethod",
      .plain 0x0001 "EnclosingMethod" "A"].Pairwise fun a b =>
        (a.name, a.descriptor) ≠ (b.name, b.descriptor) :=
    List.pairwise_pair.2 (by decide)
  have hagree : (selfEnclosedClass [.plain 0x0002 "A" "A", .plain 0x0001 "A" "EnclosingMethod",
      .plain 0x0001 "EnclosingMethod" "A"]).AgreesWith
        (selfEnclosedClass [.plain 0x0001 "EnclosingMethod" "A",
          .plain 0x0001 "A" "EnclosingMethod"]) :=
    agreesWith_selfEnclosedClass (.swap _ _ _) happart
  refine stubClass_of_agreesWith (parse_classWithFields (by decide) ?_)
    (parse_classWithFields (by decide) ?_) hevents hothers
    (List.mem_toArray.2 List.mem_cons_self) (List.mem_toArray.2 List.mem_cons_self)
    hagree.ofEvents {}
  · simp
  · simp

end ClassStub
