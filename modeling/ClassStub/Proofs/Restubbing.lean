import ClassStub.Proofs.DecodedClasses
import ClassStub.Proofs.ReadBack
import ClassStub.Stub

/-! # Stubs of stubs

The surface of a class holds nothing that would be left out of a surface, so it comes out of its own
stub as it is. Whatever is made of the stub of a class is therefore the same as what is made of the
class. -/

namespace ClassStub

open SurfaceBuilder (retained)

variable {texts : JavaText → Prop}

namespace Surface

/-! ## Surfaces that are exposed -/

/-- All members and nested links of the surface belong to a surface. -/
structure IsExposed (surface : Surface) : Prop where
  nested : ∀ link ∈ surface.nested.toList, link.membership surface.header.name = .retain
  fields : ∀ field ∈ surface.fields.toList, field.membership = .retain
  methods : ∀ method ∈ surface.methods.toList, method.membership = .retain

theorem retained_of_mem_ofList {α : Type} [Keyed α] {membership : α → Membership} {items : List α} :
    ∀ item ∈ (CanonicalSet.ofList (retained membership items)).toList, membership item = .retain :=
  fun _ hitem => of_decide_eq_true (List.mem_filter.1 (CanonicalSet.mem_of_mem_ofList hitem)).2

/-- The surface of a class is exposed. -/
theorem isExposed_surface (description : ClassDescription) : description.surface.IsExposed where
  nested := retained_of_mem_ofList
  fields := retained_of_mem_ofList
  methods := retained_of_mem_ofList

theorem ofList_retained {α : Type} [Keyed α] {membership : α → Membership} {set : CanonicalSet α}
    (h : ∀ item ∈ set.toList, membership item = .retain) :
    CanonicalSet.ofList (retained membership set.toList) = set := by
  have hall : retained membership set.toList = set.toList :=
    List.filter_eq_self.2 fun item hitem => decide_eq_true (h item hitem)
  rw [hall]
  exact CanonicalSet.ofList_eq_of_mem fun _ => Iff.rfl

/-! ## What is told of a surface -/

/-- The class of which a surface tells. -/
def description (surface : Surface) : ClassDescription where
  header := surface.header
  enclosing := surface.enclosing
  annotations := surface.annotations.toList
  typeAnnotations := surface.typeAnnotations.toList
  nested := surface.nested.toList
  fields := surface.fields.toList
  methods := surface.methods.toList

/-- The events of a surface between the header and the closing event. -/
def middle (surface : Surface) : List ClassEvent :=
  surface.enclosing.toList.map .enclosing
    ++ surface.nested.toList.map .nested
    ++ surface.annotations.toList.map .annotated
    ++ surface.typeAnnotations.toList.map .typeAnnotated
    ++ surface.fields.toList.map .field
    ++ surface.methods.toList.map .method

theorem ofEvents_middle (surface : Surface) :
    .ofEvents surface.header surface.middle = surface.description := by
  have hlast : surface.enclosing.toList.getLast? = surface.enclosing := by
    cases surface.enclosing <;> rfl
  unfold ClassDescription.ofEvents middle description
  simp [List.filterMap_map, hlast]

/-- An exposed surface is the surface of what it tells. -/
theorem surface_description {surface : Surface} (h : surface.IsExposed) :
    surface.description.visibleFirst.surface = surface := by
  unfold ClassDescription.surface ClassDescription.visibleFirst description
  simp only [ofList_visibleFirst, ofList_retained h.nested, ofList_retained h.fields,
    ofList_retained h.methods]

end Surface

/-! ## Surfaces that can be written -/

theorem retained_subset {α : Type} {membership : α → Membership} (items : List α) :
    retained membership items ⊆ items :=
  List.filter_sublist.subset

/-- The surface of a class can be written if the class can. -/
theorem ClassDescription.Fits.surface {description : ClassDescription}
    (h : description.Fits texts) : description.surface.description.Fits texts where
  header := h.header
  enclosing := h.enclosing
  annotations := h.annotations.subset (CanonicalSet.nodup _) fun _ => CanonicalSet.mem_of_mem_ofList
  typeAnnotations :=
    h.typeAnnotations.subset (CanonicalSet.nodup _) fun _ => CanonicalSet.mem_of_mem_ofList
  nested := h.nested.subset (CanonicalSet.nodup _) fun _ hlink =>
    retained_subset _ (CanonicalSet.mem_of_mem_ofList hlink)
  fields field hfield := h.fields field (retained_subset _ (CanonicalSet.mem_of_mem_ofList hfield))
  methods method hmethod :=
    h.methods method (retained_subset _ (CanonicalSet.mem_of_mem_ofList hmethod))

theorem ClassDescription.Fits.sizes_lt {description : ClassDescription}
    (h : description.Fits texts) : ∀ length ∈ description.bodySizes, length < 2 ^ 32 := by
  intro length hlength
  simp only [bodySizes, List.mem_append] at hlength
  rcases hlength with (((hlength | hlength) | hlength) | hlength) | hlength
  · exact commonSizes_lt _ _ _ length hlength
  · exact mapSizes_lt (fun _ _ => by decide) length hlength
  · exact h.nested.listSizes_lt length hlength
  · exact h.annotations.sizes_lt length hlength
  · exact h.typeAnnotations.sizes_lt length hlength

theorem Attribute.isWritable_of_sizes {items : List Attribute} {sizes : List Nat}
    (hsizes : items.map (·.body.length) = sizes) (h : ∀ length ∈ sizes, length < 2 ^ 32) :
    ∀ item ∈ items, item.IsWritable := fun _ hitem =>
  h _ (hsizes ▸ List.mem_map_of_mem hitem)

/-- The attributes that were written for a class have the bodies that belong to it. -/
theorem ClassFile.Holds.bodiesWritable {style : BodyStyle} {description : ClassDescription}
    {file : ClassFile} (h : file.Holds texts style description)
    (hfits : description.Fits texts) : file.BodiesWritable where
  attributes := Attribute.isWritable_of_sizes h.sizes hfits.sizes_lt
  fields member hmember := by
    obtain ⟨field, hfield, hsizes⟩ := exists_of_forall₂ h.fieldSizes hmember
    exact Attribute.isWritable_of_sizes hsizes (hfits.fields field hfield).sizes
  methods member hmember := by
    obtain ⟨method, hmethod, hsizes⟩ := exists_of_forall₂ h.methodSizes hmember
    exact Attribute.isWritable_of_sizes hsizes ((hfits.methods method hmethod).sizes style)

/-- The events of a surface that can be written can be written. -/
theorem Surface.within_of_mem_middle {surface : Surface} (h : surface.description.Fits texts)
    {event : ClassEvent} (hevent : event ∈ surface.middle) :
    event.Within texts ∧ event.kind ≠ .header ∧ event.kind ≠ .finish := by
  simp only [middle, List.mem_append, List.mem_map] at hevent
  rcases hevent with ((((⟨link, hlink, rfl⟩ | ⟨link, hlink, rfl⟩) | ⟨item, hitem, rfl⟩)
    | ⟨item, hitem, rfl⟩) | ⟨field, hfield, rfl⟩) | ⟨method, hmethod, rfl⟩
  · exact ⟨h.enclosing link (Option.mem_toList.1 hlink), nofun, nofun⟩
  · exact ⟨h.nested.each link hlink, nofun, nofun⟩
  · exact ⟨h.annotations.within.items item hitem, nofun, nofun⟩
  · exact ⟨h.typeAnnotations.within.items item hitem, nofun, nofun⟩
  · exact ⟨(h.fields field hfield).within, nofun, nofun⟩
  · exact ⟨(h.methods method hmethod).within, nofun, nofun⟩

namespace Surface

variable {surface : Surface} {config : Config} {stub : Bytes}

/-- A stub holds the class file that was assembled from its surface. -/
theorem toStub_ok (h : surface.toStub config = .ok stub) :
    ∃ assembly file,
      surface.events.forM Assembly.visit (.start config.bodies) = .ok () assembly
        ∧ assembly.toClassFile = .ok file ∧ file.toBytes = stub := by
  obtain ⟨file, hfile, h⟩ := bind_eq_ok.1 h
  have hstub : file.toBytes = stub := by
    by_cases hverify : config.verify
    · rw [if_pos hverify] at h
      obtain ⟨_, _, h⟩ := bind_eq_ok.1 h
      exact pure_eq_ok.1 h
    · rw [if_neg hverify] at h
      exact pure_eq_ok.1 h
  unfold assemble replay at hfile
  cases houtcome : Run.outcome (surface.events.forM Assembly.visit) (.start config.bodies) with
  | mk result assembly =>
    rw [houtcome] at hfile
    obtain ⟨_, hresult, hfile⟩ := bind_eq_ok.1 hfile
    rw [hresult] at houtcome
    exact ⟨assembly, file, Run.outcome_ok.1 houtcome, hfile, hstub⟩

/-- A surface that can be written is read from its stub. -/
theorem readSurface_toStub (hexposed : surface.IsExposed)
    (hfits : surface.description.Fits JavaText.IsWritable)
    (h : surface.toStub config = .ok stub) : readSurface stub = .ok surface := by
  obtain ⟨assembly, file, hrun, hfile, rfl⟩ := toStub_ok h
  have hheader : surface.header.Within JavaText.IsWritable := hfits.header
  have hholds : file.Holds JavaText.IsWritable config.bodies surface.description := by
    rw [← ofEvents_middle]
    refine Assembly.holds_of_run AttributeKind.isWritable_name hheader
      (fun event => within_of_mem_middle hfits) ?_ ?_ hrun hfile
    · rw [ofEvents_middle]
      exact hfits.annotations.within.count
    · rw [ofEvents_middle]
      exact hfits.typeAnnotations.within.count
  obtain ⟨parsed, hparsed, hdescribes⟩ := hholds.parse_toBytes (hholds.bodiesWritable hfits)
  refine bind_eq_ok.2 ⟨parsed, mapError_eq_ok.2 hparsed, ?_⟩
  exact ClassFile.surface_ok.2 ⟨_, hdescribes, surface_description hexposed⟩

end Surface

/-- Of a class in which nothing is repeated that is recognised, the stub has the surface of the
class, and stubs of the stub are stubs of the class. -/
theorem stubClass_of_stub {bytes stub : Bytes} {config : Config}
    (hrepeats : ∀ file, ClassFile.parse bytes = .ok file → file.NoneRepeats)
    (h : stubClass bytes config = .ok stub) :
    (∃ surface, readSurface bytes = .ok surface ∧ readSurface stub = .ok surface)
      ∧ (∀ other, stubClass stub other = stubClass bytes other)
      ∧ stubClass stub config = .ok stub := by
  obtain ⟨surface, hsurface, hstub⟩ := bind_eq_ok.1 h
  obtain ⟨file, hparse, hfile⟩ := bind_eq_ok.1 hsurface
  have hparse := mapError_eq_ok.1 hparse
  obtain ⟨description, hdescribes, rfl⟩ := ClassFile.surface_ok.1 hfile
  have hfits := hdescribes.fits (ClassFile.isParsed_of_parse hparse) (hrepeats file hparse)
  have hread := Surface.readSurface_toStub (Surface.isExposed_surface description) hfits.surface
    hstub
  have hsame : ∀ other, stubClass stub other = stubClass bytes other := by
    intro other
    unfold stubClass
    rw [hsurface, hread]
  exact ⟨⟨_, hsurface, hread⟩, hsame, (hsame config).trans h⟩

/-! ## A class with fields -/

theorem Pool.sound_ofSelfEnclosed :
    (Pool.ofClassA.push (.utf8 (.ofString "EnclosingMethod"))).Sound JavaText.IsWritable := by
  have hname : (JavaText.ofString "A").IsWritable := by decide
  have hkind : (JavaText.ofString "EnclosingMethod").IsWritable := by decide
  have hclass := (interns_addClass hname).grown sound_empty addClass_empty
  exact ((interns_addName hkind).grown hclass.1.sound addName_ofClassA).1.sound

/-- The class file of a public class `A` that is enclosed in itself and has fields. -/
def classWithFields (fields : List Member) : ClassFile :=
  { (Assembly.selfEnclosed .omit).build with fields }

theorem isWritable_selfEnclosed : (Assembly.selfEnclosed .omit).build.IsWritable :=
  ⟨rfl, Pool.sound_ofSelfEnclosed, by decide, by decide, by decide, by decide, nofun, nofun,
    by decide, by decide⟩

theorem parse_classWithFields {fields : List Member} (hcount : fields.length ≤ 65535)
    (hfields : ∀ member ∈ fields, member.attributes = []) :
    ClassFile.parse (classWithFields fields).toBytes = .ok (classWithFields fields).written := by
  have hclass := isWritable_selfEnclosed
  refine ClassFile.parse_toBytes { hclass with fields := hcount, fieldAttributes := ?_ }
  intro member hmember
  rw [hfields member hmember]
  exact ⟨by decide, nofun⟩

/-- The class has a private field. -/
def classWithPrivateField : ClassFile :=
  classWithFields [⟨⟨0x0002⟩, 1, 1, []⟩]

/-- The surface of the class, to which the field does not belong. -/
def surfaceOfClassA : Surface where
  header := Assembly.headerOfClassA
  enclosing := some { owner := "A" }
  nested := .ofList []
  annotations := .ofList []
  typeAnnotations := .ofList []
  fields := .ofList []
  methods := .ofList []

theorem parse_classWithPrivateField :
    ClassFile.parse classWithPrivateField.toBytes = .ok classWithPrivateField.written :=
  parse_classWithFields (by decide) fun member hmember => by
    rw [List.mem_singleton.1 hmember]

theorem readSurface_classWithPrivateField :
    readSurface classWithPrivateField.toBytes = .ok surfaceOfClassA :=
  bind_eq_ok.2 ⟨_, mapError_eq_ok.2 parse_classWithPrivateField, rfl⟩

theorem stubClass_classWithPrivateField :
    stubClass classWithPrivateField.toBytes ⟨.omit, false, true⟩ =
      .ok (Assembly.selfEnclosed .omit).build.toBytes := by
  refine bind_eq_ok.2 ⟨_, readSurface_classWithPrivateField, ?_⟩
  refine bind_eq_ok.2 ⟨(Assembly.selfEnclosed .omit).build, ?_, rfl⟩
  have hrun : ([.header Assembly.headerOfClassA, .enclosing { owner := "A" }, .finish].forM
      Assembly.visit).outcome (.start .omit) = (.ok (), Assembly.selfEnclosed .omit) :=
    Run.outcome_ok.2 (Run.forM_cons_ok.2 ⟨_, Assembly.visit_header_ofClassA .omit,
      Run.forM_cons_ok.2 ⟨_, rfl,
        Run.forM_cons_ok.2 ⟨_, Assembly.visit_finish_ofClassA .omit, rfl⟩⟩⟩)
  have hevents : surfaceOfClassA.events =
      [.header Assembly.headerOfClassA, .enclosing { owner := "A" }, .finish] := by
    simp [Surface.events, surfaceOfClassA, CanonicalSet.toList_ofList_nil]
  unfold Surface.assemble Surface.replay
  rw [hevents, hrun]
  rfl

/-- The private field is in neither surface, and the stub is its own stub. -/
theorem stubClass_of_selfEnclosed :
    (∃ surface, readSurface classWithPrivateField.toBytes = .ok surface
        ∧ readSurface (Assembly.selfEnclosed .omit).build.toBytes = .ok surface)
      ∧ (∀ other, stubClass (Assembly.selfEnclosed .omit).build.toBytes other =
        stubClass classWithPrivateField.toBytes other)
      ∧ stubClass (Assembly.selfEnclosed .omit).build.toBytes ⟨.omit, false, true⟩ =
        .ok (Assembly.selfEnclosed .omit).build.toBytes := by
  refine stubClass_of_stub ?_ stubClass_classWithPrivateField
  intro file hfile
  rw [parse_classWithPrivateField] at hfile
  cases hfile
  refine ⟨List.pairwise_singleton _ _, fun member hmember => ?_, nofun⟩
  cases List.mem_singleton.1 hmember
  exact .nil

end ClassStub
