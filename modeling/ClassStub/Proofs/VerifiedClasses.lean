import ClassStub.Proofs.ReachablePools
import ClassStub.Proofs.VerifiedBodies

/-! # Class files that are accepted

What each part of a verification finds out, as one statement for each check: a pool, an attribute
at each of its places, a field, a method, and from these the class file as a whole. -/

namespace ClassStub

/-! ## Pools -/

namespace Pool

variable {pool : Pool}

/-- Every reference of a constant names a constant of the kind that it needs. -/
def Linked (pool : Pool) : Prop :=
  ∀ constant, .entry constant ∈ pool.slots →
    ∀ reference ∈ constant.references, pool.has reference.2 reference.1

theorem Sound.laidOut {texts : JavaText → Prop} (h : pool.Sound texts) : LaidOut pool.slots := by
  obtain ⟨constants, hslots, -⟩ := h.layout
  exact ⟨constants, hslots⟩

/-- A constant that is found in a linked pool has references that resolve. -/
theorem Linked.get (h : pool.Linked) {index : UInt16} {constant : Constant}
    (hget : pool.get index = .ok constant) :
    ∀ reference ∈ constant.references, pool.has reference.2 reference.1 :=
  h constant (Array.mem_of_getElem? (get_ok.1 hget).2)

end Pool

namespace Verification

variable {pool : Pool}

/-- The slots of constants are accepted. -/
theorem verifySlots_flatMap (constants : List Constant) (position : Nat) :
    verifySlots false position (constants.flatMap Pool.slotsOf) = .ok () := by
  induction constants generalizing position with
  | nil => rfl
  | cons constant constants ih =>
    rw [List.flatMap_cons, Pool.slotsOf]
    by_cases hwide : constant.isWide
    · rw [if_pos hwide]
      change verifySlots constant.isWide (position + 1) (.upperHalf :: _) = _
      rw [hwide]
      exact ih (position + 2)
    · rw [if_neg hwide]
      change verifySlots constant.isWide (position + 1) _ = _
      rw [Bool.eq_false_of_not_eq_true hwide]
      exact ih (position + 1)

theorem verifyReference_ok {owner : UInt16} {reference : UInt16 × (Constant → Bool)} :
    verifyReference pool owner reference = .ok () ↔ pool.has reference.2 reference.1 :=
  Pool.check_ok

theorem verifyReferences_ok {position : Nat} {slots : List Slot} :
    verifyReferences pool position slots = .ok () ↔
      ∀ constant, .entry constant ∈ slots →
        ∀ reference ∈ constant.references, pool.has reference.2 reference.1 := by
  induction slots generalizing position with
  | nil => exact ⟨fun _ _ h => (nomatch h), fun _ => rfl⟩
  | cons slot slots ih =>
    cases slot with
    | upperHalf =>
      rw [verifyReferences, ih]
      simp
    | entry first =>
      rw [verifyReferences, check_bind_eq_ok, ih, forM_eq_ok]
      simp only [verifyReference_ok, List.mem_cons, Slot.entry.injEq]
      constructor
      · rintro ⟨hfirst, hrest⟩ constant (rfl | hconstant)
        · exact hfirst
        · exact hrest constant hconstant
      · intro h
        exact ⟨h first (.inl rfl), fun constant hconstant => h constant (.inr hconstant)⟩

/-- A pool is accepted if all references resolve, as its slots are never out of order. -/
theorem verifyPool_ok (h : Pool.LaidOut pool.slots) : verifyPool pool = .ok () ↔ pool.Linked := by
  obtain ⟨constants, hslots⟩ := h
  have hlayout : verifySlots false 0 pool.slots.toList = .ok () := by
    rw [hslots, verifySlots_flatMap]
  unfold verifyPool Pool.Linked
  rw [hlayout]
  simp only [← Array.mem_toList_iff]
  exact verifyReferences_ok

/-! ## Attributes -/

variable {item : Attribute}

theorem duplicateKind?_eq_none {kinds : List AttributeKind} {attributes : List Attribute} :
    duplicateKind? pool kinds attributes = none ↔
      ∀ kind ∈ kinds, (attributes.filterMap (·.kind? pool)).count kind ≤ 1 := by
  unfold duplicateKind?
  simp

theorem verifyAttributeName_ok :
    verifyAttributeName pool item = .ok () ↔ (item.name? pool).isSome := by
  unfold verifyAttributeName
  by_cases hname : (item.name? pool).isSome
  · simp [hname]
  · simp [hname]

/-- An attribute is in its place on a field. -/
theorem verifyFieldAttribute_ok : verifyFieldAttribute pool item = .ok () ↔
    (item.name? pool).isSome ∧ ∀ kind, item.kind? pool = some kind →
      kind ∉ forbiddenOnField
        ∧ (kind = .constantValue → verifyConstantValue pool item.body = .ok ()) := by
  unfold verifyFieldAttribute Attribute.kind?
  cases item.name? pool with
  | none => simp
  | some name =>
    simp only [Option.isSome_some, Option.bind_some, true_and]
    cases AttributeKind.ofName? name with
    | none => simp
    | some kind =>
      by_cases hkind : kind = .constantValue
      · subst hkind
        simp [forbiddenOnField]
      · by_cases hforbidden : kind ∈ forbiddenOnField
        · simp [hkind, hforbidden]
        · simp [hkind, hforbidden]

/-- An attribute is in its place on a method. -/
theorem verifyMethodAttribute_ok {bodiless : Bool} :
    verifyMethodAttribute pool bodiless item = .ok () ↔
      (item.name? pool).isSome ∧ ∀ kind, item.kind? pool = some kind →
        kind ∉ [.constantValue, .innerClasses, .enclosingMethod]
          ∧ (kind = .code → bodiless = false)
          ∧ (kind = .exceptions → verifyExceptions pool item.body = .ok ()) := by
  unfold verifyMethodAttribute Attribute.kind?
  cases item.name? pool with
  | none => simp
  | some name =>
    simp only [Option.isSome_some, Option.bind_some, true_and]
    cases AttributeKind.ofName? name with
    | none => simp
    | some kind => cases kind <;> simp

/-- An attribute is in its place on a class. -/
theorem verifyClassAttribute_ok : verifyClassAttribute pool item = .ok () ↔
    ∀ kind, item.kind? pool = some kind →
      kind ∉ [.code, .constantValue, .exceptions, .annotationDefault]
        ∧ (kind = .innerClasses → innerClassesValid pool item.body)
        ∧ (kind = .enclosingMethod → enclosingMethodValid pool item.body) := by
  unfold verifyClassAttribute
  cases item.kind? pool with
  | none => simp
  | some kind => cases kind <;> simp

/-! ## Fields, methods and classes -/

theorem verifyFieldText_ok {index : UInt16} :
    verifyFieldText pool index = .ok () ↔ pool.has Constant.isUtf8 index :=
  Pool.check_ok

/-- What a field needs in order to be accepted. -/
@[mk_iff]
structure AcceptsField (pool : Pool) (field : Member) : Prop where
  name : pool.has Constant.isUtf8 field.name
  descriptor : pool.has Constant.isUtf8 field.descriptor
  access : field.access.hasOneVisibility
  unique : duplicateKind? pool [.constantValue, .signature] field.attributes = none
  attributes : ∀ item ∈ field.attributes, verifyFieldAttribute pool item = .ok ()

theorem verifyField_ok {field : Member} :
    verifyField pool field = .ok () ↔ AcceptsField pool field := by
  unfold verifyField
  simp only [check_bind_eq_ok, ite_throw_eq_ok, verifyFieldText_ok, acceptsField_iff,
    Bool.not_eq_true', Bool.not_eq_false]
  cases duplicateKind? pool [.constantValue, .signature] field.attributes with
  | none => simp only [forM_eq_ok, true_and]
  | some kind => simp

/-- What a method needs in order to be accepted. -/
@[mk_iff]
structure AcceptsMethod (pool : Pool) (method : Member) : Prop where
  access : method.access.hasOneVisibility
  name : pool.has Constant.isUtf8 method.name
  descriptor : pool.has Constant.isUtf8 method.descriptor
  unique : duplicateKind? pool uniqueOnMethod method.attributes = none
  attributes : ∀ item ∈ method.attributes,
    verifyMethodAttribute pool method.access.isBodiless item = .ok ()

theorem verifyMethod_ok {method : Member} :
    verifyMethod pool method = .ok () ↔ AcceptsMethod pool method := by
  unfold verifyMethod
  simp only [check_bind_eq_ok, ite_throw_eq_ok, verifyMethodIndex_ok, acceptsMethod_iff,
    Bool.not_eq_true', Bool.not_eq_false]
  cases duplicateKind? pool uniqueOnMethod method.attributes with
  | none => simp only [forM_eq_ok, true_and]
  | some kind => simp

/-- The access flags are the only fault of a field that would be accepted with others. -/
theorem failsOnly_verifyField {field : Member} (hname : pool.has Constant.isUtf8 field.name)
    (hdescriptor : pool.has Constant.isUtf8 field.descriptor)
    (hunique : duplicateKind? pool [.constantValue, .signature] field.attributes = none)
    (hattributes : ∀ item ∈ field.attributes, verifyFieldAttribute pool item = .ok ()) :
    FailsOnly (· = .invalidAccess field.access) (verifyField pool field) := by
  unfold verifyField
  rw [verifyFieldText_ok.2 hname, verifyFieldText_ok.2 hdescriptor, hunique,
    forM_eq_ok.2 hattributes]
  by_cases haccess : field.access.hasOneVisibility
  · rw [haccess]
    exact failsOnly_ok ()
  · rw [Bool.eq_false_of_not_eq_true haccess]
    exact failsOnly_error rfl

/-- A method whose name and descriptor are in order has faults only in its access flags and its
attributes. -/
theorem failsOnly_verifyMethod {method : Member} {allowed : MethodFault → Prop}
    (haccess : allowed (.invalidAccess method.access))
    (hname : pool.has Constant.isUtf8 method.name)
    (hdescriptor : pool.has Constant.isUtf8 method.descriptor)
    (hunique : duplicateKind? pool uniqueOnMethod method.attributes = none)
    (hattributes : ∀ item ∈ method.attributes,
      FailsOnly allowed (verifyMethodAttribute pool method.access.isBodiless item)) :
    FailsOnly allowed (verifyMethod pool method) := by
  unfold verifyMethod
  rw [verifyMethodIndex_ok.2 hname, verifyMethodIndex_ok.2 hdescriptor, hunique]
  by_cases hvisibility : method.access.hasOneVisibility
  · rw [hvisibility]
    exact failsOnly_forM hattributes
  · rw [Bool.eq_false_of_not_eq_true hvisibility]
    exact failsOnly_error haccess

/-- What the attributes of a class need in order to be accepted, those of its members included. -/
@[mk_iff]
structure AcceptsAttributes (file : ClassFile) : Prop where
  names : ∀ item ∈ file.attributes, (item.name? file.pool).isSome
  memberNames : ∀ member ∈ file.fields ++ file.methods, ∀ item ∈ member.attributes,
    (item.name? file.pool).isSome
  unique : duplicateKind? file.pool uniqueOnClass file.attributes = none
  attributes : ∀ item ∈ file.attributes, verifyClassAttribute file.pool item = .ok ()

theorem verifyAttributes_ok {file : ClassFile} :
    verifyAttributes file = .ok () ↔ AcceptsAttributes file := by
  have hnames : ((file.attributes ++ (file.fields ++ file.methods).flatMap (·.attributes)).forM
      (verifyAttributeName file.pool)) = .ok () ↔
        (∀ item ∈ file.attributes, (item.name? file.pool).isSome)
          ∧ ∀ member ∈ file.fields ++ file.methods, ∀ item ∈ member.attributes,
            (item.name? file.pool).isSome := by
    rw [forM_eq_ok, List.forall_mem_append, List.forall_mem_flatMap]
    simp only [verifyAttributeName_ok]
  unfold verifyAttributes
  simp only [check_bind_eq_ok, hnames, acceptsAttributes_iff, and_assoc]
  cases duplicateKind? file.pool uniqueOnClass file.attributes with
  | none => simp only [forM_eq_ok, true_and]
  | some kind => simp

theorem verifyClassIndex_ok {index : UInt16} :
    verifyClassIndex pool index = .ok () ↔ pool.has Constant.isClassRef index :=
  Pool.check_ok

theorem verifySuperClass_ok {file : ClassFile} : verifySuperClass file = .ok () ↔
    if file.superClass = 0 then file.access.isInterface = false
    else file.pool.has Constant.isClassRef file.superClass := by
  unfold verifySuperClass
  by_cases hzero : file.superClass = 0
  · by_cases hinterface : file.access.isInterface
    · simp [hzero, hinterface]
    · simp [hzero, hinterface]
  · rw [if_neg hzero, if_neg hzero]
    exact verifyClassIndex_ok

end Verification

open Verification

/-- What a class file needs in order to be accepted. -/
@[mk_iff]
structure ClassFile.IsAccepted (file : ClassFile) : Prop where
  linked : file.pool.Linked
  thisClass : file.pool.has Constant.isClassRef file.thisClass
  superClass : verifySuperClass file = .ok ()
  interfaces : ∀ index ∈ file.interfaces, file.pool.has Constant.isClassRef index
  fields : ∀ field ∈ file.fields, AcceptsField file.pool field
  methods : ∀ method ∈ file.methods, AcceptsMethod file.pool method
  attributes : AcceptsAttributes file

/-- A verification accepts exactly the class files whose parts it accepts. -/
theorem ClassFile.verify_ok {file : ClassFile} (h : Pool.LaidOut file.pool.slots) :
    file.verify = .ok () ↔ file.IsAccepted := by
  unfold verify verifyFields verifyMethods
  simp only [check_bind_eq_ok, mapError_eq_ok, verifyPool_ok h, verifyClassIndex_ok, forM_eq_ok,
    verifyField_ok, verifyMethod_ok, verifyAttributes_ok, isAccepted_iff]

end ClassStub
