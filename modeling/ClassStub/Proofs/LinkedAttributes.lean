import Mathlib.Data.List.Nodup
import ClassStub.Assembly
import ClassStub.Proofs.LinkedPools

/-! # Attributes that are written are accepted

The attributes that an assembly writes for a class, a field or a method have kinds that belong
there, each at most once, and their bodies name what they should. `Listed` says so of attributes as
a whole; what a verification then asks of the member besides is left over as a condition. -/

namespace ClassStub

open Verification

/-! ## Annotations -/

section Annotations

variable {given : Pool → Prop}

theorem links_anyList {α : Type} {encode : α → PoolM Bytes} {items : List α}
    (h : ∀ given, ∀ item ∈ items, Links given (encode item) fun _ _ => True) :
    Links given (encodeList encode items) fun _ _ => True :=
  (links_mapM h).bind fun _ => links_pure fun _ _ => trivial

theorem Annotation.links_encode (item : Annotation) : Links given item.encode fun _ _ => True := by
  refine (links_anyIndex (Pool.links_addName item.descriptor)).bind fun descriptor => ?_
  exact (ElementValue.links_encodePairsOnto [] item.elements).bind fun elements =>
    links_pure fun _ _ => trivial

theorem TypeAnnotation.links_encode (item : TypeAnnotation) :
    Links given item.encode fun _ _ => True :=
  item.content.links_encode.bind fun _ => links_pure fun _ _ => trivial

theorem ParameterTable.links_encode (table : ParameterTable) :
    Links given table.encode fun _ _ => True :=
  (links_mapM fun _ _ _ => links_anyList fun _ item _ => item.links_encode).bind fun _ =>
    links_pure fun _ _ => trivial

end Annotations

/-! ## Bodies with indexes -/

section Bodies

variable {given : Pool → Prop}

theorem links_exceptions (names : List String) :
    Links given
      (encodeList (fun name => ElementValue.indexBytes (Pool.addClass name)) names)
      fun later body => (verifyExceptions later body = .ok () ↔ names.length ≤ 65535)
        ∧ FailsOnly (· = .invalidAttribute .exceptions) (verifyExceptions later body) := by
  refine (links_encodeList fun _ name _ => links_indexBytes (Pool.links_addClass name)).mono ?_
  rintro later body ⟨rows, hlength, rfl, hrows⟩
  refine ⟨?_, failsOnly_verifyExceptions hrows⟩
  rw [verifyExceptions_ok]
  constructor
  · rintro ⟨exceptions, hcount, hbody, -⟩
    have hsame := congrArg List.length hbody
    simp only [Bytes.ofList, List.length_append, Bytes.length_ofUInt16,
      Bytes.length_flatMap_ofUInt16] at hsame
    omega
  · intro hcount
    exact ⟨rows, by omega, rfl, hrows⟩

theorem NestedLink.links_encode (link : NestedLink) :
    Links given link.encode fun later written =>
      ∃ row : NestedRow, written = row.toBytes ∧ row.Resolves later := by
  refine (links_indexBytes (Pool.links_addClass link.name)).bind fun name => ?_
  refine (links_indexBytes (Pool.links_addOptionalClass link.outerName)).bind fun outer => ?_
  refine (links_indexBytes (Pool.links_addOptionalName link.simpleName)).bind fun simple => ?_
  apply links_pure
  rintro later ⟨⟨⟨-, nameIndex, rfl, hname⟩, outerIndex, rfl, -, houter⟩, simpleIndex, rfl, hsimple⟩
  exact ⟨⟨nameIndex, outerIndex, simpleIndex, link.access.bits⟩, rfl, hname, houter, hsimple⟩

theorem links_nested {links : List NestedLink} (hcount : links.length ≤ 65535) :
    Links given (encodeList NestedLink.encode links) fun later body =>
      innerClassesValid later body := by
  refine (links_encodeList fun _ link _ => link.links_encode).mono ?_
  rintro later body ⟨rows, hlength, rfl, hrows⟩
  exact innerClassesValid_iff.2 ⟨rows, by omega, rfl, hrows⟩

theorem links_enclosing (link : EnclosingLink) :
    Links given
      (do
        let owner ← ElementValue.indexBytes (Pool.addClass link.owner)
        let method ← ElementValue.indexBytes <|
          match link.methodName, link.methodDescriptor with
          | some name, some descriptor => Pool.addNameAndType name descriptor
          | _, _ => pure 0
        return owner ++ method)
      fun later body => enclosingMethodValid later body := by
  have hmethod : ∀ given : Pool → Prop, Links given
      (match link.methodName, link.methodDescriptor with
        | some name, some descriptor => Pool.addNameAndType name descriptor
        | _, _ => pure 0)
      fun later index => later.hasOptional Constant.isNameAndType index := by
    intro given
    split
    · exact (Pool.links_addNameAndType _ _).mono fun _ _ h => Pool.hasOptional_iff.2 (.inr h)
    · exact links_pure fun _ _ => Pool.hasOptional_iff.2 (.inl rfl)
  refine (links_indexBytes (Pool.links_addClass link.owner)).bind fun owner => ?_
  refine (links_indexBytes (hmethod _)).bind fun method => links_pure ?_
  rintro later ⟨⟨-, ownerIndex, rfl, howner⟩, methodIndex, rfl, hmethod⟩
  exact enclosingMethodValid_iff.2 ⟨ownerIndex, methodIndex, rfl, howner, hmethod⟩

end Bodies

/-! ## Lists of attributes -/

namespace Attribute

/-- The body of an attribute names what it should, if its kind is one that is looked into. -/
def BodyFits (pool : Pool) (body : Bytes) : AttributeKind → Prop
  | .constantValue => verifyConstantValue pool body = .ok ()
  | .exceptions => verifyExceptions pool body = .ok ()
  | .innerClasses => innerClassesValid pool body
  | .enclosingMethod => enclosingMethodValid pool body
  | _ => True

/-- Attributes have kinds from a list, each at most as often as it is listed, and all of their
bodies fit under a condition. -/
structure Listed (kinds : List AttributeKind) (condition : Prop) (pool : Pool)
    (attributes : List Attribute) : Prop where
  kinds : ∃ present : List AttributeKind,
    attributes.map (·.kind? pool) = present.map some ∧ present.Sublist kinds
  bodies : (∀ item ∈ attributes, ∀ kind, item.kind? pool = some kind →
    BodyFits pool item.body kind) ↔ condition

theorem listed_nil {kinds : List AttributeKind} {pool : Pool} : Listed kinds True pool [] :=
  ⟨⟨[], rfl, List.nil_sublist _⟩, fun _ => trivial, fun _ _ h => (nomatch h)⟩

theorem listed_singleton {kind : AttributeKind} {condition : Prop} {pool : Pool} {item : Attribute}
    (hkind : item.kind? pool = some kind) (hbody : BodyFits pool item.body kind ↔ condition) :
    Listed [kind] condition pool [item] := by
  refine ⟨⟨[kind], congrArg (fun kind => [kind]) hkind, .refl _⟩, ?_⟩
  rw [← hbody]
  constructor
  · intro h
    exact h item List.mem_cons_self kind hkind
  · intro h other hother found hfound
    cases List.mem_singleton.1 hother
    rw [hkind] at hfound
    cases hfound
    exact h

namespace Listed

variable {kinds kinds' : List AttributeKind} {condition condition' : Prop} {pool : Pool}
  {attributes others : List Attribute}

theorem append (h : Listed kinds condition pool attributes)
    (h' : Listed kinds' condition' pool others) :
    Listed (kinds ++ kinds') (condition ∧ condition') pool (attributes ++ others) := by
  obtain ⟨present, hpresent, hsub⟩ := h.kinds
  obtain ⟨present', hpresent', hsub'⟩ := h'.kinds
  refine ⟨⟨present ++ present', ?_, hsub.append hsub'⟩, ?_⟩
  · rw [List.map_append, List.map_append, hpresent, hpresent']
  · rw [List.forall_mem_append, h.bodies, h'.bodies]

theorem weaken (h : Listed kinds condition pool attributes) (hkinds : kinds.Sublist kinds')
    (hcondition : condition ↔ condition') : Listed kinds' condition' pool attributes := by
  obtain ⟨present, hpresent, hsub⟩ := h.kinds
  exact ⟨⟨present, hpresent, hsub.trans hkinds⟩, h.bodies.trans hcondition⟩

/-- Every attribute has one of the kinds. -/
theorem exists_kind (h : Listed kinds condition pool attributes) {item : Attribute}
    (hitem : item ∈ attributes) : ∃ kind ∈ kinds, item.kind? pool = some kind := by
  obtain ⟨present, hpresent, hsub⟩ := h.kinds
  have hmem : item.kind? pool ∈ attributes.map (·.kind? pool) := List.mem_map_of_mem hitem
  rw [hpresent] at hmem
  obtain ⟨kind, hkind, hsome⟩ := List.mem_map.1 hmem
  exact ⟨kind, hsub.subset hkind, hsome.symm⟩

/-- An attribute of a known kind has one of the kinds, and its body fits under the condition. -/
theorem of_kind (h : Listed kinds condition pool attributes) (hcondition : condition)
    {item : Attribute} (hitem : item ∈ attributes) {kind : AttributeKind}
    (hkind : item.kind? pool = some kind) : kind ∈ kinds ∧ BodyFits pool item.body kind := by
  obtain ⟨found, hfound, hsame⟩ := h.exists_kind hitem
  rw [hkind] at hsame
  cases hsame
  exact ⟨hfound, h.bodies.2 hcondition item hitem kind hkind⟩

theorem name_isSome (h : Listed kinds condition pool attributes) {item : Attribute}
    (hitem : item ∈ attributes) : (item.name? pool).isSome := by
  obtain ⟨kind, -, hkind⟩ := h.exists_kind hitem
  unfold kind? at hkind
  cases hname : item.name? pool with
  | none =>
    rw [hname] at hkind
    cases hkind
  | some name => rfl

/-- No kind occurs twice. -/
theorem duplicateKind?_eq_none (h : Listed kinds condition pool attributes) (hkinds : kinds.Nodup)
    (unique : List AttributeKind) : duplicateKind? pool unique attributes = none := by
  obtain ⟨present, hpresent, hsub⟩ := h.kinds
  have hfound : attributes.filterMap (·.kind? pool) = present := by
    have hsome := congrArg (List.filterMap id) hpresent
    rwa [List.filterMap_map, List.filterMap_map, Function.id_comp, Function.id_comp,
      List.filterMap_some] at hsome
  rw [Verification.duplicateKind?_eq_none, hfound]
  intro kind _
  exact List.nodup_iff_count_le_one.1 (hsub.nodup hkinds) kind

end Listed

/-! ## Attributes that are written -/

section Written

variable {given : Pool → Prop}

theorem kind?_of_getName {pool : Pool} {item : Attribute} {kind : AttributeKind}
    (h : pool.getName item.name = .ok kind.name) : item.kind? pool = some kind := by
  unfold kind? name?
  rw [h]
  exact AttributeKind.ofName?_name kind

theorem links_named (kind : AttributeKind) (body : Bytes) :
    Links given (named kind body) fun later item =>
      item.kind? later = some kind ∧ item.body = body :=
  (Pool.links_addName kind.name).bind fun _ => links_pure fun _ hindex =>
    ⟨kind?_of_getName hindex.2, rfl⟩

theorem links_ofEncoded {kind : AttributeKind} {body : PoolM Bytes} {condition : Prop}
    (h : Links given body fun later written => BodyFits later written kind ↔ condition) :
    Links given (ofEncoded kind body) fun later item => Listed [kind] condition later [item] := by
  refine h.bind fun written => (links_named kind written).frame.mono ?_
  rintro later item ⟨⟨-, hbody⟩, hkind, rfl⟩
  exact listed_singleton hkind hbody

/-- Nothing is asked of the bodies of most kinds. -/
theorem links_ofAnything {kind : AttributeKind} {body : PoolM Bytes}
    (hkind : ∀ pool written, BodyFits pool written kind ↔ True)
    (h : Links given body fun _ _ => True) :
    Links given (ofEncoded kind body) fun later item => Listed [kind] True later [item] :=
  links_ofEncoded (h.mono fun later written _ => hkind later written)

theorem links_ofIndex {kind : AttributeKind} {index : PoolM UInt16}
    (h : Links given index fun later index => BodyFits later (Bytes.ofUInt16 index) kind) :
    Links given (do ofIndex kind (← index)) fun later item =>
      Listed [kind] True later [item] := by
  refine h.bind fun index => (links_named kind (Bytes.ofUInt16 index)).frame.mono ?_
  rintro later item ⟨⟨-, hbody⟩, hkind, hitem⟩
  rw [← hitem] at hbody
  exact listed_singleton hkind (iff_true_intro hbody)

theorem links_optional {α : Type} {value : Option α} {make : α → PoolM Attribute}
    {kind : AttributeKind}
    (h : ∀ found, Links given (make found) fun later item => Listed [kind] True later [item]) :
    Links given (optional value make) (Listed [kind] True) := by
  cases value with
  | none => exact links_pure fun _ _ => listed_nil
  | some found => exact (h found).bind fun _ => links_pure fun _ hitem => hitem.2

theorem links_unlessEmpty {α : Type} {items : List α} {make : List α → PoolM Attribute}
    {kind : AttributeKind} {condition : Prop} (hempty : items = [] → condition)
    (h : Links given (make items) fun later item => Listed [kind] condition later [item]) :
    Links given (unlessEmpty items make) (Listed [kind] condition) := by
  unfold unlessEmpty
  by_cases hitems : items.isEmpty
  · rw [if_pos hitems]
    have hcondition := hempty (List.isEmpty_iff.1 hitems)
    exact links_pure fun _ _ => listed_nil.weaken (.refl _) (iff_of_true trivial hcondition)
  · rw [if_neg hitems]
    exact h.bind fun _ => links_pure fun _ hitem => hitem.2

theorem links_markerIf {kind : AttributeKind} (wanted : Bool)
    (hkind : ∀ pool, BodyFits pool [] kind ↔ True) :
    Links given (markerIf wanted kind) (Listed [kind] True) := by
  unfold markerIf
  cases wanted with
  | false => exact links_pure fun _ _ => listed_nil
  | true =>
    refine (links_named kind []).bind fun item => links_pure ?_
    rintro later ⟨-, hitem, hbody⟩
    refine listed_singleton hitem ?_
    rw [hbody]
    exact hkind later

theorem links_common (signature : Option String) (deprecated synthetic : Bool) :
    Links given (common signature deprecated synthetic)
      (Listed [.signature, .deprecated, .synthetic] True) := by
  have hsignature : ∀ given : Pool → Prop, Links given
      (optional signature fun text => do ofIndex .signature (← Pool.addName text))
      (Listed [.signature] True) := fun _ =>
    links_optional fun text => links_ofIndex ((Pool.links_addName text).mono fun _ _ _ => trivial)
  refine (hsignature _).bind fun first => ?_
  refine (links_markerIf deprecated fun _ => Iff.rfl).bind fun second => ?_
  refine (links_markerIf synthetic fun _ => Iff.rfl).bind fun third => links_pure ?_
  rintro later ⟨⟨⟨-, hfirst⟩, hsecond⟩, hthird⟩
  exact ((hfirst.append hsecond).append hthird).weaken (.refl _) (by simp)

theorem links_append {first second : PoolM (List Attribute)} {kinds kinds' : List AttributeKind}
    {condition condition' : Prop} (hfirst : Links given first (Listed kinds condition))
    (hsecond : ∀ given, Links given second (Listed kinds' condition')) :
    Links given (do let items ← first; return items ++ (← second))
      (Listed (kinds ++ kinds') (condition ∧ condition')) := by
  refine hfirst.bind fun items => (hsecond _).bind fun others => links_pure ?_
  rintro later ⟨⟨-, hitems⟩, hothers⟩
  exact hitems.append hothers

/-- Items with a visibility make up the bodies of two attributes, if nothing is asked of them. -/
theorem links_visibilities {α : Type} {visible : α → Bool} {encode : α → PoolM Bytes}
    {kind : Bool → AttributeKind} (items : List α)
    (hkind : ∀ visibility pool written, BodyFits pool written (kind visibility) ↔ True)
    (h : ∀ given item, Links given (encode item) fun _ _ => True) :
    let writtenOf visibility := unlessEmpty (items.filter (visible · == visibility)) fun items =>
      ofEncoded (kind visibility) (encodeList encode items)
    Links given (do let shown ← writtenOf true; return shown ++ (← writtenOf false))
      (Listed [kind true, kind false] True) := by
  have hwritten : ∀ (visibility : Bool) (given : Pool → Prop), Links given
      (unlessEmpty (items.filter (visible · == visibility)) fun items =>
        ofEncoded (kind visibility) (encodeList encode items))
      (Listed [kind visibility] True) := fun visibility given =>
    links_unlessEmpty (fun _ => trivial) <|
      links_ofAnything (hkind visibility) (links_anyList fun given item _ => h given item)
  refine (links_append (hwritten true given) (hwritten false)).mono fun _ _ hlisted => ?_
  exact hlisted.weaken (.refl _) (by simp)

theorem links_annotations (items : List Annotation) :
    Links given (annotations items)
      (Listed [.visibleAnnotations, .invisibleAnnotations] True) :=
  links_visibilities items (fun visibility _ _ => by cases visibility <;> exact Iff.rfl)
    fun _ item => item.links_encode

theorem links_typeAnnotations (items : List TypeAnnotation) :
    Links given (typeAnnotations items)
      (Listed [.visibleTypeAnnotations, .invisibleTypeAnnotations] True) :=
  links_visibilities items (fun visibility _ _ => by cases visibility <;> exact Iff.rfl)
    fun _ item => item.links_encode

theorem links_parameterTable (visible : Bool) (table : Option ParameterTable) :
    Links given (parameterTable visible table) (Listed [.parameterAnnotations visible] True) := by
  refine links_optional fun found => links_ofAnything ?_ found.links_encode
  cases visible <;> exact fun _ _ => Iff.rfl

theorem links_ofExceptions (names : List String) :
    Links given (unlessEmpty names ofExceptions)
      (Listed [.exceptions] (names.length ≤ 65535)) := by
  refine links_unlessEmpty ?_ (links_ofEncoded ((links_exceptions names).mono fun _ _ h => h.1))
  rintro rfl
  exact Nat.zero_le _

/-- Whatever the number of exceptions, nothing but that number can be wrong with them. -/
theorem links_exceptionFaults (names : List String) :
    Links given (unlessEmpty names ofExceptions) fun later items =>
      ∀ item ∈ items, FailsOnly (· = .invalidAttribute .exceptions)
        (verifyExceptions later item.body) := by
  have hattribute : ∀ given : Pool → Prop, Links given (ofExceptions names) fun later item =>
      FailsOnly (· = .invalidAttribute .exceptions) (verifyExceptions later item.body) := by
    intro given
    refine (links_exceptions names).bind fun written => ?_
    refine (links_named .exceptions written).frame.mono ?_
    rintro later item ⟨⟨-, -, hfaults⟩, -, rfl⟩
    exact hfaults
  unfold unlessEmpty
  split
  · exact links_pure fun _ _ => nofun
  · refine (hattribute given).bind fun item => links_pure ?_
    rintro later ⟨-, hfaults⟩
    exact List.forall_mem_singleton.2 hfaults

/-- The attribute with a method's body, which an abstract or native method does not have. -/
theorem links_code (method : Method) (style : BodyStyle) :
    Links given
      (optional (method.stubCode style) fun code => named .code code.toBytes)
      (Listed (if method.access.isBodiless then [] else [.code]) True) := by
  by_cases hbodiless : method.access.isBodiless
  · have hcode : method.stubCode style = none := by
      unfold Method.stubCode
      exact if_pos hbodiless
    rw [if_pos hbodiless, hcode]
    exact links_pure fun _ _ => listed_nil
  · rw [if_neg hbodiless]
    refine links_optional fun code => (links_named .code code.toBytes).mono ?_
    rintro later item ⟨hitem, -⟩
    exact listed_singleton hitem Iff.rfl

theorem links_optionalEnclosing (link : Option EnclosingLink) :
    Links given (optional link enclosing) (Listed [.enclosingMethod] True) :=
  links_optional fun found => links_ofEncoded <|
    (links_enclosing found).mono fun _ _ hvalid => iff_true_intro hvalid

theorem links_unlessEmptyNested {links : List NestedLink} (hcount : links.length ≤ 65535) :
    Links given (unlessEmpty links nested) (Listed [.innerClasses] True) :=
  links_unlessEmpty (fun _ => trivial) <| links_ofEncoded <|
    (links_nested hcount).mono fun _ _ hvalid => iff_true_intro hvalid

end Written

end Attribute

/-! ## Members and classes -/

/-- The kinds of attributes that are written for a field. -/
def Field.writtenKinds : List AttributeKind :=
  [.constantValue, .signature, .deprecated, .synthetic, .visibleAnnotations, .invisibleAnnotations,
    .visibleTypeAnnotations, .invisibleTypeAnnotations]

/-- The kinds of attributes that are written for a method. -/
def Method.writtenKinds (bodiless : Bool) : List AttributeKind :=
  (if bodiless then [] else [.code]) ++ [.exceptions, .signature, .deprecated, .synthetic,
    .annotationDefault, .visibleAnnotations, .invisibleAnnotations, .visibleParameterAnnotations,
    .invisibleParameterAnnotations, .visibleTypeAnnotations, .invisibleTypeAnnotations]

theorem Method.nodup_writtenKinds : ∀ bodiless, (Method.writtenKinds bodiless).Nodup := by
  decide

/-- What is written for a method may stand there. -/
theorem Method.allowed_of_mem_writtenKinds : ∀ bodiless, ∀ kind ∈ Method.writtenKinds bodiless,
    kind ∉ [.constantValue, .innerClasses, .enclosingMethod]
      ∧ (kind = .code → bodiless = false) := by
  decide

/-- The kinds of attributes that are written for a class. -/
def ClassFile.writtenKinds : List AttributeKind :=
  [.signature, .deprecated, .synthetic, .enclosingMethod, .innerClasses, .visibleAnnotations,
    .invisibleAnnotations, .visibleTypeAnnotations, .invisibleTypeAnnotations]

/-- A fault that a field brings with it, however it is written. -/
def FieldFault.IsInherited (fault : FieldFault) : Prop :=
  ∃ access, fault = .invalidAccess access

/-- A fault that a method brings with it, however it is written. -/
def MethodFault.IsInherited (fault : MethodFault) : Prop :=
  (∃ access, fault = .invalidAccess access) ∨ fault = .invalidAttribute .exceptions

namespace Attribute.Listed

variable {pool : Pool} {member : Member} {condition : Prop}

/-- The attributes that are written for a field are accepted. -/
theorem verifyFieldAttribute_ok {attributes : List Attribute}
    (h : Listed Field.writtenKinds True pool attributes) {item : Attribute}
    (hitem : item ∈ attributes) : verifyFieldAttribute pool item = .ok () := by
  refine Verification.verifyFieldAttribute_ok.2 ⟨h.name_isSome hitem, fun kind hkind => ?_⟩
  obtain ⟨hlisted, hfits⟩ := h.of_kind trivial hitem hkind
  refine ⟨?_, fun hvalue => by rwa [hvalue] at hfits⟩
  exact (by decide : ∀ kind ∈ Field.writtenKinds, kind ∉ forbiddenOnField) kind hlisted

/-- A field with the attributes that are written for one is accepted if its access flags are. -/
theorem acceptsField (h : Listed Field.writtenKinds True pool member.attributes)
    (hname : pool.has Constant.isUtf8 member.name)
    (hdescriptor : pool.has Constant.isUtf8 member.descriptor) :
    AcceptsField pool member ↔ member.access.hasOneVisibility := by
  exact ⟨fun haccepts => haccepts.access, fun haccess =>
    ⟨hname, hdescriptor, haccess, h.duplicateKind?_eq_none (by decide) _,
      fun _ => h.verifyFieldAttribute_ok⟩⟩

/-- A field with the attributes that are written for one has no fault but its access flags. -/
theorem failsOnly_verifyField (h : Listed Field.writtenKinds True pool member.attributes)
    (hname : pool.has Constant.isUtf8 member.name)
    (hdescriptor : pool.has Constant.isUtf8 member.descriptor) :
    FailsOnly FieldFault.IsInherited (verifyField pool member) :=
  (Verification.failsOnly_verifyField hname hdescriptor (h.duplicateKind?_eq_none (by decide) _)
    fun _ => h.verifyFieldAttribute_ok).mono fun _ hfault => ⟨_, hfault⟩

/-- A method with the attributes that are written for one is accepted if its access flags and its
exceptions are. -/
theorem acceptsMethod
    (h : Listed (Method.writtenKinds member.access.isBodiless) condition pool member.attributes)
    (hname : pool.has Constant.isUtf8 member.name)
    (hdescriptor : pool.has Constant.isUtf8 member.descriptor) :
    AcceptsMethod pool member ↔ member.access.hasOneVisibility ∧ condition := by
  constructor
  · intro haccepts
    refine ⟨haccepts.access, h.bodies.1 fun item hitem kind hkind => ?_⟩
    obtain ⟨-, hverified⟩ := verifyMethodAttribute_ok.1 (haccepts.attributes item hitem)
    obtain ⟨hallowed, -, hexceptions⟩ := hverified kind hkind
    cases kind with
    | exceptions => exact hexceptions rfl
    | constantValue => exact absurd (by decide) hallowed
    | innerClasses => exact absurd (by decide) hallowed
    | enclosingMethod => exact absurd (by decide) hallowed
    | _ => trivial
  · rintro ⟨haccess, hcondition⟩
    refine ⟨haccess, hname, hdescriptor, h.duplicateKind?_eq_none (Method.nodup_writtenKinds _) _,
      fun item hitem => ?_⟩
    refine verifyMethodAttribute_ok.2 ⟨h.name_isSome hitem, fun kind hkind => ?_⟩
    obtain ⟨hlisted, hfits⟩ := h.of_kind hcondition hitem hkind
    obtain ⟨hallowed, hcode⟩ := Method.allowed_of_mem_writtenKinds _ kind hlisted
    exact ⟨hallowed, hcode, fun hexceptions => by rwa [hexceptions] at hfits⟩

/-- An attribute that is written for a method has no fault but those of its exceptions. -/
theorem failsOnly_verifyMethodAttribute {bodiless : Bool} {attributes : List Attribute}
    {allowed : MethodFault → Prop}
    (h : Listed (Method.writtenKinds bodiless) condition pool attributes)
    (hexceptions : ∀ item ∈ attributes, item.kind? pool = some .exceptions →
      FailsOnly allowed (verifyExceptions pool item.body))
    {item : Attribute} (hitem : item ∈ attributes) :
    FailsOnly allowed (verifyMethodAttribute pool bodiless item) := by
  obtain ⟨kind, hlisted, hkind⟩ := h.exists_kind hitem
  obtain ⟨hallowed, hcode⟩ := Method.allowed_of_mem_writtenKinds bodiless kind hlisted
  have hfaults := hexceptions item hitem
  rw [hkind] at hfaults
  obtain ⟨name, hname, hofName⟩ := Option.bind_eq_some_iff.1 hkind
  unfold verifyMethodAttribute
  rw [hname]
  dsimp only
  rw [hofName]
  cases kind with
  | code =>
    rw [hcode rfl]
    exact failsOnly_ok ()
  | exceptions => exact hfaults rfl
  | constantValue => exact absurd (by decide) hallowed
  | innerClasses => exact absurd (by decide) hallowed
  | enclosingMethod => exact absurd (by decide) hallowed
  | _ => exact failsOnly_ok ()

/-- No attribute has a kind that is not listed. -/
theorem kind?_ne_of_not_mem {kinds : List AttributeKind} {attributes : List Attribute}
    (h : Listed kinds condition pool attributes) {kind : AttributeKind} (hkind : kind ∉ kinds)
    {item : Attribute} (hitem : item ∈ attributes) : item.kind? pool ≠ some kind := by
  intro hsome
  obtain ⟨found, hfound, hsame⟩ := h.exists_kind hitem
  rw [hsome] at hsame
  cases hsame
  exact hkind hfound

/-- The attributes that are written for a class are accepted. -/
theorem verifyClassAttribute_ok {attributes : List Attribute}
    (h : Listed ClassFile.writtenKinds True pool attributes) {item : Attribute}
    (hitem : item ∈ attributes) : verifyClassAttribute pool item = .ok () := by
  refine Verification.verifyClassAttribute_ok.2 fun kind hkind => ?_
  obtain ⟨hlisted, hfits⟩ := h.of_kind trivial hitem hkind
  refine ⟨?_, fun hnested => by rwa [hnested] at hfits,
    fun henclosing => by rwa [henclosing] at hfits⟩
  exact (by decide : ∀ kind ∈ ClassFile.writtenKinds,
    kind ∉ [.code, .constantValue, .exceptions, .annotationDefault]) kind hlisted

end Attribute.Listed

section Members

variable {given : Pool → Prop}

/-- A field that is written is accepted if its access flags are, and they are its only fault. -/
theorem Field.links_encode (field : Field) :
    Links given field.encode fun later member =>
      (AcceptsField later member ↔ field.access.hasOneVisibility)
        ∧ FailsOnly FieldFault.IsInherited (verifyField later member) := by
  have hvalue : ∀ given : Pool → Prop, Links given
      (Attribute.optional field.value fun value => do
        Attribute.ofIndex .constantValue (← value.add))
      (Attribute.Listed [.constantValue] True) := fun _ =>
    Attribute.links_optional fun value => Attribute.links_ofIndex
      ((Pool.links_addConstantValue value).mono fun later index hindex =>
        verifyConstantValue_ok.2 ⟨index, rfl, hindex⟩)
  refine (Pool.links_addName field.name).bind fun name => ?_
  refine (Pool.links_addName field.descriptor).bind fun descriptor => ?_
  refine (hvalue _).bind fun value => ?_
  refine (Attribute.links_common _ _ _).bind fun common => ?_
  refine (Attribute.links_annotations _).bind fun annotations => ?_
  refine (Attribute.links_typeAnnotations _).bind fun types => links_pure ?_
  rintro later ⟨⟨⟨⟨⟨⟨-, hname⟩, hdescriptor⟩, hvalue⟩, hcommon⟩, hannotations⟩, htypes⟩
  have hlisted := ((hvalue.append hcommon).append hannotations).append htypes
  have hwritten : Attribute.Listed Field.writtenKinds True later
      (value ++ common ++ annotations ++ types) := hlisted.weaken (.refl _) (by simp)
  have hname := Pool.has_of_getName hname
  have hdescriptor := Pool.has_of_getName hdescriptor
  constructor
  · exact Attribute.Listed.acceptsField hwritten hname hdescriptor
  · exact Attribute.Listed.failsOnly_verifyField hwritten hname hdescriptor

/-- A method that is written is accepted if its access flags are and its exceptions can be
counted, and nothing else can be wrong with it. -/
theorem Method.links_encode (method : Method) (style : BodyStyle) :
    Links given (method.encode style) fun later member =>
      (AcceptsMethod later member ↔
          method.access.hasOneVisibility ∧ method.exceptions.length ≤ 65535)
        ∧ FailsOnly MethodFault.IsInherited (verifyMethod later member) := by
  have hdefault : ∀ given : Pool → Prop, Links given
      (Attribute.optional method.defaultValue fun value =>
        Attribute.ofEncoded .annotationDefault value.encode)
      (Attribute.Listed [.annotationDefault] True) := fun _ =>
    Attribute.links_optional fun value =>
      Attribute.links_ofAnything (fun _ _ => Iff.rfl) value.links_encode
  refine (Pool.links_addName method.name).bind fun name => ?_
  refine (Pool.links_addName method.descriptor).bind fun descriptor => ?_
  refine (Attribute.links_code method style).bind fun code => ?_
  refine ((Attribute.links_ofExceptions _).and (Attribute.links_exceptionFaults _)).bind
    fun exceptions => ?_
  refine (Attribute.links_common _ _ _).bind fun common => (hdefault _).bind fun default => ?_
  refine (Attribute.links_annotations _).bind fun annotations => ?_
  refine (Attribute.links_parameterTable true _).bind fun visible => ?_
  refine (Attribute.links_parameterTable false _).bind fun invisible => ?_
  refine (Attribute.links_typeAnnotations _).bind fun types => links_pure ?_
  rintro later ⟨⟨⟨⟨⟨⟨⟨⟨⟨⟨-, hname⟩, hdescriptor⟩, hcode⟩, hexceptions, hfaults⟩, hcommon⟩,
    hdefault⟩, hannotations⟩, hvisible⟩, hinvisible⟩, htypes⟩
  have hlisted := ((((((hcode.append hexceptions).append hcommon).append hdefault).append
    hannotations).append hvisible).append hinvisible).append htypes
  have hwritten : Attribute.Listed (Method.writtenKinds method.access.isBodiless)
      (method.exceptions.length ≤ 65535) later
      (code ++ exceptions ++ common ++ default ++ annotations ++ visible ++ invisible ++ types) :=
    hlisted.weaken (by simp [Method.writtenKinds, AttributeKind.parameterAnnotations]) (by simp)
  have hname := Pool.has_of_getName hname
  have hdescriptor := Pool.has_of_getName hdescriptor
  refine ⟨Attribute.Listed.acceptsMethod hwritten hname hdescriptor, ?_⟩
  refine Verification.failsOnly_verifyMethod (.inl ⟨_, rfl⟩) hname hdescriptor
    (hwritten.duplicateKind?_eq_none (Method.nodup_writtenKinds _) _) fun item hitem => ?_
  refine hwritten.failsOnly_verifyMethodAttribute (fun other hother hkind => ?_) hitem
  -- Of the lists that were put together, only one has attributes of this kind.
  simp only [List.mem_append, or_assoc] at hother
  rcases hother with hother | hother | hother | hother | hother | hother | hother | hother
  · exact absurd hkind (hcode.kind?_ne_of_not_mem (by split <;> decide) hother)
  · exact (hfaults other hother).mono fun _ => .inr
  · exact absurd hkind (hcommon.kind?_ne_of_not_mem (by decide) hother)
  · exact absurd hkind (hdefault.kind?_ne_of_not_mem (by decide) hother)
  · exact absurd hkind (hannotations.kind?_ne_of_not_mem (by decide) hother)
  · exact absurd hkind (hvisible.kind?_ne_of_not_mem (by decide) hother)
  · exact absurd hkind (hinvisible.kind?_ne_of_not_mem (by decide) hother)
  · exact absurd hkind (htypes.kind?_ne_of_not_mem (by decide) hother)

end Members

end ClassStub
