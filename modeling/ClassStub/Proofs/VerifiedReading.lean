import ClassStub.Proofs.VerifiedClasses

/-! # Accepted classes are read

A class file that a verification accepts is parsed from its bytes, and a replay of it finds
everything that it looks up: every index that it follows was checked. Excepted are the attributes
into which a verification does not look although they are decoded, and names that no string spells,
which a verification does not tell from others. -/

namespace ClassStub

/-! ## Look-ups -/

namespace Pool

variable {pool : Pool} {index : UInt16}

/-- All references of a pool resolve, and all of its texts can be names. -/
structure Resolves (pool : Pool) : Prop where
  linked : pool.Linked
  named : ∀ index text, pool.get index = .ok (.utf8 text) → text.toString?.isSome

namespace Resolves

theorem getText (h : pool.has Constant.isUtf8 index) : ∃ text, pool.getText index = .ok text := by
  obtain ⟨constant, hget, hutf8⟩ := has_iff.1 h
  cases constant with
  | utf8 text => exact ⟨text, getText_ok.2 hget⟩
  | _ => cases hutf8

variable (hpool : pool.Resolves)

include hpool

theorem getName (h : pool.has Constant.isUtf8 index) : ∃ name, pool.getName index = .ok name := by
  obtain ⟨text, htext⟩ := getText h
  have hget := getText_ok.1 htext
  obtain ⟨name, hname⟩ := Option.isSome_iff_exists.1 (hpool.named index text hget)
  rw [← JavaText.ofString_of_toString? hname] at hget
  exact ⟨name, getName_ok.2 hget⟩

theorem getClassName (h : pool.has Constant.isClassRef index) :
    ∃ name, pool.getClassName index = .ok name := by
  obtain ⟨constant, hget, hclass⟩ := has_iff.1 h
  cases constant with
  | classRef text =>
    obtain ⟨name, hname⟩ := hpool.getName (hpool.linked.get hget _ List.mem_cons_self)
    exact ⟨name, getClassName_ok.2 ⟨text, hget, hname⟩⟩
  | _ => cases hclass

theorem getNameAndType (h : pool.has Constant.isNameAndType index) :
    ∃ result, pool.getNameAndType index = .ok result := by
  obtain ⟨constant, hget, hpair⟩ := has_iff.1 h
  cases constant with
  | nameAndType first second =>
    have hlinked := hpool.linked.get hget
    obtain ⟨name, hname⟩ := hpool.getName (hlinked _ List.mem_cons_self)
    obtain ⟨descriptor, hdescriptor⟩ :=
      hpool.getName (hlinked _ (List.mem_cons_of_mem _ List.mem_cons_self))
    exact ⟨(name, descriptor), getNameAndType_ok.2 ⟨first, second, hget, hname, hdescriptor⟩⟩
  | _ => cases hpair

theorem getOptionalClassName (h : pool.hasOptional Constant.isClassRef index) :
    ∃ name, pool.getOptionalClassName index = .ok name := by
  unfold Pool.getOptionalClassName
  by_cases hindex : index = 0
  · exact ⟨none, if_pos hindex⟩
  · obtain ⟨name, hname⟩ := hpool.getClassName ((hasOptional_iff.1 h).resolve_left hindex)
    rw [if_neg hindex, hname]
    exact ⟨some name, rfl⟩

theorem getOptionalName (h : pool.hasOptional Constant.isUtf8 index) :
    ∃ name, pool.getOptionalName index = .ok name := by
  unfold Pool.getOptionalName
  by_cases hindex : index = 0
  · exact ⟨none, if_pos hindex⟩
  · obtain ⟨name, hname⟩ := hpool.getName ((hasOptional_iff.1 h).resolve_left hindex)
    rw [if_neg hindex, hname]
    exact ⟨some name, rfl⟩

theorem findConstantValue (h : pool.has Constant.isConstantValue index) :
    ∃ value, Statement.findConstantValue pool index = .ok value := by
  obtain ⟨constant, hget, hvalue⟩ := has_iff.1 h
  unfold Statement.findConstantValue
  rw [hget]
  cases constant with
  | integer value => exact ⟨_, rfl⟩
  | float bits => exact ⟨_, rfl⟩
  | long value => exact ⟨_, rfl⟩
  | double bits => exact ⟨_, rfl⟩
  | string text =>
    obtain ⟨found, hfound⟩ := getText (hpool.linked.get hget _ List.mem_cons_self)
    refine ⟨.string found, ?_⟩
    exact bind_eq_ok.2 ⟨_, rfl, bind_eq_ok.2 ⟨found, hfound, rfl⟩⟩
  | _ => cases hvalue

end Resolves

end Pool

/-! ## Bodies -/

theorem ElementValue.reads_decodeIndexed {α : Type} {find : UInt16 → Except PoolError α}
    {index : UInt16} {value : α} (h : find index = .ok value) :
    (decodeIndexed find).Reads (Bytes.ofUInt16 index) value :=
  (Decoder.reads_u2 index).last (Decoder.reads_lookup h)

theorem Decoder.exists_reads_ofList {α β : Type} {write : α → Bytes} {decoder : Decoder β}
    {rows : List α} (hcount : rows.length ≤ 65535)
    (h : ∀ row ∈ rows, ∃ item, decoder.Reads (write row) item) :
    ∃ items, (Decoder.counted decoder).Reads (Bytes.ofList write rows) items := by
  obtain ⟨items, hitems⟩ := exists_forall₂ h
  have hlength := hitems.length_eq
  have hreads := Decoder.reads_counted (List.forall₂_map_left_iff.2 hitems) (hlength ▸ hcount)
  rw [← hlength] at hreads
  exact ⟨items, hreads⟩

namespace Statement

open Verification

variable {pool : Pool} {body : Bytes} (hpool : pool.Resolves)

include hpool

theorem decodeEnclosing_of_valid (h : enclosingMethodValid pool body) :
    ∃ link, (decodeEnclosing pool).decode body = .ok link := by
  obtain ⟨owner, method, rfl, howner, hmethod⟩ := enclosingMethodValid_iff.1 h
  obtain ⟨name, hname⟩ := hpool.getClassName howner
  have hreads := ElementValue.reads_decodeIndexed hname
  by_cases hzero : method = 0
  · refine ⟨{ owner := name }, (hreads.bind ((Decoder.reads_u2 method).last ?_)).decode⟩
    rw [if_pos hzero]
    exact Decoder.reads_pure _
  · have hhas := (Pool.hasOptional_iff.1 hmethod).resolve_left hzero
    obtain ⟨pair, hpair⟩ := hpool.getNameAndType hhas
    refine ⟨⟨name, some pair.1, some pair.2⟩,
      (hreads.bind ((Decoder.reads_u2 method).last ?_)).decode⟩
    rw [if_neg hzero]
    exact (Decoder.reads_lookup hpair).map fun pair =>
      EnclosingLink.mk name (some pair.1) (some pair.2)

theorem decodeNested_of_resolves {row : NestedRow} (h : row.Resolves pool) :
    ∃ link, (decodeNested pool).Reads row.toBytes link := by
  obtain ⟨name, hname⟩ := hpool.getClassName h.name
  obtain ⟨outer, houter⟩ := hpool.getOptionalClassName h.outer
  obtain ⟨simple, hsimple⟩ := hpool.getOptionalName h.simple
  refine ⟨⟨name, outer, simple, ⟨row.access⟩⟩, ?_⟩
  have haccess := (Decoder.reads_u2 row.access).map fun access =>
    NestedLink.mk name outer simple ⟨access⟩
  exact (ElementValue.reads_decodeIndexed hname).bind
    ((ElementValue.reads_decodeIndexed houter).bind
      ((ElementValue.reads_decodeIndexed hsimple).bind haccess))

theorem decodeNestedList_of_valid (h : innerClassesValid pool body) :
    ∃ links, (Decoder.counted (decodeNested pool)).decode body = .ok links := by
  obtain ⟨rows, hcount, rfl, hrows⟩ := innerClassesValid_iff.1 h
  obtain ⟨links, hlinks⟩ := Decoder.exists_reads_ofList hcount fun row hrow =>
    decodeNested_of_resolves hpool (hrows row hrow)
  exact ⟨links, hlinks.decode⟩

theorem decodeExceptions_of_verified (h : verifyExceptions pool body = .ok ()) :
    ∃ names, (Decoder.counted (ElementValue.decodeIndexed pool.getClassName)).decode body =
      .ok names := by
  obtain ⟨exceptions, hcount, rfl, hexceptions⟩ := verifyExceptions_ok.1 h
  obtain ⟨names, hnames⟩ := Decoder.exists_reads_ofList hcount fun index hindex => by
    obtain ⟨name, hname⟩ := hpool.getClassName (hexceptions index hindex)
    exact ⟨name, ElementValue.reads_decodeIndexed hname⟩
  exact ⟨names, hnames.decode⟩

theorem decodeConstantValue_of_verified (h : verifyConstantValue pool body = .ok ()) :
    ∃ statement, decodeKind pool body .onField .constantValue = .ok statement := by
  obtain ⟨index, rfl, hindex⟩ := verifyConstantValue_ok.1 h
  obtain ⟨value, hvalue⟩ := hpool.findConstantValue hindex
  have hsole : soleIndex .constantValue (Bytes.ofUInt16 index) = .ok index := by
    rw [soleIndex, if_pos (Bytes.length_ofUInt16 index), Bytes.toNat_ofUInt16, Nat.toUInt16_eq,
      UInt16.ofNat_toNat]
  exact ⟨.constantValue value, bind_eq_ok.2 ⟨index, hsole,
    bind_eq_ok.2 ⟨value, mapError_eq_ok.2 hvalue, rfl⟩⟩⟩

end Statement

/-! ## Attributes -/

/-- The attributes into which a verification does not look, although they are decoded. -/
def AttributeKind.uninspected : List AttributeKind :=
  [signature, annotationDefault, visibleAnnotations, invisibleAnnotations,
    visibleParameterAnnotations, invisibleParameterAnnotations, visibleTypeAnnotations,
    invisibleTypeAnnotations]

/-- The attribute is none into which a verification does not look although it is decoded. -/
def Attribute.IsInspected (pool : Pool) (item : Attribute) : Prop :=
  ∀ kind ∈ AttributeKind.uninspected, item.kind? pool ≠ some kind

instance (pool : Pool) (item : Attribute) : Decidable (item.IsInspected pool) :=
  inferInstanceAs (Decidable (∀ kind ∈ _, _))

namespace Statement

open Verification

variable {pool : Pool} {body : Bytes} {kind : AttributeKind} {item : Attribute}

theorem exists_decodeShared (pool : Pool) (body : Bytes) (h : kind ∉ AttributeKind.uninspected) :
    ∃ statement, decodeShared pool body kind = .ok statement := by
  cases kind with
  | deprecated => exact ⟨.deprecated, rfl⟩
  | synthetic => exact ⟨.synthetic, rfl⟩
  | code => exact ⟨.skipped, rfl⟩
  | constantValue => exact ⟨.skipped, rfl⟩
  | exceptions => exact ⟨.skipped, rfl⟩
  | innerClasses => exact ⟨.skipped, rfl⟩
  | enclosingMethod => exact ⟨.skipped, rfl⟩
  | _ => exact absurd (by decide) h

/-- An attribute with a name is decoded if it is one that is not known, or is decoded as what it
is. -/
theorem exists_decode {place : AttributePlace} (hname : (item.name? pool).isSome)
    (h : ∀ kind, item.kind? pool = some kind →
      ∃ statement, decodeKind pool item.body place kind = .ok statement) :
    ∃ statement, decode pool place item = .ok statement := by
  unfold Attribute.kind? Attribute.name? at *
  cases hget : pool.getName item.name with
  | error cause =>
    rw [hget] at hname
    cases hname
  | ok name =>
    rw [hget] at h
    unfold decode resolve
    rw [hget]
    cases hkind : AttributeKind.ofName? name with
    | none =>
      refine ⟨.skipped, bind_eq_ok.2 ⟨name, rfl, ?_⟩⟩
      rw [hkind]
    | some kind =>
      obtain ⟨statement, hstatement⟩ := h kind hkind
      refine ⟨statement, bind_eq_ok.2 ⟨name, rfl, ?_⟩⟩
      rw [hkind]
      exact hstatement

variable (hpool : pool.Resolves) (hinspected : item.IsInspected pool)

include hpool hinspected

theorem exists_decode_onClass (hname : (item.name? pool).isSome)
    (h : verifyClassAttribute pool item = .ok ()) :
    ∃ statement, decode pool .onClass item = .ok statement := by
  refine exists_decode hname fun kind hkind => ?_
  obtain ⟨-, hnested, henclosing⟩ := verifyClassAttribute_ok.1 h kind hkind
  cases kind with
  | enclosingMethod =>
    obtain ⟨link, hlink⟩ := decodeEnclosing_of_valid hpool (henclosing rfl)
    exact ⟨.enclosing link, map_eq_ok.2 ⟨link, hlink, rfl⟩⟩
  | innerClasses =>
    obtain ⟨links, hlinks⟩ := decodeNestedList_of_valid hpool (hnested rfl)
    exact ⟨.nested links, map_eq_ok.2 ⟨links, hlinks, rfl⟩⟩
  | _ => exact exists_decodeShared pool item.body fun hkind' => hinspected _ hkind' hkind

theorem exists_decode_onField (h : verifyFieldAttribute pool item = .ok ()) :
    ∃ statement, decode pool .onField item = .ok statement := by
  obtain ⟨hname, h⟩ := verifyFieldAttribute_ok.1 h
  refine exists_decode hname fun kind hkind => ?_
  cases kind with
  | constantValue => exact decodeConstantValue_of_verified hpool ((h _ hkind).2 rfl)
  | _ => exact exists_decodeShared pool item.body fun hkind' => hinspected _ hkind' hkind

theorem exists_decode_onMethod {bodiless : Bool}
    (h : verifyMethodAttribute pool bodiless item = .ok ()) :
    ∃ statement, decode pool .onMethod item = .ok statement := by
  obtain ⟨hname, h⟩ := verifyMethodAttribute_ok.1 h
  refine exists_decode hname fun kind hkind => ?_
  cases kind with
  | exceptions =>
    obtain ⟨names, hnames⟩ := decodeExceptions_of_verified hpool ((h _ hkind).2.2 rfl)
    exact ⟨.exceptions names, map_eq_ok.2 ⟨names, hnames, rfl⟩⟩
  | visibleParameterAnnotations => exact absurd hkind (hinspected _ (by decide))
  | invisibleParameterAnnotations => exact absurd hkind (hinspected _ (by decide))
  | annotationDefault => exact absurd hkind (hinspected _ (by decide))
  | _ => exact exists_decodeShared pool item.body fun hkind' => hinspected _ hkind' hkind

end Statement

/-! ## Class files -/

namespace ClassFile

open Verification

/-- No attribute of a class file is one into which a verification does not look although it is
decoded. -/
structure IsInspected (file : ClassFile) : Prop where
  attributes : ∀ item ∈ file.attributes, item.IsInspected file.pool
  fields : ∀ member ∈ file.fields, ∀ item ∈ member.attributes, item.IsInspected file.pool
  methods : ∀ member ∈ file.methods, ∀ item ∈ member.attributes, item.IsInspected file.pool

variable {file : ClassFile}

theorem exists_decodeField (hpool : file.pool.Resolves) {member : Member}
    (hinspected : ∀ item ∈ member.attributes, item.IsInspected file.pool)
    (h : AcceptsField file.pool member) : ∃ field, file.decodeField member = .ok field := by
  obtain ⟨name, hname⟩ := hpool.getName h.name
  obtain ⟨descriptor, hdescriptor⟩ := hpool.getName h.descriptor
  obtain ⟨statements, hstatements⟩ := exists_forall₂ fun item hitem =>
    Statement.exists_decode_onField hpool (hinspected item hitem) (h.attributes item hitem)
  exact ⟨_, decodeField_ok.2 ⟨name, descriptor, statements, hname, hdescriptor,
    mapM_eq_ok.2 hstatements, rfl⟩⟩

theorem exists_decodeMethod (hpool : file.pool.Resolves) {member : Member}
    (hinspected : ∀ item ∈ member.attributes, item.IsInspected file.pool)
    (h : AcceptsMethod file.pool member) : ∃ method, file.decodeMethod member = .ok method := by
  obtain ⟨name, hname⟩ := hpool.getName h.name
  obtain ⟨descriptor, hdescriptor⟩ := hpool.getName h.descriptor
  obtain ⟨statements, hstatements⟩ := exists_forall₂ fun item hitem =>
    Statement.exists_decode_onMethod hpool (hinspected item hitem) (h.attributes item hitem)
  exact ⟨_, decodeMethod_ok.2 ⟨name, descriptor, statements, hname, hdescriptor,
    mapM_eq_ok.2 hstatements, rfl⟩⟩

theorem exists_superName (hpool : file.pool.Resolves) (h : verifySuperClass file = .ok ()) :
    ∃ name, file.pool.getOptionalClassName file.superClass = .ok name := by
  apply hpool.getOptionalClassName
  rw [verifySuperClass_ok] at h
  by_cases hzero : file.superClass = 0
  · exact Pool.hasOptional_iff.2 (.inl hzero)
  · rw [if_neg hzero] at h
    exact Pool.hasOptional_iff.2 (.inr h)

/-- A class file that is accepted describes a class. -/
theorem IsAccepted.exists_describes (h : file.IsAccepted) (hpool : file.pool.Resolves)
    (hinspected : file.IsInspected) : ∃ description, file.Describes description := by
  obtain ⟨name, hname⟩ := hpool.getClassName h.thisClass
  obtain ⟨superName, hsuper⟩ := exists_superName hpool h.superClass
  obtain ⟨interfaces, hinterfaces⟩ := exists_forall₂ fun index hindex =>
    hpool.getClassName (h.interfaces index hindex)
  obtain ⟨statements, hstatements⟩ := exists_forall₂ fun item hitem =>
    Statement.exists_decode_onClass hpool (hinspected.attributes item hitem)
      (h.attributes.names item hitem) (h.attributes.attributes item hitem)
  obtain ⟨fields, hfields⟩ := exists_forall₂ fun member hmember =>
    exists_decodeField hpool (hinspected.fields member hmember) (h.fields member hmember)
  obtain ⟨methods, hmethods⟩ := exists_forall₂ fun member hmember =>
    exists_decodeMethod hpool (hinspected.methods member hmember) (h.methods member hmember)
  exact ⟨⟨_, _, _, _, _, fields, methods⟩, ⟨name, superName, interfaces, statements, hname, hsuper,
    mapM_eq_ok.2 hinterfaces, mapM_eq_ok.2 hstatements, rfl, rfl, rfl, rfl, rfl⟩,
    mapM_eq_ok.2 hfields, mapM_eq_ok.2 hmethods⟩

end ClassFile

/-- A consumer that never refuses takes any run of events. -/
theorem Run.exists_forM {σ : Type} {visit : Consumer σ}
    (h : ∀ event state, ∃ next, visit event state = .ok () next) (events : List ClassEvent)
    (state : σ) : ∃ final, events.forM visit state = .ok () final := by
  induction events generalizing state with
  | nil => exact ⟨state, rfl⟩
  | cons event events ih =>
    obtain ⟨next, hnext⟩ := h event state
    obtain ⟨final, hfinal⟩ := ih next
    exact ⟨final, forM_cons_ok.2 ⟨next, hnext, hfinal⟩⟩

/-- A class file that a verification accepts is read to its end, if its texts can be names and a
verification looks into all of its attributes that are decoded: what is parsed from its bytes
describes a class, and a consumer that never refuses is told all events of that class. -/
theorem ClassFile.replay_of_verify {file : ClassFile} (hencodable : file.IsEncodable)
    (hnames : ∀ text, .entry (.utf8 text) ∈ file.pool.slots → text.toString?.isSome)
    (hinspected : file.IsInspected) (hverify : file.verify = .ok ()) :
    ∃ parsed description, parse file.toBytes = .ok parsed ∧ parsed.Describes description
      ∧ ∀ (σ : Type) (visit : Consumer σ),
        (∀ event state, ∃ next, visit event state = .ok () next) →
          ∀ state, ∃ final, parsed.replay visit state = .ok () final
            ∧ description.events.forM visit state = .ok () final := by
  have hwritable := hencodable.isWritable
  have haccepted := (verify_ok hwritable.pool.laidOut).1 hverify
  have hresolves : file.pool.Resolves := by
    refine ⟨haccepted.linked, fun index text hget => hnames text ?_⟩
    exact Array.mem_of_getElem? (Pool.get_ok.1 hget).2
  obtain ⟨description, hdescribes⟩ := haccepted.exists_describes hresolves hinspected
  have hparsed : file.written.Describes description := hdescribes.mono (Pool.le_of_slots_eq rfl)
  refine ⟨file.written, description, parse_toBytes hwritable, hparsed, ?_⟩
  intro σ visit hvisit state
  obtain ⟨final, hfinal⟩ := Run.exists_forM hvisit description.events state
  exact ⟨final, replay_ok.2 ⟨description, hparsed, hfinal⟩, hfinal⟩

/-! ## A class with all that is looked up -/

namespace Pool

/-- A pool with a class `A`, a pair of its name with itself, a `long` and the names of the four
attributes with indexes in their bodies. -/
def ofLinks : Pool where
  slots := #[.entry (.utf8 (.ofString "A")), .entry (.classRef 1), .entry (.nameAndType 1 1),
    .entry (.long 7), .upperHalf, .entry (.utf8 (.ofString "ConstantValue")),
    .entry (.utf8 (.ofString "Exceptions")), .entry (.utf8 (.ofString "InnerClasses")),
    .entry (.utf8 (.ofString "EnclosingMethod"))]

theorem sound_ofLinks :
    ofLinks.Sound fun text => text.IsWritable ∧ text.toString?.isSome where
  known constant index hknown := by
    rw [show ofLinks.known = ∅ from rfl, Std.HashMap.getElem?_empty] at hknown
    cases hknown
  layout := by
    refine ⟨[.utf8 (.ofString "A"), .classRef 1, .nameAndType 1 1, .long 7,
      .utf8 (.ofString "ConstantValue"), .utf8 (.ofString "Exceptions"),
      .utf8 (.ofString "InnerClasses"), .utf8 (.ofString "EnclosingMethod")], rfl, ?_⟩
    intro text htext
    simp only [List.mem_cons, Constant.utf8.injEq, reduceCtorEq, false_or, List.not_mem_nil,
      or_false] at htext
    rcases htext with rfl | rfl | rfl | rfl | rfl
    · decide
    · decide
    · decide
    · decide
    · decide

end Pool

/-- An interface `A` with a field, a method and links, all named `A`. -/
def classWithLinks : ClassFile where
  magic := ClassFile.standardMagic
  version := .java8
  pool := Pool.ofLinks
  access := ⟨0x0601⟩
  thisClass := 2
  superClass := 2
  interfaces := [2]
  fields := [⟨⟨0x0019⟩, 1, 1, [⟨6, [0, 4]⟩]⟩]
  methods := [⟨⟨0x0401⟩, 1, 1, [⟨7, [0, 1, 0, 2]⟩]⟩]
  attributes := [⟨8, [0, 1, 0, 2, 0, 0, 0, 1, 0, 9]⟩, ⟨9, [0, 2, 0, 3]⟩]

/-- What the class file describes. The class is local, for its nested link names no outer class. -/
def linkedClass : ClassDescription where
  header := {
    version := .java8
    access := ⟨0x0601⟩
    name := "A"
    superName := some "A"
    interfaces := ["A"] }
  enclosing := some { owner := "A", methodName := some "A", methodDescriptor := some "A" }
  annotations := []
  typeAnnotations := []
  nested := [{ name := "A", outerName := none, simpleName := some "A", access := ⟨9⟩ }]
  fields := [{
    access := ⟨0x0019⟩
    name := "A"
    descriptor := "A"
    value := some (.long 7)
    annotations := .ofList []
    typeAnnotations := .ofList [] }]
  methods := [{
    access := ⟨0x0401⟩
    name := "A"
    descriptor := "A"
    exceptions := ["A"]
    annotations := .ofList []
    typeAnnotations := .ofList [] }]

theorem isEncodable_classWithLinks : classWithLinks.IsEncodable := by
  have htexts := Pool.sound_ofLinks
  have hmember : ∀ member ∈ classWithLinks.fields ++ classWithLinks.methods,
      Attribute.ListWritable member.attributes := by
    intro member hmember
    simp only [classWithLinks, List.cons_append, List.nil_append, List.mem_cons, List.not_mem_nil,
      or_false] at hmember
    rcases hmember with rfl | rfl
    · exact ⟨by decide, by decide⟩
    · exact ⟨by decide, by decide⟩
  exact {
    magic := rfl
    pool := (htexts.mono fun _ h => h.1).reachable_written (by decide)
    slots := by decide
    texts := fun text htext => (htexts.text_of_mem htext).1
    interfaces := by decide
    fields := by decide
    methods := by decide
    fieldAttributes := fun member h => hmember member (List.mem_append_left _ h)
    methodAttributes := fun member h => hmember member (List.mem_append_right _ h)
    attributes := ⟨by decide, by decide⟩ }

theorem describes_classWithLinks : classWithLinks.written.Describes linkedClass where
  front := ⟨"A", some "A", ["A"],
    [.nested [{ name := "A", outerName := none, simpleName := some "A", access := ⟨9⟩ }],
      .enclosing { owner := "A", methodName := some "A", methodDescriptor := some "A" }],
    rfl, rfl, rfl, rfl, rfl, rfl, rfl, rfl, rfl⟩
  fields := rfl
  methods := mapM_eq_ok.2
    (.cons (ClassFile.decodeMethod_ok.2 ⟨"A", "A", [.exceptions ["A"]], rfl, rfl, rfl, rfl⟩) .nil)

theorem ClassFile.replay_of_classWithLinks :
    classWithLinks.IsEncodable
      ∧ (∀ text, .entry (.utf8 text) ∈ classWithLinks.pool.slots → text.toString?.isSome)
      ∧ classWithLinks.IsInspected ∧ classWithLinks.verify = .ok ()
      ∧ ∃ parsed, parse classWithLinks.toBytes = .ok parsed ∧ parsed.Describes linkedClass
        ∧ ∀ (σ : Type) (visit : Consumer σ),
          (∀ event state, ∃ next, visit event state = .ok () next) →
            ∀ state, ∃ final, parsed.replay visit state = .ok () final
              ∧ linkedClass.events.forM visit state = .ok () final := by
  have hnames : ∀ text, .entry (.utf8 text) ∈ classWithLinks.pool.slots →
      text.toString?.isSome := fun text htext => (Pool.sound_ofLinks.text_of_mem htext).2
  have hinspected : classWithLinks.IsInspected := ⟨by decide, by decide, by decide⟩
  have hverify : classWithLinks.verify = .ok () := rfl
  refine ⟨isEncodable_classWithLinks, hnames, hinspected, hverify, ?_⟩
  obtain ⟨parsed, description, hparsed, hdescribes, hreplay⟩ :=
    replay_of_verify isEncodable_classWithLinks hnames hinspected hverify
  cases hparsed.symm.trans (parse_toBytes isEncodable_classWithLinks.isWritable)
  obtain rfl := hdescribes.unique describes_classWithLinks
  exact ⟨_, hparsed, hdescribes, hreplay⟩

end ClassStub
