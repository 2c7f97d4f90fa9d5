import ClassStub.Proofs.AttributeWriting

/-! # Members that were written

Fields and methods are read back, from the member that they were written as, in every class file
with the pool that was written along with them or a later one. -/

namespace ClassStub

open Statement (resolve)

namespace Digest

/-- The field with given names whose attributes have a digest. -/
def field (digest : Digest) (access : AccessFlags) (name descriptor : String) : Field where
  access := access
  name := name
  descriptor := descriptor
  signature := digest.signature
  value := digest.constantValue
  annotations := .ofList digest.annotations
  typeAnnotations := .ofList digest.typeAnnotations
  deprecated := digest.deprecated
  synthetic := digest.synthetic

/-- The method with given names whose attributes have a digest. -/
def method (digest : Digest) (access : AccessFlags) (name descriptor : String) : Method where
  access := access
  name := name
  descriptor := descriptor
  signature := digest.signature
  exceptions := digest.exceptions
  annotations := .ofList digest.annotations
  typeAnnotations := .ofList digest.typeAnnotations
  visibleParameters := digest.visibleParameters
  invisibleParameters := digest.invisibleParameters
  defaultValue := digest.defaultValue
  deprecated := digest.deprecated
  synthetic := digest.synthetic

end Digest

namespace ClassFile

variable {file : ClassFile} {member : Member}

/-- A field is read off the digest of its attributes. -/
theorem decodeField_ok {field : Field} :
    file.decodeField member = .ok field ↔
      ∃ name descriptor, ∃ statements : Statements,
        file.pool.getName member.name = .ok name
          ∧ file.pool.getName member.descriptor = .ok descriptor
          ∧ Statement.decodeAll file.pool .onField member.attributes = .ok statements
          ∧ statements.digest.field member.access name descriptor = field := by
  unfold decodeField resolve
  simp only [bind_eq_ok, mapError_eq_ok, pure_eq_ok]
  constructor
  · rintro ⟨name, hname, descriptor, hdescriptor, statements, hstatements, rfl⟩
    exact ⟨name, descriptor, statements, hname, hdescriptor, hstatements, rfl⟩
  · rintro ⟨name, descriptor, statements, hname, hdescriptor, hstatements, rfl⟩
    exact ⟨name, hname, descriptor, hdescriptor, statements, hstatements, rfl⟩

/-- A method is read off the digest of its attributes. -/
theorem decodeMethod_ok {method : Method} :
    file.decodeMethod member = .ok method ↔
      ∃ name descriptor, ∃ statements : Statements,
        file.pool.getName member.name = .ok name
          ∧ file.pool.getName member.descriptor = .ok descriptor
          ∧ Statement.decodeAll file.pool .onMethod member.attributes = .ok statements
          ∧ statements.digest.method member.access name descriptor = method := by
  unfold decodeMethod resolve
  simp only [bind_eq_ok, mapError_eq_ok, pure_eq_ok]
  constructor
  · rintro ⟨name, hname, descriptor, hdescriptor, statements, hstatements, rfl⟩
    exact ⟨name, descriptor, statements, hname, hdescriptor, hstatements, rfl⟩
  · rintro ⟨name, descriptor, statements, hname, hdescriptor, hstatements, rfl⟩
    exact ⟨name, hname, descriptor, hdescriptor, statements, hstatements, rfl⟩

end ClassFile

theorem ofList_visibleFirst {α : Type} [Keyed α] (visible : α → Bool) (set : CanonicalSet α) :
    CanonicalSet.ofList (visibleFirst visible set.toList) = set :=
  CanonicalSet.ofList_eq_of_mem fun _ => mem_visibleFirst

section Members

variable {texts : JavaText → Prop} (hname : ∀ kind : AttributeKind, texts (.ofString kind.name))

include hname

theorem Field.interns_encode {field : Field} (h : field.Within texts) :
    Interns texts field.encode fun later member =>
      (∀ file : ClassFile, file.pool = later → file.decodeField member = .ok field)
        ∧ member.attributes.map (·.body.length) = field.bodySizes := by
  have hvalue := Attribute.writes_constantValue hname h.value
  have hcommon :=
    Attribute.writes_common hname .onField field.deprecated field.synthetic h.signature
  have hannotations := Attribute.writes_annotations hname .onField h.annotations
  have htypes := Attribute.writes_typeAnnotations hname .onField h.typeAnnotations
  refine (Pool.interns_addName h.name).bind fun name => ?_
  refine (Pool.interns_addName h.descriptor).bind fun descriptor => ?_
  refine hvalue.bind fun value => hcommon.bind fun common => ?_
  refine hannotations.bind fun annotations => htypes.bind fun types => interns_pure ?_
  intro later htypes hannotations hcommon hvalue hdescriptor hname
  have hall := ((hvalue.append hcommon).append hannotations).append htypes
  refine ⟨?_, hall.sizes⟩
  rintro file rfl
  obtain ⟨statements, hstatements, hdigest⟩ := hall.decode
  refine ClassFile.decodeField_ok.2 ⟨_, _, statements, hname, hdescriptor, hstatements, ?_⟩
  simp only [hdigest, Digest.append_eq, Digest.append, Digest.field, Option.or_none,
    Option.none_or, Bool.or_false, Bool.false_or, List.append_nil, List.nil_append,
    ofList_visibleFirst]

theorem Method.interns_encode {method : Method} (h : method.Within texts) (style : BodyStyle) :
    Interns texts (method.encode style) fun later member =>
      (∀ file : ClassFile, file.pool = later → file.decodeMethod member = .ok method)
        ∧ member.attributes.map (·.body.length) = method.bodySizes style := by
  have hcode := Attribute.writes_code hname (method.stubCode style)
  have hexceptions := Attribute.writes_exceptions hname h.exceptionCount h.exceptions
  have hcommon := Attribute.writes_common hname .onMethod method.deprecated method.synthetic
    h.signature
  have hdefault := Attribute.writes_defaultValue hname h.defaultValue
  have hannotations := Attribute.writes_annotations hname .onMethod h.annotations
  have hvisible := Attribute.writes_visibleParameters hname h.visibleParameters
  have hinvisible := Attribute.writes_invisibleParameters hname h.invisibleParameters
  have htypes := Attribute.writes_typeAnnotations hname .onMethod h.typeAnnotations
  refine (Pool.interns_addName h.name).bind fun name => ?_
  refine (Pool.interns_addName h.descriptor).bind fun descriptor => ?_
  refine hcode.bind fun code => hexceptions.bind fun exceptions => hcommon.bind fun common => ?_
  refine hdefault.bind fun default => hannotations.bind fun annotations => ?_
  refine hvisible.bind fun visible => hinvisible.bind fun invisible => htypes.bind fun types => ?_
  apply interns_pure
  intro later htypes hinvisible hvisible hannotations hdefault hcommon hexceptions hcode
    hdescriptor hname
  have hall := ((((((hcode.append hexceptions).append hcommon).append hdefault).append
    hannotations).append hvisible).append hinvisible).append htypes
  refine ⟨?_, hall.sizes⟩
  rintro file rfl
  obtain ⟨statements, hstatements, hdigest⟩ := hall.decode
  refine ClassFile.decodeMethod_ok.2 ⟨_, _, statements, hname, hdescriptor, hstatements, ?_⟩
  simp only [hdigest, Digest.append_eq, Digest.append, Digest.method, Option.or_none,
    Option.none_or, Bool.or_false, Bool.false_or, List.append_nil, List.nil_append,
    ofList_visibleFirst]

end Members

end ClassStub
