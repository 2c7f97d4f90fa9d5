import ClassStub.Proofs.MemberWriting
import ClassStub.Proofs.Recognition
import ClassStub.Proofs.Runs
import ClassStub.Stub

/-! # Descriptions of classes

A `ClassDescription` is all that a class file says about its class. A class file is replayed
successfully exactly if it has a description and the consumer accepts the events of that, so that
what consumers make of class files is a function of descriptions. -/

namespace ClassStub

open Statement (resolve)

/-- All that a class file says about its class, in the order in which it is told. -/
structure ClassDescription where
  header : ClassHeader
  enclosing : Option EnclosingLink
  annotations : List Annotation
  typeAnnotations : List TypeAnnotation
  nested : List NestedLink
  fields : List Field
  methods : List Method

namespace ClassDescription

/-- The events before those for the members. -/
def frontEvents (description : ClassDescription) : List ClassEvent :=
  .header description.header :: (description.enclosing.toList.map .enclosing
    ++ description.annotations.map .annotated
    ++ description.typeAnnotations.map .typeAnnotated
    ++ description.nested.map .nested)

/-- The events by which a class is described. -/
def events (description : ClassDescription) : List ClassEvent :=
  description.frontEvents
    ++ (description.fields.map .field ++ (description.methods.map .method ++ [.finish]))

end ClassDescription

/-- The header of a class file with resolved names, whose attributes have a digest. -/
def Digest.header (digest : Digest) (file : ClassFile) (name : String) (superName : Option String)
    (interfaces : List String) : ClassHeader where
  version := file.version
  access := file.access
  name := name
  signature := digest.signature
  superName := superName
  interfaces := interfaces
  deprecated := digest.deprecated
  synthetic := digest.synthetic

namespace ClassFile

/-- The class that a class file describes. -/
structure Describes (file : ClassFile) (description : ClassDescription) : Prop where
  front : ∃ name superName interfaces, ∃ statements : Statements,
    file.pool.getClassName file.thisClass = .ok name
      ∧ file.pool.getOptionalClassName file.superClass = .ok superName
      ∧ file.interfaces.mapM file.pool.getClassName = .ok interfaces
      ∧ Statement.decodeAll file.pool .onClass file.attributes = .ok statements
      ∧ description.header = statements.digest.header file name superName interfaces
      ∧ description.enclosing = statements.digest.enclosing
      ∧ description.annotations = statements.digest.annotations
      ∧ description.typeAnnotations = statements.digest.typeAnnotations
      ∧ description.nested = statements.digest.nested.getD []
  fields : file.fields.mapM file.decodeField = .ok description.fields
  methods : file.methods.mapM file.decodeMethod = .ok description.methods

variable {file : ClassFile}

theorem frontEvents_ok {events : List ClassEvent} :
    file.frontEvents = .ok events ↔
      ∃ name superName interfaces, ∃ statements : Statements,
        file.pool.getClassName file.thisClass = .ok name
          ∧ file.pool.getOptionalClassName file.superClass = .ok superName
          ∧ file.interfaces.mapM file.pool.getClassName = .ok interfaces
          ∧ Statement.decodeAll file.pool .onClass file.attributes = .ok statements
          ∧ ClassDescription.frontEvents
            { header := statements.digest.header file name superName interfaces
              enclosing := statements.digest.enclosing
              annotations := statements.digest.annotations
              typeAnnotations := statements.digest.typeAnnotations
              nested := statements.digest.nested.getD []
              fields := []
              methods := [] } = events := by
  unfold frontEvents resolve className ClassFile.statements
  simp only [bind_eq_ok, mapError_eq_ok, pure_eq_ok]
  constructor
  · rintro ⟨name, hname, statements, hstatements, interfaces, hinterfaces, superName, hsuper, rfl⟩
    exact ⟨name, superName, interfaces, statements, hname, hsuper, hinterfaces, hstatements, rfl⟩
  · rintro ⟨name, superName, interfaces, statements, hname, hsuper, hinterfaces, hstatements, rfl⟩
    exact ⟨name, hname, statements, hstatements, interfaces, hinterfaces, superName, hsuper, rfl⟩

/-- A class file describes one class only. -/
theorem Describes.unique {description other : ClassDescription} (h : file.Describes description)
    (h' : file.Describes other) : description = other := by
  obtain ⟨name, superName, interfaces, statements, hname, hsuper, hinterfaces, hstatements,
    hheader, henclosing, hannotations, htypes, hnested⟩ := h.front
  obtain ⟨_, _, _, _, hname', hsuper', hinterfaces', hstatements', hheader', henclosing',
    hannotations', htypes', hnested'⟩ := h'.front
  cases hname.symm.trans hname'
  cases hsuper.symm.trans hsuper'
  cases hinterfaces.symm.trans hinterfaces'
  cases hstatements.symm.trans hstatements'
  have hfields := Except.ok.inj (h.fields.symm.trans h'.fields)
  have hmethods := Except.ok.inj (h.methods.symm.trans h'.methods)
  cases description
  cases other
  simp only [ClassDescription.mk.injEq]
  exact ⟨hheader.trans hheader'.symm, henclosing.trans henclosing'.symm,
    hannotations.trans hannotations'.symm, htypes.trans htypes'.symm, hnested.trans hnested'.symm,
    hfields, hmethods⟩

/-! ## Later pools -/

section Later

variable {other : ClassFile} {description : ClassDescription}

theorem decodeField_mono (hle : file.pool ≤ other.pool) {member : Member} {field : Field}
    (h : file.decodeField member = .ok field) : other.decodeField member = .ok field := by
  obtain ⟨name, descriptor, statements, hname, hdescriptor, hstatements, hfield⟩ :=
    decodeField_ok.1 h
  exact decodeField_ok.2 ⟨name, descriptor, statements, Pool.getName_mono hle hname,
    Pool.getName_mono hle hdescriptor, Statement.decodeAll_mono hle hstatements, hfield⟩

theorem decodeMethod_mono (hle : file.pool ≤ other.pool) {member : Member} {method : Method}
    (h : file.decodeMethod member = .ok method) : other.decodeMethod member = .ok method := by
  obtain ⟨name, descriptor, statements, hname, hdescriptor, hstatements, hmethod⟩ :=
    decodeMethod_ok.1 h
  exact decodeMethod_ok.2 ⟨name, descriptor, statements, Pool.getName_mono hle hname,
    Pool.getName_mono hle hdescriptor, Statement.decodeAll_mono hle hstatements, hmethod⟩

/-- A class file keeps its description when its pool becomes a later one. -/
theorem Describes.mono (h : file.Describes description) {pool : Pool} (hle : file.pool ≤ pool) :
    { file with pool }.Describes description := by
  obtain ⟨name, superName, interfaces, statements, hname, hsuper, hinterfaces, hstatements,
    hdescription⟩ := h.front
  refine ⟨⟨name, superName, interfaces, statements, Pool.getClassName_mono hle hname,
    Pool.getOptionalClassName_mono hle hsuper, ?_, Statement.decodeAll_mono hle hstatements,
    hdescription⟩, ?_, ?_⟩
  · exact mapM_eq_ok.2 ((mapM_eq_ok.1 hinterfaces).imp fun _ _ => Pool.getClassName_mono hle)
  · exact mapM_eq_ok.2 ((mapM_eq_ok.1 h.fields).imp fun _ _ => decodeField_mono hle)
  · exact mapM_eq_ok.2 ((mapM_eq_ok.1 h.methods).imp fun _ _ => decodeMethod_mono hle)

end Later

/-! ## Replays -/

/-- A class file is replayed exactly if it has a description whose events are accepted. -/
theorem replay_ok {σ : Type} {visit : Consumer σ} {state final : σ} :
    file.replay visit state = .ok () final ↔
      ∃ description, file.Describes description
        ∧ description.events.forM visit state = .ok () final := by
  unfold replay
  simp only [Run.bind_ok, Run.ofDecoded_ok, frontEvents_ok]
  constructor
  · rintro ⟨events, _, ⟨⟨name, superName, interfaces, statements, hname, hsuper, hinterfaces,
      hstatements, rfl⟩, rfl⟩, _, middle, hfront, _, middle', hfieldRun, _, middle'', hmethodRun,
      hfinish⟩
    obtain ⟨fields, hfields, hfieldEvents⟩ := Run.forM_decoded_ok.1 hfieldRun
    obtain ⟨methods, hmethods, hmethodEvents⟩ := Run.forM_decoded_ok.1 hmethodRun
    refine ⟨⟨_, _, _, _, _, fields, methods⟩, ⟨⟨name, superName, interfaces, statements, hname,
      hsuper, hinterfaces, hstatements, rfl, rfl, rfl, rfl, rfl⟩, hfields, hmethods⟩, ?_⟩
    refine Run.forM_append_ok.2 ⟨middle, hfront, Run.forM_append_ok.2 ⟨middle', hfieldEvents, ?_⟩⟩
    exact Run.forM_append_ok.2 ⟨middle'', hmethodEvents, Run.forM_cons_ok.2 ⟨final, hfinish, rfl⟩⟩
  · rintro ⟨⟨_, _, _, _, _, fields, methods⟩, ⟨⟨name, superName, interfaces, statements, hname,
      hsuper, hinterfaces, hstatements, hheader, henclosing, hannotations, htypes, hnested⟩,
      hfields, hmethods⟩, hevents⟩
    dsimp only at hheader henclosing hannotations htypes hnested hfields hmethods
    subst hheader henclosing hannotations htypes hnested
    obtain ⟨middle, hfront, hevents⟩ := Run.forM_append_ok.1 hevents
    obtain ⟨middle', hfieldEvents, hevents⟩ := Run.forM_append_ok.1 hevents
    obtain ⟨middle'', hmethodEvents, hevents⟩ := Run.forM_append_ok.1 hevents
    obtain ⟨_, hfinish, hnil⟩ := Run.forM_cons_ok.1 hevents
    cases hnil
    exact ⟨_, state, ⟨⟨name, superName, interfaces, statements, hname, hsuper, hinterfaces,
      hstatements, rfl⟩, rfl⟩, (), middle, hfront,
      (), middle', Run.forM_decoded_ok.2 ⟨fields, hfields, hfieldEvents⟩,
      (), middle'', Run.forM_decoded_ok.2 ⟨methods, hmethods, hmethodEvents⟩, hfinish⟩

end ClassFile

end ClassStub
