import Mathlib.Logic.Relation
import ClassStub.Proofs.AttributeOrder
import ClassStub.Proofs.SurfaceBuilding

/-! # What the surface of a class does not depend on

Constants behind the pool, attributes that are ignored at their place, and the order of attributes
that do not repeat: none of them enters the surface. Each kind of change is an edit of the class
file, and a class file keeps its surface through any number of edits. -/

namespace ClassStub

/-! ## Edits of attribute lists -/

/-- A change of a list of attributes that does not matter at a place. -/
inductive AttributeEdit (pool : Pool) (place : AttributePlace) :
    List Attribute → List Attribute → Prop where
  | insert (before after : List Attribute) {item : Attribute} (h : item.IsIgnored pool place) :
    AttributeEdit pool place (before ++ after) (before ++ item :: after)
  | delete (before after : List Attribute) {item : Attribute} (h : item.IsIgnored pool place) :
    AttributeEdit pool place (before ++ item :: after) (before ++ after)
  | replaceBody (before after : List Attribute) {item : Attribute} (body : Bytes)
    (h : item.IsIgnored pool place) :
    AttributeEdit pool place (before ++ item :: after) (before ++ { item with body } :: after)
  | permute {attributes others : List Attribute} (hperm : attributes.Perm others)
    (hrepeats : Attribute.NoneRepeats pool place attributes) :
    AttributeEdit pool place attributes others

namespace Statement

variable {pool : Pool} {place : AttributePlace} {before after : List Attribute}
  {item : Attribute}

theorem decodeAll_append_ok {statements : List Statement} :
    decodeAll pool place (before ++ after) = .ok statements ↔
      ∃ first second, decodeAll pool place before = .ok first
        ∧ decodeAll pool place after = .ok second ∧ first ++ second = statements := by
  unfold decodeAll
  rw [List.mapM_append]
  simp only [bind_eq_ok, pure_eq_ok]
  constructor
  · rintro ⟨first, hfirst, second, hsecond, h⟩
    exact ⟨first, second, hfirst, hsecond, h⟩
  · rintro ⟨first, second, hfirst, hsecond, h⟩
    exact ⟨first, hfirst, second, hsecond, h⟩

theorem decodeAll_cons_ignored (h : item.IsIgnored pool place) {statements : List Statement} :
    decodeAll pool place (item :: after) = .ok statements ↔
      ∃ rest, decodeAll pool place after = .ok rest ∧ .skipped :: rest = statements := by
  unfold decodeAll
  rw [List.mapM_cons, decode_ignored h]
  change (after.mapM (decode pool place) >>= fun rest => pure (skipped :: rest)) = _ ↔ _
  rw [bind_eq_ok]
  exact exists_congr fun rest => and_congr_right fun _ => pure_eq_ok

/-- An attribute that is ignored adds nothing to what the others say. -/
theorem digest_insert (h : item.IsIgnored pool place) {digest : Digest} :
    (∃ statements : Statements, decodeAll pool place (before ++ item :: after) = .ok statements
        ∧ statements.digest = digest) ↔
      ∃ statements : Statements, decodeAll pool place (before ++ after) = .ok statements
        ∧ statements.digest = digest := by
  have hskip : ∀ first second : Statements, (first ++ .skipped :: second).digest =
      (first ++ second).digest := fun first second => by
    rw [Statements.digest_append, Statements.digest_append, Statements.digest_skipped_cons]
  constructor
  · rintro ⟨statements, hstatements, rfl⟩
    obtain ⟨first, _, hfirst, hrest, rfl⟩ := decodeAll_append_ok.1 hstatements
    obtain ⟨second, hsecond, rfl⟩ := (decodeAll_cons_ignored h).1 hrest
    exact ⟨first ++ second, decodeAll_append_ok.2 ⟨first, second, hfirst, hsecond, rfl⟩,
      (hskip first second).symm⟩
  · rintro ⟨statements, hstatements, rfl⟩
    obtain ⟨first, second, hfirst, hsecond, rfl⟩ := decodeAll_append_ok.1 hstatements
    have hrest := (decodeAll_cons_ignored h).2 ⟨second, hsecond, rfl⟩
    exact ⟨first ++ .skipped :: second, decodeAll_append_ok.2 ⟨first, _, hfirst, hrest, rfl⟩,
      hskip first second⟩

end Statement

/-- Edited attributes say the same, up to the order of annotations. -/
theorem AttributeEdit.similar {pool : Pool} {place : AttributePlace}
    {attributes others : List Attribute} (hedit : AttributeEdit pool place attributes others)
    {statements : Statements} (h : Statement.decodeAll pool place attributes = .ok statements) :
    ∃ statements' : Statements, Statement.decodeAll pool place others = .ok statements'
      ∧ Digest.Similar statements.digest statements'.digest := by
  cases hedit with
  | insert before after hitem =>
    obtain ⟨statements', h', hdigest⟩ := (Statement.digest_insert hitem).2 ⟨statements, h, rfl⟩
    exact ⟨statements', h', hdigest ▸ .refl _⟩
  | delete before after hitem =>
    obtain ⟨statements', h', hdigest⟩ := (Statement.digest_insert hitem).1 ⟨statements, h, rfl⟩
    exact ⟨statements', h', hdigest ▸ .refl _⟩
  | @replaceBody before after item body hitem =>
    have hitem' : Attribute.IsIgnored pool place { item with body } := hitem
    have hwithout := (Statement.digest_insert hitem).1 ⟨statements, h, rfl⟩
    obtain ⟨statements', h', hdigest⟩ := (Statement.digest_insert hitem').2 hwithout
    exact ⟨statements', h', hdigest ▸ .refl _⟩
  | permute hperm hrepeats => exact similar_perm hperm hrepeats h

namespace Digest

variable {first second : Digest} (h : Similar first second)

include h

theorem Similar.field_eq (access : AccessFlags) (name descriptor : String) :
    first.field access name descriptor = second.field access name descriptor := by
  change { first.bare.field access name descriptor with
      annotations := .ofList first.annotations
      typeAnnotations := .ofList first.typeAnnotations } = second.field access name descriptor
  rw [h.bare, CanonicalSet.ofList_congr h.annotations, CanonicalSet.ofList_congr h.typeAnnotations]
  rfl

theorem Similar.method_eq (access : AccessFlags) (name descriptor : String) :
    first.method access name descriptor = second.method access name descriptor := by
  change { first.bare.method access name descriptor with
      annotations := .ofList first.annotations
      typeAnnotations := .ofList first.typeAnnotations } = second.method access name descriptor
  rw [h.bare, CanonicalSet.ofList_congr h.annotations, CanonicalSet.ofList_congr h.typeAnnotations]
  rfl

theorem Similar.header_eq (file : ClassFile) (name : String) (superName : Option String)
    (interfaces : List String) :
    first.header file name superName interfaces = second.header file name superName interfaces := by
  change first.bare.header file name superName interfaces = _
  rw [h.bare]
  rfl

theorem Similar.enclosing_eq : first.enclosing = second.enclosing := by
  change first.bare.enclosing = second.bare.enclosing
  rw [h.bare]

theorem Similar.nested_eq : first.nested = second.nested := by
  change first.bare.nested = second.bare.nested
  rw [h.bare]

end Digest

/-! ## Edits of class files -/

namespace ClassFile

/-- The class file with constants behind the last slot of its pool. -/
def appendConstants (file : ClassFile) (constants : List Constant) : ClassFile :=
  { file with
    pool := { file.pool with slots := file.pool.slots ++ constants.flatMap Pool.slotsOf } }

/-- A change of a class file that does not matter for its surface. -/
inductive Edit : ClassFile → ClassFile → Prop where
  | pool (file : ClassFile) (constants : List Constant) : Edit file (file.appendConstants constants)
  | attributes {file : ClassFile} {attributes : List Attribute}
    (h : AttributeEdit file.pool .onClass file.attributes attributes) :
    Edit file { file with attributes }
  | field {file : ClassFile} {before after : List Member} {member : Member}
    {attributes : List Attribute} (hfields : file.fields = before ++ member :: after)
    (h : AttributeEdit file.pool .onField member.attributes attributes) :
    Edit file { file with fields := before ++ { member with attributes } :: after }
  | method {file : ClassFile} {before after : List Member} {member : Member}
    {attributes : List Attribute} (hmethods : file.methods = before ++ member :: after)
    (h : AttributeEdit file.pool .onMethod member.attributes attributes) :
    Edit file { file with methods := before ++ { member with attributes } :: after }

variable {file other : ClassFile} {description : ClassDescription}

/-- One member of many is replaced by one that decodes to the same. -/
theorem mapM_replace {α : Type} {decode : Member → Except FormatError α}
    {before after : List Member} {member changed : Member} {items : List α}
    (hchanged : ∀ item, decode member = .ok item → decode changed = .ok item)
    (h : (before ++ member :: after).mapM decode = .ok items) :
    (before ++ changed :: after).mapM decode = .ok items := by
  rw [List.mapM_append, List.mapM_cons] at h ⊢
  obtain ⟨first, hfirst, h⟩ := bind_eq_ok.1 h
  obtain ⟨rest, hrest, h⟩ := bind_eq_ok.1 h
  obtain ⟨item, hitem, hrest⟩ := bind_eq_ok.1 hrest
  exact bind_eq_ok.2 ⟨first, hfirst, bind_eq_ok.2 ⟨rest, bind_eq_ok.2 ⟨item, hchanged item hitem,
    hrest⟩, h⟩⟩

/-- An edit may change the order of annotations in the description, but not the surface. -/
theorem Edit.describes (hedit : Edit file other) (h : file.Describes description) :
    ∃ description', other.Describes description' ∧ description'.surface = description.surface := by
  cases hedit with
  | pool constants =>
    have hle : file.pool ≤ (file.appendConstants constants).pool := Pool.le_of_prefix (by
      change _ <+: (file.pool.slots ++ constants.flatMap Pool.slotsOf).toList
      rw [Array.toList_appendList]
      exact List.prefix_append ..)
    exact ⟨description, h.mono hle, rfl⟩
  | @attributes attributes hedit =>
    obtain ⟨name, superName, interfaces, statements, hname, hsuper, hinterfaces, hstatements,
      hheader, henclosing, hannotations, htypes, hnested⟩ := h.front
    obtain ⟨statements', hstatements', hsimilar⟩ := hedit.similar hstatements
    refine ⟨{ description with
      annotations := statements'.digest.annotations
      typeAnnotations := statements'.digest.typeAnnotations },
      ⟨⟨name, superName, interfaces, statements', hname, hsuper, hinterfaces, hstatements', ?_, ?_,
        rfl, rfl, ?_⟩, h.fields, h.methods⟩, ?_⟩
    · rw [hheader, hsimilar.header_eq]
      rfl
    · rw [henclosing, hsimilar.enclosing_eq]
    · rw [hnested, hsimilar.nested_eq]
    · unfold ClassDescription.surface
      rw [hannotations, htypes, CanonicalSet.ofList_congr hsimilar.annotations,
        CanonicalSet.ofList_congr hsimilar.typeAnnotations]
  | @field before after member attributes hfields hedit =>
    have hmember := h.fields
    rw [hfields] at hmember
    refine ⟨description, ⟨h.front, mapM_replace (fun field hfield => ?_) hmember, h.methods⟩, rfl⟩
    obtain ⟨name, descriptor, statements, hname, hdescriptor, hstatements, rfl⟩ :=
      decodeField_ok.1 hfield
    obtain ⟨statements', hstatements', hsimilar⟩ := hedit.similar hstatements
    exact decodeField_ok.2 ⟨name, descriptor, statements', hname, hdescriptor, hstatements',
      (hsimilar.field_eq _ _ _).symm⟩
  | @method before after member attributes hmethods hedit =>
    have hmember := h.methods
    rw [hmethods] at hmember
    refine ⟨description, ⟨h.front, h.fields, mapM_replace (fun method hmethod => ?_) hmember⟩, rfl⟩
    obtain ⟨name, descriptor, statements, hname, hdescriptor, hstatements, rfl⟩ :=
      decodeMethod_ok.1 hmethod
    obtain ⟨statements', hstatements', hsimilar⟩ := hedit.similar hstatements
    exact decodeMethod_ok.2 ⟨name, descriptor, statements', hname, hdescriptor, hstatements',
      (hsimilar.method_eq _ _ _).symm⟩

/-- A class file that has a surface keeps it through any number of edits. -/
theorem surface_of_edits {surface : Surface} (hedits : Relation.ReflTransGen Edit file other)
    (h : file.surface = .ok surface) : other.surface = .ok surface := by
  induction hedits with
  | refl => exact h
  | tail _ hedit ih =>
    obtain ⟨description, hdescribes, hsurface⟩ := surface_ok.1 ih
    obtain ⟨description', hdescribes', hsurface'⟩ := hedit.describes hdescribes
    exact surface_ok.2 ⟨description', hdescribes', hsurface'.trans hsurface⟩

/-- The run of a builder over an edited class file succeeds, and ends in the same surface. -/
theorem replay_of_edits {builder : SurfaceBuilder} (hedits : Relation.ReflTransGen Edit file other)
    (hrun : (file.replay SurfaceBuilder.visit).outcome {} = (.ok (), builder)) :
    ∃ builder' surface, (other.replay SurfaceBuilder.visit).outcome {} = (.ok (), builder')
      ∧ builder.finish = .ok surface ∧ builder'.finish = .ok surface := by
  obtain ⟨description, hdescribes, hevents⟩ := replay_ok.1 (Run.outcome_ok.1 hrun)
  obtain ⟨built, hbuilt, hfinish⟩ := description.forM_visit_events
  rw [hevents] at hbuilt
  cases hbuilt
  have hsurface := surface_of_edits hedits (surface_ok.2 ⟨description, hdescribes, rfl⟩)
  obtain ⟨description', hdescribes', hsame⟩ := surface_ok.1 hsurface
  obtain ⟨builder', hevents', hfinish'⟩ := description'.forM_visit_events
  rw [hsame] at hfinish'
  exact ⟨builder', description.surface,
    Run.outcome_ok.2 (replay_ok.2 ⟨description', hdescribes', hevents'⟩), hfinish, hfinish'⟩

/-- A public class `A` with a single attribute, which names a source file. -/
def classWithSourceFile : ClassFile where
  magic := standardMagic
  version := .java8
  pool :=
    { slots := #[.entry (.utf8 (.ofString "A")), .entry (.classRef 1),
        .entry (.utf8 (.ofString "SourceFile"))] }
  access := ⟨0x0021⟩
  thisClass := 2
  superClass := 0
  interfaces := []
  fields := []
  methods := []
  attributes := [⟨3, [0, 1]⟩]

/-- A longer pool and a second source file attribute, with a body that names nothing, leave the
surface of a class as it was. -/
theorem replay_of_classWithSourceFile :
    ∃ builder' surface,
      ({ classWithSourceFile.appendConstants [.long 0] with
        attributes := [⟨3, [0, 1]⟩, ⟨3, [7]⟩] }.replay SurfaceBuilder.visit).outcome {} =
          (.ok (), builder')
        ∧ SurfaceBuilder.finish
          { header := some { version := .java8, access := ⟨0x0021⟩, name := "A" } } = .ok surface
        ∧ builder'.finish = .ok surface :=
  replay_of_edits
    (.tail (.single (.pool classWithSourceFile [.long 0]))
      (.attributes (.insert [⟨3, [0, 1]⟩] [] ⟨"SourceFile", rfl, by decide⟩)))
    rfl

end ClassFile

end ClassStub
