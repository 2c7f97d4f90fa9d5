import ClassStub.Proofs.Attempts
import ClassStub.Proofs.LinkedAttributes
import ClassStub.Proofs.ReadBack

/-! # Assembled classes are accepted

Whatever an assembly is tried with, the class file that it builds in the end is accepted, unless
its header, a field or a method that it took is itself at fault. The invariant behind this says of
every state that an assembly can be in, also after a failure midway, that its parts are in order in
terms of all later pools. -/

namespace ClassStub

open Verification

/-! ## Access flags -/

/-- Two of public, private and protected are set. -/
def AccessFlags.CombinesVisibilities (access : AccessFlags) : Prop :=
  access.isPublic ∧ access.isPrivate ∨ access.isPublic ∧ access.isProtected
    ∨ access.isPrivate ∧ access.isProtected

theorem AccessFlags.hasOneVisibility_iff {access : AccessFlags} :
    access.hasOneVisibility ↔ ¬access.CombinesVisibilities := by
  unfold hasOneVisibility CombinesVisibilities
  cases access.isPublic <;> cases access.isPrivate <;> cases access.isProtected <;> simp

/-- A fault that a class brings with it, however it is assembled. -/
inductive VerificationError.IsInherited : VerificationError → Prop where
  | superClass : IsInherited .interfaceWithoutSuperclass
  | fieldAccess (access : AccessFlags) : IsInherited (.field (.invalidAccess access))
  | methodAccess (access : AccessFlags) : IsInherited (.method (.invalidAccess access))
  | exceptions : IsInherited (.method (.invalidAttribute .exceptions))

/-! ## The invariant -/

namespace Assembly

/-- Access flags and two class indexes stand for a header, in terms of a pool. -/
structure Introduces (header : ClassHeader) (access : AccessFlags) (thisClass superClass : UInt16)
    (pool : Pool) : Prop where
  access : access = header.access
  thisClass : pool.has Constant.isClassRef thisClass
  noSuperClass : superClass = 0 ↔ header.superName = none
  superClass : pool.hasOptional Constant.isClassRef superClass

/-- In terms of a pool, nothing stands against the parts of an assembly but what the events that it
accepted bring with them. -/
structure InOrder (told : List ClassEvent) (assembly : Assembly) (pool : Pool) : Prop where
  header : ∀ header, assembly.header = some header →
    Introduces header assembly.access assembly.thisClass assembly.superClass pool
  interfaces : ∀ index ∈ assembly.interfaces.toList, pool.has Constant.isClassRef index
  fields : (∀ member ∈ assembly.fields.toList, AcceptsField pool member) ↔
    ∀ field, .field field ∈ told → field.access.hasOneVisibility
  fieldFaults : ∀ member ∈ assembly.fields.toList,
    FailsOnly FieldFault.IsInherited (verifyField pool member)
  methods : (∀ member ∈ assembly.methods.toList, AcceptsMethod pool member) ↔
    ∀ method, .method method ∈ told →
      method.access.hasOneVisibility ∧ method.exceptions.length ≤ 65535
  methodFaults : ∀ member ∈ assembly.methods.toList,
    FailsOnly MethodFault.IsInherited (verifyMethod pool member)
  attributes : Attribute.Listed ClassFile.writtenKinds True pool assembly.attributes

/-- An assembly that accepted some events has at most one header, and its parts are in order from
now on. -/
structure Verifiable (told : List ClassEvent) (assembly : Assembly) : Prop where
  closed : assembly.pool.Closed
  header : ∀ header, .header header ∈ told ↔ assembly.header = some header
  parts : ∀ later, assembly.pool ≤ later → assembly.InOrder told later

variable {told : List ClassEvent} {assembly : Assembly}

theorem verifiable_start (style : BodyStyle) : Verifiable [] (start style) where
  closed := Pool.closed_empty
  header _ := ⟨nofun, nofun⟩
  parts _ _ :=
    { header := nofun
      interfaces := nofun
      fields := ⟨fun _ => nofun, fun _ => nofun⟩
      fieldFaults := nofun
      methods := ⟨fun _ => nofun, fun _ => nofun⟩
      methodFaults := nofun
      attributes := Attribute.listed_nil.weaken (List.nil_sublist _) Iff.rfl }

namespace Verifiable

/-- Adding to the pool leaves everything in order, and what was added has its meaning from then on;
if the addition fails, everything is in order all the same. -/
theorem interning {α : Type} {action : PoolM α} {meaning : Pool → α → Prop}
    (h : assembly.Verifiable told) (haction : Links (fun _ => True) action meaning) :
    (interning action).Ensures assembly
      (fun value next => (∃ pool, next = { assembly with pool }) ∧ assembly.pool ≤ next.pool
        ∧ next.Verifiable told ∧ ∀ later, next.pool ≤ later → meaning later value)
      (fun _ => Verifiable told) := by
  have hgrow : ∀ pool : Pool, pool.Closed → assembly.pool ≤ pool →
      Verifiable told { assembly with pool } := fun pool hclosed hle =>
    { closed := hclosed
      header := h.header
      parts := fun later hlater => { h.parts later (Pool.le_trans hle hlater) with } }
  have hrun := haction assembly.pool h.closed fun _ _ => trivial
  unfold Run.Ensures Assembly.interning
  dsimp only
  cases haction : action assembly.pool with
  | ok value pool =>
    rw [haction] at hrun
    obtain ⟨hclosed, hle, hmeaning⟩ := hrun
    exact ⟨⟨pool, rfl⟩, hle, hgrow pool hclosed hle, hmeaning⟩
  | error cause pool =>
    rw [haction] at hrun
    exact hgrow pool hrun.1 hrun.2.1

/-- As long as there is no header, what is set for one does not count. -/
theorem prepare (h : assembly.Verifiable told) (hheader : assembly.header = none)
    (version : ClassVersion) (access : AccessFlags) (thisClass superClass : UInt16) :
    Verifiable told { assembly with version, access, thisClass, superClass } where
  closed := h.closed
  header := h.header
  parts later hlater :=
    { h.parts later hlater with
      header := fun header hsome => by
        rw [hheader] at hsome
        cases hsome }

end Verifiable

/-- What is only collected for the closing event does not count before it. -/
theorem Verifiable.collect (h : assembly.Verifiable told) (enclosing : Option EnclosingLink)
    (annotations : Array Annotation) (typeAnnotations : Array TypeAnnotation)
    (nested : Array NestedLink) :
    Verifiable told { assembly with enclosing, annotations, typeAnnotations, nested } where
  closed := h.closed
  header := h.header
  parts later hlater := { h.parts later hlater with }

/-! ## Events -/

theorem mem_concat {event other : ClassEvent} (hkind : other.kind ≠ event.kind) :
    other ∈ told ++ [event] ↔ other ∈ told := by
  rw [List.mem_append, List.mem_singleton]
  refine or_iff_left ?_
  rintro rfl
  exact hkind rfl

/-- What depends on the events of one kind does not depend on one of another kind. -/
theorem forall_concat {α : Type} {event : α → ClassEvent} {other : ClassEvent} {accepted : Prop}
    {fits : α → Prop} (h : accepted ↔ ∀ item, event item ∈ told → fits item)
    (hkind : ∀ item, (event item).kind ≠ other.kind) :
    accepted ↔ ∀ item, event item ∈ told ++ [other] → fits item := by
  simpa only [mem_concat (hkind _)] using h

theorem forall_mem_push {property : Member → Prop} {members : Array Member} {member : Member}
    (h : ∀ other ∈ members.toList, property other) (hmember : property member) :
    ∀ other ∈ (members.push member).toList, property other := by
  rw [Array.toList_push, List.forall_mem_append, List.forall_mem_singleton]
  exact ⟨h, hmember⟩

/-- A member is listed while the event that brought it is told. -/
theorem forall_push {α : Type} {event : α → ClassEvent} (hevent : Function.Injective event)
    {accepts : Member → Prop} {fits : α → Prop} {members : Array Member} {member : Member}
    {item : α} (hmember : accepts member ↔ fits item)
    (h : (∀ member ∈ members.toList, accepts member) ↔ ∀ item, event item ∈ told → fits item) :
    (∀ other ∈ (members.push member).toList, accepts other) ↔
      ∀ other, event other ∈ told ++ [event item] → fits other := by
  rw [Array.toList_push, List.forall_mem_append, h, List.forall_mem_singleton, hmember]
  simp only [List.mem_append, List.mem_singleton, hevent.eq_iff, or_imp, forall_and, forall_eq]

namespace Verifiable

/-- An event that brings neither a header nor a member has nothing against an assembly. -/
theorem tell (h : assembly.Verifiable told) {event : ClassEvent}
    (hkind : event.kind ∉ [.header, .field, .method]) :
    assembly.Verifiable (told ++ [event]) := by
  simp only [List.mem_cons, List.not_mem_nil, or_false, not_or] at hkind
  obtain ⟨hheader, hfield, hmethod⟩ := hkind
  refine ⟨h.closed, fun header => (mem_concat (Ne.symm hheader)).trans (h.header header),
    fun later hlater => ?_⟩
  have hparts := h.parts later hlater
  exact { hparts with
    fields := forall_concat hparts.fields fun _ => Ne.symm hfield
    methods := forall_concat hparts.methods fun _ => Ne.symm hmethod }

/-- An event that needs an open assembly leaves one that is not open as it is. -/
theorem requireOpen (h : assembly.Verifiable told) (kind : EventKind) :
    (requireOpen kind).Ensures assembly (fun _ next => next = assembly)
      (fun _ => Verifiable told) := by
  unfold Assembly.requireOpen
  refine Run.ensures_get_bind ?_
  by_cases hheader : assembly.header.isNone
  · rw [if_pos hheader]
    exact h
  · rw [if_neg hheader]
    by_cases hfinished : assembly.finished
    · rw [if_pos hfinished]
      exact h
    · rw [if_neg hfinished]
      exact rfl

theorem visitField (h : assembly.Verifiable told) (field : Field) :
    (visitField field).Ensures assembly (fun _ next => next.Verifiable (told ++ [.field field]))
      (fun _ => Verifiable told) := by
  refine (h.interning field.links_encode).bind ?_
  rintro member next ⟨-, -, hnext, hmember⟩
  have hheaders : ∀ header, .header header ∈ told ++ [.field field] ↔ .header header ∈ told :=
    fun _ => mem_concat nofun
  refine ⟨hnext.closed, fun header => (hheaders header).trans (hnext.header header),
    fun later hlater => ?_⟩
  have hparts := hnext.parts later hlater
  exact { hparts with
    fields := forall_push (fun _ _ => ClassEvent.field.inj) (hmember later hlater).1 hparts.fields
    fieldFaults := forall_mem_push hparts.fieldFaults (hmember later hlater).2
    methods := forall_concat hparts.methods fun _ => nofun }

theorem visitMethod (h : assembly.Verifiable told) (method : Method) :
    (visitMethod method).Ensures assembly (fun _ next => next.Verifiable (told ++ [.method method]))
      (fun _ => Verifiable told) := by
  refine Run.ensures_get_bind ((h.interning (method.links_encode assembly.bodies)).bind ?_)
  rintro member next ⟨-, -, hnext, hmember⟩
  have hheaders : ∀ header, .header header ∈ told ++ [.method method] ↔ .header header ∈ told :=
    fun _ => mem_concat nofun
  refine ⟨hnext.closed, fun header => (hheaders header).trans (hnext.header header),
    fun later hlater => ?_⟩
  have hparts := hnext.parts later hlater
  exact { hparts with
    fields := forall_concat hparts.fields fun _ => nofun
    methods := forall_push (fun _ _ => ClassEvent.method.inj) (hmember later hlater).1
      hparts.methods
    methodFaults := forall_mem_push hparts.methodFaults (hmember later hlater).2 }

end Verifiable

/-! ## The header -/

/-- An assembly is about to accept a header, of which some interfaces may be missing. -/
structure Opening (header : ClassHeader) (told : List ClassEvent) (assembly : Assembly) :
    Prop where
  verifiable : assembly.Verifiable told
  noHeader : assembly.header = none
  introduced : ∀ later, assembly.pool ≤ later →
    Introduces header assembly.access assembly.thisClass assembly.superClass later

variable {header : ClassHeader}

theorem Opening.interface (h : assembly.Opening header told) (name : String) :
    Run.Ensures
      (do
        let index ← interning (Pool.addClass name)
        modify fun assembly => { assembly with interfaces := assembly.interfaces.push index })
      assembly (fun _ => Opening header told) (fun _ => Verifiable told) := by
  refine (h.verifiable.interning (Pool.links_addClass name)).bind ?_
  rintro index _ ⟨⟨pool, rfl⟩, hle, hnext, hindex⟩
  have hinterfaces : ∀ later, pool ≤ later → ∀ other ∈ (assembly.interfaces.push index).toList,
      later.has Constant.isClassRef other := by
    intro later hlater
    rw [Array.toList_push, List.forall_mem_append, List.forall_mem_singleton]
    exact ⟨(hnext.parts later hlater).interfaces, hindex later hlater⟩
  exact {
    verifiable := { hnext with
      parts := fun later hlater =>
        { hnext.parts later hlater with interfaces := hinterfaces later hlater } }
    noHeader := h.noHeader
    introduced := fun later hlater => h.introduced later (Pool.le_trans hle hlater) }

/-- The header is accepted once everything of it is in place. -/
theorem Opening.accept (h : assembly.Opening header told) :
    Verifiable (told ++ [.header header]) { assembly with header := some header } where
  closed := h.verifiable.closed
  header other := by
    have hnone := h.verifiable.header other
    rw [h.noHeader] at hnone
    simp [hnone, eq_comm]
  parts later hlater := by
    have hparts := h.verifiable.parts later hlater
    exact { hparts with
      header := fun other hother => by
        cases hother
        exact h.introduced later hlater
      fields := forall_concat hparts.fields fun _ => nofun
      methods := forall_concat hparts.methods fun _ => nofun }

theorem Verifiable.visitHeader (h : assembly.Verifiable told) (header : ClassHeader) :
    (visitHeader header).Ensures assembly (fun _ next => next.Verifiable (told ++ [.header header]))
      (fun _ => Verifiable told) := by
  refine Run.ensures_get_bind ?_
  by_cases hsome : assembly.header.isSome
  · rw [if_pos hsome]
    exact h
  rw [if_neg hsome]
  have hheader := Option.not_isSome_iff_eq_none.1 hsome
  have h := h.prepare hheader header.version header.access assembly.thisClass assembly.superClass
  refine Run.ensures_modify_bind ((h.interning (Pool.links_addClass header.name)).bind ?_)
  rintro thisClass _ ⟨⟨first, rfl⟩, -, h, hthis⟩
  have h := h.prepare hheader header.version header.access thisClass assembly.superClass
  refine Run.ensures_modify_bind
    ((h.interning (Pool.links_addOptionalClass header.superName)).bind ?_)
  rintro superClass _ ⟨⟨second, rfl⟩, hle, h, hsuper⟩
  have h := h.prepare hheader header.version header.access thisClass superClass
  refine Run.ensures_modify_bind ?_
  refine (Run.ensures_forM (Opening header told) (fun name _ h => h.interface name) ?_).bind
    fun _ _ h => h.accept
  exact ⟨h, hheader, fun later hlater =>
    ⟨rfl, hthis later (Pool.le_trans hle hlater), (hsuper later hlater).1, (hsuper later hlater).2⟩⟩

/-! ## The closing event -/

theorem links_commonAttributes {given : Pool → Prop} (header : Option ClassHeader) :
    Links given (commonAttributes header)
      (Attribute.Listed [.signature, .deprecated, .synthetic] True) := by
  cases header with
  | none => exact links_pure fun _ _ => Attribute.listed_nil.weaken (List.nil_sublist _) Iff.rfl
  | some header => exact Attribute.links_common _ _ _

theorem Verifiable.nestedAttribute (h : assembly.Verifiable told) (links : List NestedLink) :
    (nestedAttribute links).Ensures assembly
      (fun value next => assembly.pool ≤ next.pool ∧ next.Verifiable told
        ∧ ∀ later, next.pool ≤ later → Attribute.Listed [.innerClasses] True later value)
      (fun _ => Verifiable told) := by
  unfold Assembly.nestedAttribute checkCount
  by_cases hcount : links.length > 65535
  · rw [if_pos hcount]
    exact h
  · rw [if_neg hcount]
    have hlinks : Links (fun _ => True) _ _ :=
      Attribute.links_unlessEmptyNested (Nat.le_of_not_lt hcount)
    exact (h.interning hlinks).mono fun _ _ hnext => hnext.2

/-- The attributes of the class are taken over when the closing event is accepted. -/
theorem Verifiable.close (h : assembly.Verifiable told) {attributes : List Attribute}
    (hattributes : ∀ later, assembly.pool ≤ later →
      Attribute.Listed ClassFile.writtenKinds True later attributes) :
    Verifiable (told ++ [.finish]) { assembly with attributes, finished := true } := by
  have htold : assembly.Verifiable (told ++ [.finish]) := h.tell nofun
  exact { htold with
    parts := fun later hlater =>
      { htold.parts later hlater with attributes := hattributes later hlater } }

theorem Verifiable.visitFinish (h : assembly.Verifiable told) :
    visitFinish.Ensures assembly (fun _ next => next.Verifiable (told ++ [.finish]))
      (fun _ => Verifiable told) := by
  refine Run.ensures_get_bind ((h.interning (links_commonAttributes _)).bind ?_)
  rintro common first ⟨-, -, h, hcommon⟩
  refine Run.ensures_get_bind ((h.interning (Attribute.links_optionalEnclosing _)).bind ?_)
  rintro enclosing second ⟨-, hsecond, h, henclosing⟩
  refine Run.ensures_get_bind ((h.nestedAttribute _).bind ?_)
  rintro nested third ⟨hthird, h, hnested⟩
  refine Run.ensures_get_bind ((h.interning (Attribute.links_annotations _)).bind ?_)
  rintro annotations fourth ⟨-, hfourth, h, hannotations⟩
  refine Run.ensures_get_bind ((h.interning (Attribute.links_typeAnnotations _)).bind ?_)
  rintro types last ⟨-, hlast, h, htypes⟩
  refine h.close fun later hlater => ?_
  -- Each list of attributes is in order from the pool of its time on.
  have hfromFourth := Pool.le_trans hlast hlater
  have hfromThird := Pool.le_trans hfourth hfromFourth
  have hfromSecond := Pool.le_trans hthird hfromThird
  have hfromFirst := Pool.le_trans hsecond hfromSecond
  have hall := ((((hcommon later hfromFirst).append (henclosing later hfromSecond)).append
    (hnested later hfromThird)).append (hannotations later hfromFourth)).append
      (htypes later hlater)
  exact hall.weaken (.refl _) (by simp)

/-! ## Attempts -/

/-- Every event leaves an assembly in order, whether it is accepted or not. -/
theorem Verifiable.visit (h : assembly.Verifiable told) (event : ClassEvent) :
    (visit event).Ensures assembly (fun _ next => next.Verifiable (told ++ [event]))
      (fun _ => Verifiable told) := by
  have htell : event.kind ∉ [.header, .field, .method] → assembly.Verifiable (told ++ [event]) :=
    h.tell
  cases event
  case header header => exact h.visitHeader header
  all_goals
    refine (h.requireOpen _).bind ?_
    rintro ⟨⟩ next rfl
  case enclosing link => exact (htell nofun).collect ..
  case annotated item => exact (htell nofun).collect ..
  case typeAnnotated item => exact (htell nofun).collect ..
  case nested link => exact (htell nofun).collect ..
  case field field => exact h.visitField field
  case method method => exact h.visitMethod method
  case finish => exact h.visitFinish

theorem verifiable_attempt (style : BodyStyle) (events : List ClassEvent) :
    (Assembly.visit.attempt (start style) events).Verifiable
      (Assembly.visit.accepted (start style) events) :=
  Consumer.attempt_induction (fun assembly told => Verifiable told assembly)
    (fun _ _ event h => h.visit event) (verifiable_start style)

/-- A superclass that stands for that of a header is accepted unless an interface has none. -/
theorem Introduces.verifySuperClass_ok {file : ClassFile}
    (h : Introduces header file.access file.thisClass file.superClass file.pool) :
    verifySuperClass file = .ok () ↔ ¬(header.access.isInterface ∧ header.superName = none) := by
  rw [Verification.verifySuperClass_ok, h.access, ← h.noSuperClass]
  by_cases hzero : file.superClass = 0
  · simp [hzero]
  · have hsuper := (Pool.hasOptional_iff.1 h.superClass).resolve_left hzero
    simp [hzero, hsuper]

/-- The attributes of the class file of an assembly in order are accepted if its members are. -/
theorem Verifiable.verifyAttributes_build (h : assembly.Verifiable told)
    (hfields : ∀ member ∈ assembly.fields.toList, AcceptsField assembly.pool member)
    (hmethods : ∀ member ∈ assembly.methods.toList, AcceptsMethod assembly.pool member) :
    AcceptsAttributes assembly.build := by
  have hattributes := (h.parts assembly.pool (Pool.le_refl _)).attributes
  refine ⟨fun item => hattributes.name_isSome, ?_, hattributes.duplicateKind?_eq_none (by decide) _,
    fun item => hattributes.verifyClassAttribute_ok⟩
  intro member hmember item hitem
  rcases List.mem_append.1 hmember with hmember | hmember
  · exact (verifyFieldAttribute_ok.1 ((hfields member hmember).attributes item hitem)).1
  · exact (verifyMethodAttribute_ok.1 ((hmethods member hmember).attributes item hitem)).1

/-- The class file of an assembly in order is accepted if its header and its members are not at
fault. -/
theorem Verifiable.verify_build (h : assembly.Verifiable told)
    (hheader : assembly.header = some header) :
    assembly.build.verify = .ok () ↔
      ¬(header.access.isInterface ∧ header.superName = none)
        ∧ (∀ field, .field field ∈ told → field.access.hasOneVisibility)
        ∧ ∀ method, .method method ∈ told →
          method.access.hasOneVisibility ∧ method.exceptions.length ≤ 65535 := by
  have hparts := h.parts assembly.pool (Pool.le_refl _)
  have hintroduces := hparts.header header hheader
  have hsuper : verifySuperClass assembly.build = .ok () ↔ _ := hintroduces.verifySuperClass_ok
  rw [ClassFile.verify_ok h.closed.sound.laidOut, ← hsuper, ← hparts.fields, ← hparts.methods]
  constructor
  · intro haccepted
    exact ⟨haccepted.superClass, haccepted.fields, haccepted.methods⟩
  · rintro ⟨hsuperClass, hfields, hmethods⟩
    exact ⟨h.closed.linked, hintroduces.thisClass, hsuperClass, hparts.interfaces, hfields,
      hmethods, h.verifyAttributes_build hfields hmethods⟩

theorem Introduces.failsOnly_verifySuperClass {file : ClassFile}
    (h : Introduces header file.access file.thisClass file.superClass file.pool) :
    FailsOnly VerificationError.IsInherited (verifySuperClass file) := by
  unfold verifySuperClass
  split
  · split
    · exact failsOnly_error .superClass
    · exact failsOnly_ok ()
  · rename_i hzero
    have hsuper := (Pool.hasOptional_iff.1 h.superClass).resolve_left hzero
    exact .of_ok (verifyClassIndex_ok.2 hsuper)

theorem InOrder.failsOnly_verifyFields (h : assembly.InOrder told assembly.pool) :
    FailsOnly VerificationError.IsInherited ((verifyFields assembly.build).mapError .field) := by
  refine FailsOnly.mapError (failsOnly_forM fun member hmember => ?_)
  refine (h.fieldFaults member hmember).mono ?_
  rintro _ ⟨access, rfl⟩
  exact .fieldAccess access

theorem InOrder.failsOnly_verifyMethods (h : assembly.InOrder told assembly.pool) :
    FailsOnly VerificationError.IsInherited ((verifyMethods assembly.build).mapError .method) := by
  refine FailsOnly.mapError (failsOnly_forM fun member hmember => ?_)
  refine (h.methodFaults member hmember).mono ?_
  rintro _ (⟨access, rfl⟩ | rfl)
  · exact .methodAccess access
  · exact .exceptions

/-- The class file of an assembly in order has no fault but those that it was told of. -/
theorem Verifiable.failsOnly_verify_build (h : assembly.Verifiable told)
    (hheader : assembly.header = some header) :
    FailsOnly VerificationError.IsInherited assembly.build.verify := by
  have hparts := h.parts assembly.pool (Pool.le_refl _)
  have hintroduces := hparts.header header hheader
  have hpool := (verifyPool_ok h.closed.sound.laidOut).2 h.closed.linked
  have hthis := verifyClassIndex_ok.2 hintroduces.thisClass
  have hinterfaces := forM_eq_ok.2 fun index hindex =>
    verifyClassIndex_ok.2 (hparts.interfaces index hindex)
  refine (FailsOnly.of_ok (mapError_eq_ok.2 hpool)).check fun _ => ?_
  refine (FailsOnly.of_ok hthis).check fun _ => ?_
  refine (Introduces.failsOnly_verifySuperClass hintroduces).check fun _ => ?_
  refine (FailsOnly.of_ok hinterfaces).check fun _ => ?_
  refine hparts.failsOnly_verifyFields.check fun hfields => ?_
  refine hparts.failsOnly_verifyMethods.check fun hmethods => ?_
  -- The attributes are looked at only if all members were accepted.
  have hfields := forM_eq_ok.1 (mapError_eq_ok.1 hfields)
  have hmethods := forM_eq_ok.1 (mapError_eq_ok.1 hmethods)
  have hattributes := h.verifyAttributes_build
    (fun member hmember => verifyField_ok.1 (hfields member hmember))
    fun member hmember => verifyMethod_ok.1 (hmethods member hmember)
  exact .of_ok (mapError_eq_ok.2 (verifyAttributes_ok.2 hattributes))

theorem exists_header_of_toClassFile {file : ClassFile} (h : assembly.toClassFile = .ok file) :
    ∃ header, assembly.header = some header := by
  unfold toClassFile at h
  cases hheader : assembly.header with
  | none =>
    rw [hheader] at h
    cases h
  | some header => exact ⟨header, rfl⟩

/-- Whatever events an assembly is tried with, and whichever of them it refuses, a class file that
it builds has the one header that was accepted, and is accepted itself unless it is an interface
without a superclass, a field or method that was accepted combines visibilities, or such a method
has more exceptions than can be counted. -/
theorem verify_attempt {style : BodyStyle} {events : List ClassEvent} {file : ClassFile}
    (hfile : (Assembly.visit.attempt (start style) events).toClassFile = .ok file) :
    ∃ header, (∀ other, .header other ∈ Assembly.visit.accepted (start style) events ↔
        other = header)
      ∧ (file.verify = .ok () ↔
        ¬(header.access.isInterface ∧ header.superName = none)
          ∧ (∀ field, .field field ∈ Assembly.visit.accepted (start style) events →
            ¬field.access.CombinesVisibilities)
          ∧ ∀ method, .method method ∈ Assembly.visit.accepted (start style) events →
            ¬method.access.CombinesVisibilities ∧ method.exceptions.length ≤ 65535) := by
  have hverifiable := verifiable_attempt style events
  obtain ⟨header, hheader⟩ := exists_header_of_toClassFile hfile
  obtain ⟨rfl, -⟩ := toClassFile_ok hfile
  refine ⟨header, fun other => ?_, ?_⟩
  · rw [hverifiable.header, hheader, Option.some.injEq, eq_comm]
  · rw [hverifiable.verify_build hheader]
    simp only [AccessFlags.hasOneVisibility_iff]

/-- Events of a class `A` that is enclosed in itself, among them two that are refused: a field that
comes too early, and a second header. -/
def selfEnclosedEvents : List ClassEvent :=
  [.field { access := ⟨0x0003⟩, name := "x", descriptor := "I" }, .header headerOfClassA,
    .header headerOfClassA, .enclosing { owner := "A" }, .finish]

/-- The field that is both public and private does not count, as it is refused. -/
theorem verify_attempt_selfEnclosed :
    (Assembly.visit.attempt (start .omit) selfEnclosedEvents).toClassFile =
        .ok (selfEnclosed .omit).build
      ∧ (selfEnclosed .omit).build.verify = .ok () := by
  have hfield : Assembly.visit (.field { access := ⟨0x0003⟩, name := "x", descriptor := "I" })
      (start .omit) = .error (.protocol (.beforeHeader .field)) (start .omit) := rfl
  have hheader := visit_header_ofClassA .omit
  have hsecond : Assembly.visit (.header headerOfClassA) (ofClassA .omit) =
      .error (.protocol (.secondHeader "A")) (ofClassA .omit) := rfl
  have hlink : Assembly.visit (.enclosing { owner := "A" }) (ofClassA .omit) =
      .ok () { ofClassA .omit with enclosing := some { owner := "A" } } := rfl
  have hfinish := visit_finish_ofClassA .omit
  have hattempt : Assembly.visit.attempt (start .omit) selfEnclosedEvents = selfEnclosed .omit := by
    rw [selfEnclosedEvents, Consumer.attempt_cons, Consumer.after_of_error hfield,
      Consumer.attempt_cons, Consumer.after_of_ok hheader, Consumer.attempt_cons,
      Consumer.after_of_error hsecond, Consumer.attempt_cons, Consumer.after_of_ok hlink,
      Consumer.attempt_cons, Consumer.after_of_ok hfinish, Consumer.attempt_nil]
  have haccepted : Assembly.visit.accepted (start .omit) selfEnclosedEvents =
      [.header headerOfClassA, .enclosing { owner := "A" }, .finish] := by
    rw [selfEnclosedEvents, Consumer.accepted_cons_of_error hfield,
      Consumer.accepted_cons_of_ok hheader, Consumer.accepted_cons_of_error hsecond,
      Consumer.accepted_cons_of_ok hlink, Consumer.accepted_cons_of_ok hfinish, Consumer.accepted]
  have hfile : (Assembly.visit.attempt (start .omit) selfEnclosedEvents).toClassFile =
      .ok (selfEnclosed .omit).build := by
    rw [hattempt]
    rfl
  obtain ⟨header, hone, hverify⟩ := verify_attempt hfile
  rw [haccepted] at hone hverify
  obtain rfl := (hone headerOfClassA).1 List.mem_cons_self
  refine ⟨hfile, hverify.2 ⟨by decide, ?_, ?_⟩⟩
  · simp
  · simp

end Assembly

end ClassStub
