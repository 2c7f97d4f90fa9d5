import ClassStub.Proofs.SurfaceBuilding

/-! # Runs of an assembly

An assembly that accepts an event keeps what it had, and adds what stands for the event: from then
on, and in all later pools, the parts that it wrote are read back as the parts it was told of. -/

namespace ClassStub

/-! ## What an assembly was told -/

namespace ClassDescription

/-- The class of which a header and then a run of other events were told: the last enclosing link
counts, everything else adds up. -/
def ofEvents (header : ClassHeader) (events : List ClassEvent) : ClassDescription where
  header := header
  enclosing := (events.filterMap fun | .enclosing link => some link | _ => none).getLast?
  annotations := events.filterMap fun | .annotated item => some item | _ => none
  typeAnnotations := events.filterMap fun | .typeAnnotated item => some item | _ => none
  nested := events.filterMap fun | .nested link => some link | _ => none
  fields := events.filterMap fun | .field item => some item | _ => none
  methods := events.filterMap fun | .method item => some item | _ => none

/-- The class of which one more event was told. -/
def add (description : ClassDescription) : ClassEvent → ClassDescription
  | .header _ | .finish => description
  | .enclosing link => { description with enclosing := some link }
  | .annotated item => { description with annotations := description.annotations ++ [item] }
  | .typeAnnotated item =>
    { description with typeAnnotations := description.typeAnnotations ++ [item] }
  | .nested link => { description with nested := description.nested ++ [link] }
  | .field item => { description with fields := description.fields ++ [item] }
  | .method item => { description with methods := description.methods ++ [item] }

theorem ofEvents_concat (header : ClassHeader) (events : List ClassEvent) (event : ClassEvent) :
    ofEvents header (events ++ [event]) = (ofEvents header events).add event := by
  cases event <;> simp [ofEvents, add]

theorem foldl_add_ofEvents (header : ClassHeader) (seen events : List ClassEvent) :
    events.foldl add (ofEvents header seen) = ofEvents header (seen ++ events) := by
  induction events generalizing seen with
  | nil => rw [List.append_nil, List.foldl_nil]
  | cons event events ih =>
    rw [List.foldl_cons, ← ofEvents_concat, ih, List.append_assoc, List.singleton_append]

/-- The class with its visible annotations before the invisible ones. -/
def visibleFirst (description : ClassDescription) : ClassDescription :=
  { description with
    annotations := ClassStub.visibleFirst Annotation.visible description.annotations
    typeAnnotations := ClassStub.visibleFirst TypeAnnotation.visible description.typeAnnotations }

end ClassDescription

/-- A member stands for a field, and its attributes have bodies of the sizes that belong to the
field. -/
def Field.IsWrittenAs (pool : Pool) (member : Member) (field : Field) : Prop :=
  (∀ file : ClassFile, file.pool = pool → file.decodeField member = .ok field)
    ∧ member.attributes.map (·.body.length) = field.bodySizes

/-- A member stands for a method, and its attributes have bodies of the sizes that belong to the
method. -/
def Method.IsWrittenAs (pool : Pool) (style : BodyStyle) (member : Member) (method : Method) :
    Prop :=
  (∀ file : ClassFile, file.pool = pool → file.decodeMethod member = .ok method)
    ∧ member.attributes.map (·.body.length) = method.bodySizes style

theorem Field.IsWrittenAs.mono {pool later : Pool} {member : Member} {field : Field}
    (hle : pool ≤ later) (h : field.IsWrittenAs pool member) : field.IsWrittenAs later member := by
  refine ⟨?_, h.2⟩
  rintro file rfl
  exact ClassFile.decodeField_mono hle (h.1 { file with pool } rfl)

theorem Method.IsWrittenAs.mono {pool later : Pool} {style : BodyStyle} {member : Member}
    {method : Method} (hle : pool ≤ later) (h : method.IsWrittenAs pool style member) :
    method.IsWrittenAs later style member := by
  refine ⟨?_, h.2⟩
  rintro file rfl
  exact ClassFile.decodeMethod_mono hle (h.1 { file with pool } rfl)

namespace Assembly

/-- An assembly that is open has written, in terms of its pool, what it was told of a class. -/
structure Holds (texts : JavaText → Prop) (style : BodyStyle) (description : ClassDescription)
    (assembly : Assembly) : Prop where
  bodies : assembly.bodies = style
  pool : assembly.pool.Sound texts
  slots : assembly.pool.slots.size ≤ Pool.maxSlots
  header : assembly.header = some description.header
  version : assembly.version = description.header.version
  access : assembly.access = description.header.access
  thisClass : assembly.pool.getClassName assembly.thisClass = .ok description.header.name
  superClass :
    assembly.pool.getOptionalClassName assembly.superClass = .ok description.header.superName
  interfaces : List.Forall₂ (fun index name => assembly.pool.getClassName index = .ok name)
    assembly.interfaces.toList description.header.interfaces
  enclosing : assembly.enclosing = description.enclosing
  annotations : assembly.annotations.toList = description.annotations
  typeAnnotations : assembly.typeAnnotations.toList = description.typeAnnotations
  nested : assembly.nested.toList = description.nested
  fields : List.Forall₂ (fun member field => Field.IsWrittenAs assembly.pool member field)
    assembly.fields.toList description.fields
  methods : List.Forall₂ (fun member method => Method.IsWrittenAs assembly.pool style member method)
    assembly.methods.toList description.methods

variable {texts : JavaText → Prop} {assembly next : Assembly} {α : Type}

theorem interning_ok {action : PoolM α} {value : α}
    (h : interning action assembly = .ok value next) :
    ∃ pool, action assembly.pool = .ok value pool ∧ next = { assembly with pool } := by
  unfold interning at h
  dsimp only at h
  split at h
  · cases h
    exact ⟨_, ‹_›, rfl⟩
  · cases h

/-- What was added to the pool of an assembly has its meaning in all later pools. -/
theorem interning_spec {action : PoolM α} {meaning : Pool → α → Prop}
    (haction : Interns texts action meaning) (hpool : assembly.pool.Sound texts) {value : α}
    (h : interning action assembly = .ok value next) :
    ∃ pool, next = { assembly with pool } ∧ assembly.pool.Grown texts pool
      ∧ ∀ later, pool ≤ later → meaning later value := by
  obtain ⟨pool, haction', rfl⟩ := interning_ok h
  obtain ⟨hgrown, hmeaning⟩ := haction.grown hpool haction'
  exact ⟨pool, rfl, hgrown, hmeaning⟩

theorem requireOpen_ok {kind : EventKind} {value : Unit}
    (h : requireOpen kind assembly = .ok value next) :
    assembly.header.isSome ∧ assembly.finished = false ∧ next = assembly := by
  unfold requireOpen at h
  obtain ⟨found, middle, hget, h⟩ := Run.bind_ok.1 h
  cases hget
  cases hheader : assembly.header with
  | none =>
    rw [hheader] at h
    cases h
  | some header =>
    rw [hheader] at h
    cases hfinished : assembly.finished with
    | true =>
      rw [hfinished] at h
      cases h
    | false =>
      rw [hfinished] at h
      cases h
      exact ⟨rfl, rfl, rfl⟩

/-- Adding to the pool leaves what an assembly holds as it is. -/
theorem Holds.grow {style : BodyStyle} {description : ClassDescription}
    (h : assembly.Holds texts style description) {pool : Pool}
    (hgrown : assembly.pool.Grown texts pool) :
    Holds texts style description { assembly with pool } where
  bodies := h.bodies
  pool := hgrown.sound
  slots := Nat.le_trans hgrown.size_le (Nat.max_le.2 ⟨h.slots, Nat.le_refl _⟩)
  header := h.header
  version := h.version
  access := h.access
  thisClass := Pool.getClassName_mono hgrown.le h.thisClass
  superClass := Pool.getOptionalClassName_mono hgrown.le h.superClass
  interfaces := h.interfaces.imp fun _ _ => Pool.getClassName_mono hgrown.le
  enclosing := h.enclosing
  annotations := h.annotations
  typeAnnotations := h.typeAnnotations
  nested := h.nested
  fields := h.fields.imp fun _ _ => Field.IsWrittenAs.mono hgrown.le
  methods := h.methods.imp fun _ _ => Method.IsWrittenAs.mono hgrown.le

section Steps

variable {style : BodyStyle} {description : ClassDescription}
  (hname : ∀ kind : AttributeKind, texts (.ofString kind.name))

theorem push_toList {β : Type} {items : Array β} {item : β} {list : List β}
    (h : items.toList = list) : (items.push item).toList = list ++ [item] := by
  rw [Array.toList_push, h]

theorem forall₂_push {β : Type} {relation : α → β → Prop} {items : Array α} {item : α}
    {others : List β} {other : β} (h : List.Forall₂ relation items.toList others)
    (hitem : relation item other) :
    List.Forall₂ relation (items.push item).toList (others ++ [other]) := by
  rw [Array.toList_push]
  exact List.rel_append h (.cons hitem .nil)

include hname

theorem Holds.visitField {field : Field} (h : assembly.Holds texts style description)
    (hfield : field.Within texts) (hrun : visitField field assembly = .ok () next) :
    next.Holds texts style (description.add (.field field)) := by
  obtain ⟨member, middle, hmember, hpush⟩ := Run.bind_ok.1 hrun
  obtain ⟨pool, rfl, hgrown, hmeaning⟩ :=
    interning_spec (Field.interns_encode hname hfield) h.pool hmember
  cases hpush
  have hholds := h.grow hgrown
  have hwritten := hmeaning pool (Pool.le_refl pool)
  exact { hholds with fields := forall₂_push hholds.fields hwritten }

theorem Holds.visitMethod {method : Method} (h : assembly.Holds texts style description)
    (hmethod : method.Within texts) (hrun : visitMethod method assembly = .ok () next) :
    next.Holds texts style (description.add (.method method)) := by
  obtain ⟨_, _, hget, hrun⟩ := Run.bind_ok.1 hrun
  cases hget
  rw [h.bodies] at hrun
  obtain ⟨member, middle, hmember, hpush⟩ := Run.bind_ok.1 hrun
  obtain ⟨pool, rfl, hgrown, hmeaning⟩ :=
    interning_spec (Method.interns_encode hname hmethod style) h.pool hmember
  cases hpush
  have hholds := h.grow hgrown
  have hwritten := hmeaning pool (Pool.le_refl pool)
  exact { hholds with methods := forall₂_push hholds.methods hwritten }

/-- An open assembly that accepts an event holds what it was told with that event. -/
theorem Holds.step {event : ClassEvent} (h : assembly.Holds texts style description)
    (hevent : event.Within texts) (hheader : event.kind ≠ .header) (hfinish : event.kind ≠ .finish)
    (hrun : visit event assembly = .ok () next) :
    next.Holds texts style (description.add event) := by
  cases event
  case header => exact absurd rfl hheader
  case finish => exact absurd rfl hfinish
  all_goals
    obtain ⟨_, middle, hopen, hstep⟩ := Run.bind_ok.1 hrun
    obtain ⟨-, -, rfl⟩ := requireOpen_ok hopen
  case enclosing link =>
    cases hstep
    exact { h with enclosing := rfl }
  case annotated item =>
    cases hstep
    exact { h with annotations := push_toList h.annotations }
  case typeAnnotated item =>
    cases hstep
    exact { h with typeAnnotations := push_toList h.typeAnnotations }
  case nested link =>
    cases hstep
    exact { h with nested := push_toList h.nested }
  case field field => exact h.visitField hname hevent hstep
  case method method => exact h.visitMethod hname hevent hstep

/-- An open assembly that accepts a run of events holds what it was told in the run. -/
theorem Holds.run {events : List ClassEvent} (h : assembly.Holds texts style description)
    (hevents : ∀ event ∈ events,
      event.Within texts ∧ event.kind ≠ .header ∧ event.kind ≠ .finish)
    (hrun : events.forM visit assembly = .ok () next) :
    next.Holds texts style (events.foldl ClassDescription.add description) := by
  induction events generalizing assembly description with
  | nil =>
    cases hrun
    exact h
  | cons event events ih =>
    obtain ⟨⟨hwithin, hheader, hfinish⟩, hrest⟩ := List.forall_mem_cons.1 hevents
    obtain ⟨middle, hevent, hrun⟩ := Run.forM_cons_ok.1 hrun
    exact ih (h.step hname hwithin hheader hfinish hevent) hrest hrun

end Steps

/-! ## The header -/

/-- The interfaces of a header are listed in order. -/
theorem forM_interfaces {names : List String} (hnames : ∀ name ∈ names, NameWithin texts name)
    (hpool : assembly.pool.Sound texts)
    (hrun : (names.forM fun name => do
        let index ← interning (Pool.addClass name)
        modify fun assembly : Assembly =>
          { assembly with interfaces := assembly.interfaces.push index }) assembly = .ok () next) :
    ∃ pool, ∃ indexes : List UInt16,
      next = { assembly with pool, interfaces := assembly.interfaces ++ indexes }
        ∧ assembly.pool.Grown texts pool
        ∧ List.Forall₂ (fun index name => pool.getClassName index = .ok name) indexes names := by
  induction names generalizing assembly with
  | nil =>
    cases hrun
    exact ⟨next.pool, [], by rw [Array.appendList_nil], hpool.grown, .nil⟩
  | cons name names ih =>
    obtain ⟨hname, hrest⟩ := List.forall_mem_cons.1 hnames
    obtain ⟨_, middle, hstep, hloop⟩ := Run.bind_ok.1 hrun
    obtain ⟨index, _, hindex, hpush⟩ := Run.bind_ok.1 hstep
    obtain ⟨pool, rfl, hgrown, hmeaning⟩ :=
      interning_spec (Pool.interns_addClass hname) hpool hindex
    cases hpush
    obtain ⟨pool', indexes, rfl, hgrown', hindexes⟩ := ih hrest hgrown.sound hloop
    refine ⟨pool', index :: indexes, ?_, hgrown.trans hgrown', .cons ?_ hindexes⟩
    · rw [Array.appendList_cons]
    · exact (hmeaning pool' hgrown'.le).2

/-- A fresh assembly that accepts a header holds it. -/
theorem holds_of_header {style : BodyStyle} {header : ClassHeader} (hheader : header.Within texts)
    (hrun : visit (.header header) (start style) = .ok () next) :
    next.Holds texts style (.ofEvents header []) := by
  obtain ⟨_, _, hget, hopen⟩ := Run.bind_ok.1 hrun
  cases hget
  have hfresh : ¬ (start style).header.isSome = true := Bool.false_ne_true
  rw [if_neg hfresh] at hopen
  obtain ⟨_, _, hversion, hbehind⟩ := Run.bind_ok.1 hopen
  cases hversion
  obtain ⟨thisClass, _, hthis, hbehind⟩ := Run.bind_ok.1 hbehind
  obtain ⟨pool, rfl, hgrown, hname⟩ :=
    interning_spec (Pool.interns_addClass hheader.name) Pool.sound_empty hthis
  obtain ⟨_, _, hset, hbehind⟩ := Run.bind_ok.1 hbehind
  cases hset
  obtain ⟨superClass, _, hsuper, hbehind⟩ := Run.bind_ok.1 hbehind
  obtain ⟨pool', rfl, hgrown', hsuperName⟩ :=
    interning_spec (Pool.interns_addOptionalClass hheader.superName) hgrown.sound hsuper
  obtain ⟨_, _, hset, hbehind⟩ := Run.bind_ok.1 hbehind
  cases hset
  obtain ⟨_, _, hloop, hdone⟩ := Run.bind_ok.1 hbehind
  obtain ⟨pool'', indexes, rfl, hgrown'', hindexes⟩ :=
    forM_interfaces hheader.interfaces hgrown'.sound hloop
  cases hdone
  have hall := (hgrown.trans hgrown').trans hgrown''
  exact {
    bodies := rfl
    pool := hall.sound
    slots := Nat.le_trans hall.size_le (Nat.max_le.2 ⟨Nat.zero_le _, Nat.le_refl _⟩)
    header := rfl
    version := rfl
    access := rfl
    thisClass := (hname pool'' (Pool.le_trans hgrown'.le hgrown''.le)).2
    superClass := hsuperName pool'' hgrown''.le
    interfaces := by
      rw [Array.toList_appendList]
      exact hindexes
    enclosing := rfl
    annotations := rfl
    typeAnnotations := rfl
    nested := rfl
    fields := .nil
    methods := .nil }

/-! ## The closing event -/

end Assembly

/-- The sizes of the bodies of the attributes of a class. -/
def ClassDescription.bodySizes (description : ClassDescription) : List Nat :=
  commonSizes description.header.signature description.header.deprecated
      description.header.synthetic
    ++ (description.enclosing.toList.map fun _ => 4)
    ++ listSizes (fun _ => 8) description.nested
    ++ visibilitySizes Annotation.visible Annotation.writtenSize description.annotations
    ++ visibilitySizes TypeAnnotation.visible TypeAnnotation.writtenSize description.typeAnnotations

/-- What the attributes of a class say that an assembly was told of. -/
def ClassDescription.digest (description : ClassDescription) : Digest where
  signature := description.header.signature
  deprecated := description.header.deprecated
  synthetic := description.header.synthetic
  annotations := ClassStub.visibleFirst Annotation.visible description.annotations
  typeAnnotations := ClassStub.visibleFirst TypeAnnotation.visible description.typeAnnotations
  enclosing := description.enclosing
  nested := if description.nested.isEmpty then none else some description.nested

namespace Assembly

variable {texts : JavaText → Prop} {assembly next : Assembly}

theorem nestedAttribute_ok {links : List NestedLink} {attributes : List Attribute}
    (h : nestedAttribute links assembly = .ok attributes next) :
    links.length ≤ 65535
      ∧ interning (Attribute.unlessEmpty links Attribute.nested) assembly =
        .ok attributes next := by
  unfold nestedAttribute checkCount at h
  by_cases hcount : links.length > 65535
  · rw [if_pos hcount] at h
    cases h
  · rw [if_neg hcount] at h
    exact ⟨Nat.le_of_not_lt hcount, h⟩

end Assembly

/-- The parts of a class that its own attributes tell can be written. -/
structure ClassDescription.FrontWithin (texts : JavaText → Prop) (description : ClassDescription) :
    Prop where
  header : description.header.Within texts
  enclosing : ∀ link ∈ description.enclosing, link.Within texts
  annotations : Annotation.ListWithin texts description.annotations
  typeAnnotations : TypeAnnotation.ListWithin texts description.typeAnnotations
  nested : ∀ link ∈ description.nested, link.Within texts

/-- What is picked out of events that can be written can be written. -/
theorem forall_mem_filterMap_events {α : Type} {texts : JavaText → Prop} {events : List ClassEvent}
    {select : ClassEvent → Option α} {property : α → Prop}
    (hevents : ∀ event ∈ events, event.Within texts)
    (hselect : ∀ (event : ClassEvent) (item : α), event.Within texts → select event = some item →
      property item) : ∀ item ∈ events.filterMap select, property item := by
  intro item hitem
  obtain ⟨event, hevent, hselected⟩ := List.mem_filterMap.1 hitem
  exact hselect event item (hevents event hevent) hselected

/-- The parts of a class can be written if the events were that told them. -/
theorem ClassDescription.frontWithin_ofEvents {texts : JavaText → Prop} {header : ClassHeader}
    {events : List ClassEvent} (hheader : header.Within texts)
    (hevents : ∀ event ∈ events, event.Within texts)
    (hannotations : ∀ visible, ((ofEvents header events).annotations.filter
      (·.visible == visible)).length ≤ 65535)
    (htypeAnnotations : ∀ visible, ((ofEvents header events).typeAnnotations.filter
      (·.visible == visible)).length ≤ 65535) :
    (ofEvents header events).FrontWithin texts := by
  refine ⟨hheader, fun link hlink => ?_, ⟨hannotations, ?_⟩, ⟨htypeAnnotations, ?_⟩, ?_⟩
  · refine forall_mem_filterMap_events hevents (fun event link hwithin hselected => ?_) link
      (List.mem_of_getLast? hlink)
    cases event <;> cases hselected
    exact hwithin
  all_goals
    refine forall_mem_filterMap_events hevents fun event item hwithin hselected => ?_
    cases event <;> cases hselected
    exact hwithin

namespace Assembly

variable {style : BodyStyle} {description : ClassDescription}

/-- The closing event writes the attributes of the class. -/
theorem Holds.finish (hname : ∀ kind : AttributeKind, texts (.ofString kind.name))
    (h : assembly.Holds texts style description) (hfront : description.FrontWithin texts)
    (hrun : visit .finish assembly = .ok () next) :
    ∃ pool attributes, next = { assembly with pool, attributes, finished := true }
      ∧ assembly.pool.Grown texts pool
      ∧ Says pool .onClass description.digest description.bodySizes attributes := by
  obtain ⟨_, _, hopen, hbehind⟩ := Run.bind_ok.1 hrun
  obtain ⟨-, -, rfl⟩ := requireOpen_ok hopen
  obtain ⟨_, _, hget, hbehind⟩ := Run.bind_ok.1 hbehind
  cases hget
  have hcommonWrites := Attribute.writes_common hname .onClass description.header.deprecated
    description.header.synthetic hfront.header.signature
  have henclosingWrites := Attribute.writes_enclosing hname hfront.enclosing
  have hannotationsWrites := Attribute.writes_annotations hname .onClass hfront.annotations
  have htypesWrites := Attribute.writes_typeAnnotations hname .onClass hfront.typeAnnotations
  rw [← h.enclosing] at henclosingWrites
  rw [← h.annotations] at hannotationsWrites
  rw [← h.typeAnnotations] at htypesWrites
  obtain ⟨common, _, hcommon, hbehind⟩ := Run.bind_ok.1 hbehind
  rw [h.header] at hcommon
  obtain ⟨first, rfl, hfirst, hcommon⟩ := interning_spec hcommonWrites h.pool hcommon
  obtain ⟨_, _, hget, hbehind⟩ := Run.bind_ok.1 hbehind
  cases hget
  obtain ⟨enclosing, _, henclosing, hbehind⟩ := Run.bind_ok.1 hbehind
  obtain ⟨second, rfl, hsecond, henclosing⟩ :=
    interning_spec henclosingWrites hfirst.sound henclosing
  obtain ⟨_, _, hget, hbehind⟩ := Run.bind_ok.1 hbehind
  cases hget
  obtain ⟨nested, _, hnested, hbehind⟩ := Run.bind_ok.1 hbehind
  obtain ⟨hcount, hnested⟩ := nestedAttribute_ok hnested
  have hlinks := hfront.nested
  rw [← h.nested] at hlinks
  obtain ⟨third, rfl, hthird, hnested⟩ :=
    interning_spec (Attribute.writes_nested hname hcount hlinks) hsecond.sound hnested
  obtain ⟨_, _, hget, hbehind⟩ := Run.bind_ok.1 hbehind
  cases hget
  obtain ⟨annotations, _, hannotations, hbehind⟩ := Run.bind_ok.1 hbehind
  obtain ⟨fourth, rfl, hfourth, hannotations⟩ :=
    interning_spec hannotationsWrites hthird.sound hannotations
  obtain ⟨_, _, hget, hbehind⟩ := Run.bind_ok.1 hbehind
  cases hget
  obtain ⟨types, _, htypes, hdone⟩ := Run.bind_ok.1 hbehind
  obtain ⟨last, rfl, hlast, htypes⟩ := interning_spec htypesWrites hfourth.sound htypes
  cases hdone
  refine ⟨last, _, rfl, (((hfirst.trans hsecond).trans hthird).trans hfourth).trans hlast, ?_⟩
  -- Each attribute list was read back in the pool of its time; all of them are in the last one.
  have hfromThird := Pool.le_trans hfourth.le hlast.le
  have hfromSecond := Pool.le_trans hthird.le hfromThird
  have hfromFirst := Pool.le_trans hsecond.le hfromSecond
  have hall := ((((hcommon last hfromFirst).append (henclosing last hfromSecond)).append
    (hnested last hfromThird)).append (hannotations last hlast.le)).append
      (htypes last (Pool.le_refl last))
  simp only [h.enclosing, h.annotations, h.typeAnnotations, h.nested, Digest.append_eq,
    Digest.append, Option.or_none, Option.none_or, Bool.or_false, List.append_nil,
    List.nil_append] at hall
  exact hall

end Assembly

/-! ## Class files that were assembled -/

/-- A class file that can be written, up to the lengths of attribute bodies, and that describes a
class. -/
structure ClassFile.Holds (texts : JavaText → Prop) (style : BodyStyle)
    (description : ClassDescription) (file : ClassFile) : Prop where
  magic : file.magic = standardMagic
  pool : file.pool.Sound texts
  slots : file.pool.slots.size ≤ Pool.maxSlots
  interfaces : file.interfaces.length ≤ 65535
  fields : file.fields.length ≤ 65535
  methods : file.methods.length ≤ 65535
  describes : file.Describes description.visibleFirst
  sizes : file.attributes.map (·.body.length) = description.bodySizes
  fieldSizes : List.Forall₂
    (fun member field => member.attributes.map (·.body.length) = Field.bodySizes field)
    file.fields description.fields
  methodSizes : List.Forall₂
    (fun member method => member.attributes.map (·.body.length) = Method.bodySizes method style)
    file.methods description.methods

theorem Assembly.checkCount_ok {part : CountedPart} {count : Nat} {value : Unit}
    (h : checkCount part count = .ok value) : count ≤ 65535 := by
  unfold checkCount at h
  by_cases hcount : count > 65535
  · rw [if_pos hcount] at h
    cases h
  · exact Nat.le_of_not_lt hcount

/-- An assembly with a class file was finished, and its parts can be counted. -/
theorem Assembly.toClassFile_ok {assembly : Assembly} {file : ClassFile}
    (h : assembly.toClassFile = .ok file) :
    file = assembly.build ∧ assembly.interfaces.size ≤ 65535 ∧ assembly.fields.size ≤ 65535
      ∧ assembly.methods.size ≤ 65535 := by
  unfold toClassFile at h
  by_cases hheader : assembly.header.isNone
  · rw [if_pos hheader] at h
    cases h
  · rw [if_neg hheader] at h
    by_cases hfinished : assembly.finished
    · rw [hfinished, if_neg (by decide)] at h
      obtain ⟨_, hcounts, h⟩ := bind_eq_ok.1 h
      obtain ⟨_, hinterfaces, hcounts⟩ := bind_eq_ok.1 (mapError_eq_ok.1 hcounts)
      obtain ⟨_, hfields, hcounts⟩ := bind_eq_ok.1 hcounts
      obtain ⟨_, hmethods, -⟩ := bind_eq_ok.1 hcounts
      exact ⟨(pure_eq_ok.1 h).symm, checkCount_ok hinterfaces, checkCount_ok hfields,
        checkCount_ok hmethods⟩
    · rw [if_pos (by rw [Bool.eq_false_iff.2 hfinished]; rfl)] at h
      cases h

/-- The class file of a finished assembly describes the class that the assembly was told of. -/
theorem Assembly.holds_of_run {texts : JavaText → Prop} {style : BodyStyle} {header : ClassHeader}
    {middle : List ClassEvent} {assembly : Assembly} {file : ClassFile}
    (hname : ∀ kind : AttributeKind, texts (.ofString kind.name)) (hheader : header.Within texts)
    (hmiddle : ∀ event ∈ middle, event.Within texts ∧ event.kind ≠ .header ∧ event.kind ≠ .finish)
    (hannotations : ∀ visible, ((ClassDescription.ofEvents header middle).annotations.filter
      (·.visible == visible)).length ≤ 65535)
    (htypeAnnotations : ∀ visible, ((ClassDescription.ofEvents header middle).typeAnnotations.filter
      (·.visible == visible)).length ≤ 65535)
    (hrun : (.header header :: (middle ++ [.finish])).forM visit (start style) = .ok () assembly)
    (hfile : assembly.toClassFile = .ok file) :
    file.Holds texts style (.ofEvents header middle) := by
  have hfront := ClassDescription.frontWithin_ofEvents hheader (fun event hevent =>
    (hmiddle event hevent).1) hannotations htypeAnnotations
  obtain ⟨first, hfirst, hrest⟩ := Run.forM_cons_ok.1 hrun
  obtain ⟨last, hlast, hrest⟩ := Run.forM_append_ok.1 hrest
  obtain ⟨_, hfinish, hnil⟩ := Run.forM_cons_ok.1 hrest
  cases hnil
  have hopen := (holds_of_header hheader hfirst).run hname hmiddle hlast
  rw [ClassDescription.foldl_add_ofEvents, List.nil_append] at hopen
  revert hopen hfront
  generalize ClassDescription.ofEvents header middle = description
  intro hfront hopen
  obtain ⟨pool, attributes, rfl, hgrown, hsays⟩ := hopen.finish hname hfront hfinish
  obtain ⟨rfl, hinterfaces, hfields, hmethods⟩ := toClassFile_ok hfile
  have hholds := hopen.grow hgrown
  obtain ⟨statements, hstatements, hdigest⟩ := hsays.decode
  refine ⟨rfl, hholds.pool, hholds.slots, hinterfaces, hfields, hmethods, ⟨?_, ?_, ?_⟩, hsays.sizes,
    hholds.fields.imp fun _ _ h => h.2, hholds.methods.imp fun _ _ h => h.2⟩
  · refine ⟨_, _, _, statements, hholds.thisClass, hholds.superClass,
      mapM_eq_ok.2 hholds.interfaces, hstatements, ?_⟩
    rw [hdigest]
    refine ⟨?_, rfl, rfl, rfl, ?_⟩
    · change description.header = ClassHeader.mk last.version last.access _ _ _ _ _ _
      rw [hholds.version, hholds.access]
      rfl
    · change description.nested = (if description.nested.isEmpty then none else _).getD []
      cases description.nested <;> rfl
  · exact mapM_eq_ok.2 (hholds.fields.imp fun _ _ h => h.1 _ rfl)
  · exact mapM_eq_ok.2 (hholds.methods.imp fun _ _ h => h.1 _ rfl)

end ClassStub
