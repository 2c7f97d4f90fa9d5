import ClassStub.Proofs.AssemblyRun
import ClassStub.Proofs.Container

/-! # Assembled classes are read back

The bytes of a class file that was assembled from writable events are parsed, and a replay of what
was parsed tells the same events: the header, the last enclosing link, the annotations and type
annotations with the visible ones first, then the nested links, the fields and the methods in the
order in which the assembly was told of them. -/

namespace ClassStub

/-! ## Recorded events -/

/-- A recorder without a limit writes down whatever it is told. -/
theorem forM_record_none (events : List ClassEvent) (seen : Array ClassEvent) :
    events.forM (record none) seen = .ok () (seen ++ events.toArray) := by
  induction events generalizing seen with
  | nil =>
    rw [Array.append_empty]
    rfl
  | cons event events ih =>
    have hseen : seen ++ (event :: events).toArray = seen.push event ++ events.toArray := by
      rw [← List.singleton_append, ← List.append_toArray, ← Array.append_assoc,
        ← Array.push_eq_append]
    rw [hseen]
    exact Run.forM_cons_ok.2 ⟨seen.push event, rfl, ih _⟩

/-- The events that are recorded of a class file are those of its description. -/
theorem ClassFile.replay_record_ok {file : ClassFile} {events : Array ClassEvent} :
    (file.replay (record none)).outcome #[] = (.ok (), events) ↔
      ∃ description, file.Describes description ∧ description.events.toArray = events := by
  rw [Run.outcome_ok, replay_ok]
  refine exists_congr fun description => and_congr_right fun _ => ?_
  rw [forM_record_none, Array.empty_append]
  constructor
  · intro h
    cases h
    rfl
  · rintro rfl
    rfl

/-! ## How many attributes there are -/

section Sizes

variable {α : Type} (size : α → Nat) (items : List α)

theorem length_listSizes_le : (listSizes size items).length ≤ 1 := by
  unfold listSizes
  by_cases hitems : items.isEmpty
  · rw [if_pos hitems]
    exact Nat.zero_le 1
  · rw [if_neg hitems]
    exact Nat.le_refl 1

theorem length_visibilitySizes_le (visible : α → Bool) :
    (visibilitySizes visible size items).length ≤ 2 := by
  rw [visibilitySizes, List.length_append]
  exact Nat.add_le_add (length_listSizes_le ..) (length_listSizes_le ..)

theorem length_map_toList_le {β : Type} (value : Option α) (f : α → β) :
    (value.toList.map f).length ≤ 1 := by
  rw [List.length_map]
  exact Option.length_toList_le

theorem length_commonSizes_le (signature : Option String) (deprecated synthetic : Bool) :
    (commonSizes signature deprecated synthetic).length ≤ 3 := by
  have hsignature := length_map_toList_le signature fun _ => 2
  have hmarker : ∀ wanted : Bool, (if wanted then [0] else [] : List Nat).length ≤ 1 := by decide
  have hdeprecated := hmarker deprecated
  have hsynthetic := hmarker synthetic
  rw [commonSizes, List.length_append, List.length_append]
  omega

end Sizes

theorem ClassDescription.length_bodySizes_le (description : ClassDescription) :
    description.bodySizes.length ≤ 9 := by
  have hcommon := length_commonSizes_le description.header.signature
    description.header.deprecated description.header.synthetic
  have henclosing := length_map_toList_le description.enclosing fun _ => 4
  have hnested := length_listSizes_le (fun _ => 8) description.nested
  have hannotations := length_visibilitySizes_le Annotation.writtenSize description.annotations
    Annotation.visible
  have htypes := length_visibilitySizes_le TypeAnnotation.writtenSize description.typeAnnotations
    TypeAnnotation.visible
  simp only [bodySizes, List.length_append]
  omega

theorem Field.length_bodySizes_le (field : Field) : field.bodySizes.length ≤ 8 := by
  have hvalue := length_map_toList_le field.value fun _ => 2
  have hcommon := length_commonSizes_le field.signature field.deprecated field.synthetic
  have hannotations := length_visibilitySizes_le Annotation.writtenSize field.annotations.toList
    Annotation.visible
  have htypes := length_visibilitySizes_le TypeAnnotation.writtenSize field.typeAnnotations.toList
    TypeAnnotation.visible
  simp only [bodySizes, List.length_append]
  omega

theorem Method.length_bodySizes_le (method : Method) (style : BodyStyle) :
    (method.bodySizes style).length ≤ 12 := by
  have hcode := length_map_toList_le (method.stubCode style) fun code => code.toBytes.length
  have hexceptions := length_listSizes_le (fun _ => 2) method.exceptions
  have hcommon := length_commonSizes_le method.signature method.deprecated method.synthetic
  have hdefault := length_map_toList_le method.defaultValue ElementValue.writtenSize
  have hannotations := length_visibilitySizes_le Annotation.writtenSize method.annotations.toList
    Annotation.visible
  have hvisible := length_map_toList_le method.visibleParameters ParameterTable.writtenSize
  have hinvisible := length_map_toList_le method.invisibleParameters ParameterTable.writtenSize
  have htypes := length_visibilitySizes_le TypeAnnotation.writtenSize method.typeAnnotations.toList
    TypeAnnotation.visible
  simp only [bodySizes, List.length_append]
  omega

/-! ## Reading back -/

theorem AttributeKind.isWritable_name (kind : AttributeKind) :
    (JavaText.ofString kind.name).IsWritable := by
  cases kind <;> decide

namespace ClassFile

variable {style : BodyStyle} {description : ClassDescription} {file : ClassFile}

/-- The bodies of all attributes can be written. -/
structure BodiesWritable (file : ClassFile) : Prop where
  attributes : ∀ item ∈ file.attributes, item.IsWritable
  fields : ∀ member ∈ file.fields, ∀ item ∈ member.attributes, item.IsWritable
  methods : ∀ member ∈ file.methods, ∀ item ∈ member.attributes, item.IsWritable

theorem listWritable_of_sizes {items : List Attribute} {sizes : List Nat}
    (hsizes : items.map (·.body.length) = sizes) (hcount : sizes.length ≤ 65535)
    (h : ∀ item ∈ items, item.IsWritable) : Attribute.ListWritable items := by
  refine ⟨?_, h⟩
  rwa [← hsizes, List.length_map] at hcount

/-- An assembled class file can be written if the bodies of its attributes can. -/
theorem Holds.isWritable (h : file.Holds JavaText.IsWritable style description)
    (hbodies : file.BodiesWritable) : file.IsWritable := by
  refine ⟨h.magic, h.pool, h.slots, h.interfaces, h.fields, h.methods, ?_, ?_, ?_⟩
  · intro member hmember
    obtain ⟨field, -, hsizes⟩ := exists_of_forall₂ h.fieldSizes hmember
    exact listWritable_of_sizes hsizes (field.length_bodySizes_le.trans (by decide))
      (hbodies.fields member hmember)
  · intro member hmember
    obtain ⟨method, -, hsizes⟩ := exists_of_forall₂ h.methodSizes hmember
    exact listWritable_of_sizes hsizes ((method.length_bodySizes_le style).trans (by decide))
      (hbodies.methods member hmember)
  · exact listWritable_of_sizes h.sizes (description.length_bodySizes_le.trans (by decide))
      hbodies.attributes

/-- An assembled class file that can be written is parsed, and describes what it did. -/
theorem Holds.parse_toBytes (h : file.Holds JavaText.IsWritable style description)
    (hbodies : file.BodiesWritable) :
    ∃ parsed, parse file.toBytes = .ok parsed ∧ parsed.Describes description.visibleFirst :=
  ⟨file.written, ClassFile.parse_toBytes (h.isWritable hbodies),
    h.describes.mono (Pool.le_of_slots_eq rfl)⟩

/-- What an assembly was told, from a header to the closing event, is told by a replay of the class
file that it wrote: only annotations move, behind those that are visible. -/
theorem replay_of_run {header : ClassHeader} {middle : List ClassEvent} {assembly : Assembly}
    (hheader : header.Within JavaText.IsWritable)
    (hmiddle : ∀ event ∈ middle,
      event.Within JavaText.IsWritable ∧ event.kind ≠ .header ∧ event.kind ≠ .finish)
    (hannotations : ∀ visible, ((ClassDescription.ofEvents header middle).annotations.filter
      (·.visible == visible)).length ≤ 65535)
    (htypeAnnotations : ∀ visible, ((ClassDescription.ofEvents header middle).typeAnnotations.filter
      (·.visible == visible)).length ≤ 65535)
    (hrun : ((.header header :: (middle ++ [.finish])).forM Assembly.visit).outcome (.start style) =
      (.ok (), assembly))
    (hfile : assembly.toClassFile = .ok file) (hbodies : file.BodiesWritable) :
    ∃ parsed, parse file.toBytes = .ok parsed
      ∧ (parsed.replay (record none)).outcome #[] =
        (.ok (), (ClassDescription.ofEvents header middle).visibleFirst.events.toArray) := by
  have hholds := Assembly.holds_of_run AttributeKind.isWritable_name hheader hmiddle hannotations
    htypeAnnotations (Run.outcome_ok.1 hrun) hfile
  obtain ⟨parsed, hparsed, hdescribes⟩ := hholds.parse_toBytes hbodies
  exact ⟨parsed, hparsed, replay_record_ok.2 ⟨_, hdescribes, rfl⟩⟩

end ClassFile

/-! ## A class that encloses itself -/

namespace Pool

theorem known_empty (constant : Constant) : Pool.empty.known[constant]? = none :=
  Std.HashMap.getElem?_empty

theorem addClass_eq {name : String} {pool middle : Pool} {index : UInt16}
    (h : addName name pool = .ok index middle) :
    addClass name pool = add (.classRef index) middle := by
  change EStateM.bind (addName name) _ pool = _
  rw [EStateM.bind, h]

/-- The pool in which there is a class `A` and nothing else. -/
def ofClassA : Pool :=
  (Pool.empty.push (.utf8 (.ofString "A"))).push (.classRef 1)

theorem addClass_empty : addClass "A" .empty = .ok 2 ofClassA := by
  have hname : addName "A" .empty = .ok 1 (Pool.empty.push (.utf8 (.ofString "A"))) := by
    unfold addName addText
    rw [add_eq, known_empty]
    rfl
  rw [addClass_eq hname, add_eq, known_push, known_empty]
  rfl

theorem addClass_ofClassA : addClass "A" ofClassA = .ok 2 ofClassA := by
  have hname : addName "A" ofClassA = .ok 1 ofClassA := by
    unfold addName addText
    rw [add_eq, ofClassA, known_push, known_push]
    rfl
  rw [addClass_eq hname, add_eq, ofClassA, known_push]
  rfl

theorem addName_ofClassA_known : addName "A" ofClassA = .ok 1 ofClassA := by
  unfold addName addText
  rw [add_eq, ofClassA, known_push, known_push]
  rfl

theorem addName_ofClassA : addName "EnclosingMethod" ofClassA =
    .ok 3 (ofClassA.push (.utf8 (.ofString "EnclosingMethod"))) := by
  unfold addName addText
  rw [add_eq, ofClassA, known_push, known_push, known_empty]
  rfl

end Pool

namespace Assembly

theorem interning_eq {α : Type} {action : PoolM α} {assembly : Assembly} {value : α} {pool : Pool}
    (h : action assembly.pool = .ok value pool) :
    interning action assembly = .ok value { assembly with pool } := by
  unfold interning
  dsimp only
  rw [h]

/-- The header of a public class `A`. -/
def headerOfClassA : ClassHeader where
  version := .java8
  access := ⟨0x0021⟩
  name := "A"

theorem within_headerOfClassA : headerOfClassA.Within JavaText.IsWritable where
  name := by decide
  signature _ h := by cases h
  superName _ h := by cases h
  interfaces _ h := by cases h

/-- The finished assembly of a public class `A` that is enclosed in itself. -/
def selfEnclosed (bodies : BodyStyle) : Assembly where
  bodies := bodies
  pool := Pool.ofClassA.push (.utf8 (.ofString "EnclosingMethod"))
  access := ⟨0x0021⟩
  thisClass := 2
  attributes := [⟨3, [0, 2, 0, 0]⟩]
  header := some headerOfClassA
  enclosing := some { owner := "A" }
  finished := true

theorem enclosing_ofClassA : Attribute.enclosing { owner := "A" } Pool.ofClassA =
    .ok ⟨3, [0, 2, 0, 0]⟩ (Pool.ofClassA.push (.utf8 (.ofString "EnclosingMethod"))) := by
  have hbody : ElementValue.indexBytes (Pool.addClass "A") Pool.ofClassA =
      .ok [0, 2] Pool.ofClassA := by
    change EStateM.map _ _ _ = _
    rw [EStateM.map, Pool.addClass_ofClassA]
    rfl
  change EStateM.bind (EStateM.bind (ElementValue.indexBytes (Pool.addClass "A")) _) _ _ = _
  rw [EStateM.bind, EStateM.bind, hbody]
  change EStateM.bind (Pool.addName "EnclosingMethod") _ _ = _
  rw [EStateM.bind, Pool.addName_ofClassA]
  rfl

/-- The assembly of a public class `A` before anything else was told of the class. -/
def ofClassA (bodies : BodyStyle) : Assembly where
  bodies := bodies
  pool := Pool.ofClassA
  access := ⟨0x0021⟩
  thisClass := 2
  header := some headerOfClassA

theorem visit_header_ofClassA (bodies : BodyStyle) :
    visit (.header headerOfClassA) (start bodies) = .ok () (ofClassA bodies) := by
  have hfresh : ¬ (start bodies).header.isSome = true := Bool.false_ne_true
  refine Run.bind_ok.2 ⟨_, _, rfl, ?_⟩
  rw [if_neg hfresh]
  exact Run.bind_ok.2 ⟨_, _, rfl, Run.bind_ok.2 ⟨_, _, interning_eq Pool.addClass_empty,
    Run.bind_ok.2 ⟨_, _, rfl, rfl⟩⟩⟩

theorem visit_finish_ofClassA (bodies : BodyStyle) :
    visit .finish { ofClassA bodies with enclosing := some { owner := "A" } } =
      .ok () (selfEnclosed bodies) := by
  have henclosing : Attribute.optional (some { owner := "A" }) Attribute.enclosing Pool.ofClassA =
      .ok [⟨3, [0, 2, 0, 0]⟩] (Pool.ofClassA.push (.utf8 (.ofString "EnclosingMethod"))) := by
    change EStateM.bind (Attribute.enclosing { owner := "A" }) _ _ = _
    rw [EStateM.bind, enclosing_ofClassA]
    rfl
  refine Run.bind_ok.2 ⟨_, _, rfl, Run.bind_ok.2 ⟨_, _, rfl, Run.bind_ok.2 ⟨_, _, rfl, ?_⟩⟩⟩
  refine Run.bind_ok.2 ⟨_, _, rfl, Run.bind_ok.2 ⟨_, _, interning_eq henclosing, ?_⟩⟩
  exact Run.bind_ok.2 ⟨_, _, rfl, Run.bind_ok.2 ⟨_, _, rfl, rfl⟩⟩

end Assembly

/-- Of two enclosing links the second is read back. -/
theorem ClassFile.replay_selfEnclosed :
    ∃ parsed, parse (Assembly.selfEnclosed .omit).build.toBytes = .ok parsed
      ∧ (parsed.replay (record none)).outcome #[] =
        (.ok (), #[.header Assembly.headerOfClassA, .enclosing { owner := "A" }, .finish]) := by
  have hmiddle : ∀ event ∈ [ClassEvent.enclosing { owner := "B" }, .enclosing { owner := "A" }],
      event.Within JavaText.IsWritable ∧ event.kind ≠ .header ∧ event.kind ≠ .finish := by
    intro event hevent
    have howner : NameWithin JavaText.IsWritable "B" ∧ NameWithin JavaText.IsWritable "A" := by
      decide
    rcases List.mem_cons.1 hevent with rfl | hevent
    · exact ⟨⟨howner.1, nofun, nofun, rfl⟩, nofun, nofun⟩
    · cases List.mem_singleton.1 hevent
      exact ⟨⟨howner.2, nofun, nofun, rfl⟩, nofun, nofun⟩
  have hrun : ((.header Assembly.headerOfClassA :: ([.enclosing { owner := "B" },
      .enclosing { owner := "A" }] ++ [.finish])).forM Assembly.visit).outcome (.start .omit) =
        (.ok (), Assembly.selfEnclosed .omit) :=
    Run.outcome_ok.2 (Run.forM_cons_ok.2 ⟨_, Assembly.visit_header_ofClassA .omit,
      Run.forM_cons_ok.2 ⟨_, rfl, Run.forM_cons_ok.2 ⟨_, rfl,
        Run.forM_cons_ok.2 ⟨_, Assembly.visit_finish_ofClassA .omit, rfl⟩⟩⟩⟩)
  exact replay_of_run Assembly.within_headerOfClassA hmiddle (by decide) (by decide) hrun rfl
    ⟨by decide, by decide, by decide⟩

end ClassStub
