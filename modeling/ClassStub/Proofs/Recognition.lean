import ClassStub.ClassFile.Description
import ClassStub.Proofs.AnnotationReading
import ClassStub.Proofs.Statements

/-! # Recognised attributes

Which attributes are read at which place, what they can say there, and that everything else is
skipped whatever its body. -/

namespace ClassStub

open Decoder (Refines)
open Statement (resolve)

theorem AttributeKind.ofName?_eq_some {name : String} {kind : AttributeKind} :
    ofName? name = some kind ↔ kind.name = name := by
  constructor
  · intro h
    unfold ofName? at h
    split at h
    all_goals cases h
    all_goals rfl
  · rintro rfl
    exact ofName?_name kind

/-- The kinds of attributes that are read everywhere. -/
def AttributeKind.shared : List AttributeKind :=
  [signature, deprecated, synthetic, visibleAnnotations, invisibleAnnotations,
    visibleTypeAnnotations, invisibleTypeAnnotations]

/-- The kinds of attributes that are read at a place. -/
def AttributePlace.recognised : AttributePlace → List AttributeKind
  | onClass => AttributeKind.shared ++ [.enclosingMethod, .innerClasses]
  | onField => AttributeKind.shared ++ [.constantValue]
  | onMethod =>
    AttributeKind.shared ++ [.exceptions, .visibleParameterAnnotations,
      .invisibleParameterAnnotations, .annotationDefault]

/-- An attribute has the name of a kind. -/
def Attribute.IsNamed (pool : Pool) (kind : AttributeKind) (item : Attribute) : Prop :=
  pool.getName item.name = .ok kind.name

/-- The name of an attribute can be found, but it is none that is read at a place. -/
def Attribute.IsIgnored (pool : Pool) (place : AttributePlace) (item : Attribute) : Prop :=
  ∃ name, pool.getName item.name = .ok name ∧ ∀ kind ∈ place.recognised, kind.name ≠ name

/-- No kind of attribute that is read at a place occurs twice. -/
def Attribute.NoneRepeats (pool : Pool) (place : AttributePlace) (attributes : List Attribute) :
    Prop :=
  attributes.Pairwise fun item other =>
    ∀ kind ∈ place.recognised, ¬ (item.IsNamed pool kind ∧ other.IsNamed pool kind)

/-- The kind of attribute that makes a statement. -/
def Statement.Answers (kind : AttributeKind) : Statement → Prop
  | .signature _ => kind = .signature
  | .deprecated => kind = .deprecated
  | .synthetic => kind = .synthetic
  | .annotations items =>
    ∃ visible, kind = .annotations visible ∧ ∀ item ∈ items, item.visible = visible
  | .typeAnnotations items =>
    ∃ visible, kind = .typeAnnotations visible ∧ ∀ item ∈ items, item.visible = visible
  | .enclosing _ => kind = .enclosingMethod
  | .nested _ => kind = .innerClasses
  | .constantValue _ => kind = .constantValue
  | .exceptions _ => kind = .exceptions
  | .visibleParameters _ => kind = .visibleParameterAnnotations
  | .invisibleParameters _ => kind = .invisibleParameterAnnotations
  | .defaultValue _ => kind = .annotationDefault
  | .skipped => False

namespace Statement

variable {pool later : Pool} {place : AttributePlace} {body : Bytes} {kind : AttributeKind}
  {statement : Statement}

theorem visible_of_decodeBody {visible : Bool} {items : List Annotation}
    (h : Annotation.decodeBody pool visible body = .ok items) :
    ∀ item ∈ items, item.visible = visible := by
  have hpool : pool.Holds fun _ => True := fun _ _ _ => trivial
  obtain ⟨-, hlisted, -⟩ := Annotation.listed_of_decodeBody hpool h
  exact fun item hitem => (hlisted item hitem).1

theorem visible_of_decodeTypeBody {visible : Bool} {items : List TypeAnnotation}
    (h : TypeAnnotation.decodeBody pool visible body = .ok items) :
    ∀ item ∈ items, item.visible = visible := by
  have hpool : pool.Holds fun _ => True := fun _ _ _ => trivial
  obtain ⟨-, hlisted, -⟩ := TypeAnnotation.listed_of_decodeBody hpool h
  exact fun item hitem => (hlisted item hitem).1

theorem decodeShared_ok (h : decodeShared pool body kind = .ok statement) :
    statement = .skipped ∨ kind ∈ AttributeKind.shared ∧ statement.Answers kind := by
  cases kind
  case signature =>
    obtain ⟨_, _, h⟩ := bind_eq_ok.1 h
    obtain ⟨_, _, h⟩ := bind_eq_ok.1 h
    cases h
    exact .inr ⟨by decide, rfl⟩
  case deprecated =>
    cases h
    exact .inr ⟨by decide, rfl⟩
  case synthetic =>
    cases h
    exact .inr ⟨by decide, rfl⟩
  case visibleAnnotations =>
    obtain ⟨items, hitems, rfl⟩ := map_eq_ok.1 h
    exact .inr ⟨by decide, true, rfl, visible_of_decodeBody hitems⟩
  case invisibleAnnotations =>
    obtain ⟨items, hitems, rfl⟩ := map_eq_ok.1 h
    exact .inr ⟨by decide, false, rfl, visible_of_decodeBody hitems⟩
  case visibleTypeAnnotations =>
    obtain ⟨items, hitems, rfl⟩ := map_eq_ok.1 h
    exact .inr ⟨by decide, true, rfl, visible_of_decodeTypeBody hitems⟩
  case invisibleTypeAnnotations =>
    obtain ⟨items, hitems, rfl⟩ := map_eq_ok.1 h
    exact .inr ⟨by decide, false, rfl, visible_of_decodeTypeBody hitems⟩
  all_goals
    cases h
    exact .inl rfl

theorem decodeKind_ok (h : decodeKind pool body place kind = .ok statement) :
    statement = .skipped ∨ kind ∈ place.recognised ∧ statement.Answers kind := by
  unfold decodeKind at h
  split at h
  · obtain ⟨_, _, rfl⟩ := map_eq_ok.1 h
    exact .inr ⟨by decide, rfl⟩
  · obtain ⟨_, _, rfl⟩ := map_eq_ok.1 h
    exact .inr ⟨by decide, rfl⟩
  · obtain ⟨_, _, h⟩ := bind_eq_ok.1 h
    obtain ⟨_, _, h⟩ := bind_eq_ok.1 h
    cases h
    exact .inr ⟨by decide, rfl⟩
  · obtain ⟨_, _, rfl⟩ := map_eq_ok.1 h
    exact .inr ⟨by decide, rfl⟩
  · obtain ⟨_, _, rfl⟩ := map_eq_ok.1 h
    exact .inr ⟨by decide, rfl⟩
  · obtain ⟨_, _, rfl⟩ := map_eq_ok.1 h
    exact .inr ⟨by decide, rfl⟩
  · obtain ⟨_, _, rfl⟩ := map_eq_ok.1 h
    exact .inr ⟨by decide, rfl⟩
  · refine (decodeShared_ok h).imp_right fun ⟨hshared, hanswers⟩ => ⟨?_, hanswers⟩
    cases place <;> exact List.mem_append_left _ hshared

/-- An attribute that says something is named for a kind that is read at its place. -/
theorem decode_ok {item : Attribute} (h : decode pool place item = .ok statement) :
    (∃ name, pool.getName item.name = .ok name)
      ∧ (statement = .skipped
        ∨ ∃ kind ∈ place.recognised, item.IsNamed pool kind ∧ statement.Answers kind) := by
  obtain ⟨name, hname, h⟩ := bind_eq_ok.1 h
  have hname := mapError_eq_ok.1 hname
  refine ⟨⟨name, hname⟩, ?_⟩
  split at h
  · rename_i kind hkind
    refine (decodeKind_ok h).imp_right fun ⟨hrecognised, hanswers⟩ => ?_
    refine ⟨kind, hrecognised, ?_, hanswers⟩
    rw [Attribute.IsNamed, hname, AttributeKind.ofName?_eq_some.1 hkind]
  · cases h
    exact .inl rfl

theorem decodeKind_skipped (h : kind ∉ place.recognised) :
    decodeKind pool body place kind = .ok .skipped := by
  cases place <;> cases kind <;> first | rfl | exact absurd (by decide) h

/-- Attributes that are ignored at their place are skipped, whatever their bodies. -/
theorem decode_ignored {item : Attribute} (h : item.IsIgnored pool place) :
    decode pool place item = .ok .skipped := by
  obtain ⟨name, hname, hkinds⟩ := h
  refine bind_eq_ok.2 ⟨name, mapError_eq_ok.2 hname, ?_⟩
  split
  · rename_i kind hkind
    refine decodeKind_skipped fun hmem => hkinds kind hmem ?_
    exact AttributeKind.ofName?_eq_some.1 hkind
  · rfl

/-! ## Later pools -/

section Later

variable (hle : pool ≤ later)

include hle

theorem refines_decodeEnclosing : Refines (decodeEnclosing pool) (decodeEnclosing later) := by
  refine (ElementValue.refines_decodeIndexed fun _ _ => Pool.getClassName_mono hle).bind
    fun owner => Decoder.refines_rfl.bind fun method => ?_
  split
  · exact Decoder.refines_rfl
  · exact (Decoder.refines_lookup fun _ => Pool.getNameAndType_mono hle).bind
      fun _ => Decoder.refines_rfl

theorem refines_decodeNested : Refines (decodeNested pool) (decodeNested later) :=
  (ElementValue.refines_decodeIndexed fun _ _ => Pool.getClassName_mono hle).bind fun _ =>
    (ElementValue.refines_decodeIndexed fun _ _ => Pool.getOptionalClassName_mono hle).bind fun _ =>
      (ElementValue.refines_decodeIndexed fun _ _ => Pool.getOptionalName_mono hle).bind fun _ =>
        Decoder.refines_rfl

theorem decodeShared_mono (h : decodeShared pool body kind = .ok statement) :
    decodeShared later body kind = .ok statement := by
  cases kind
  case signature =>
    obtain ⟨index, hindex, h⟩ := bind_eq_ok.1 h
    obtain ⟨name, hname, h⟩ := bind_eq_ok.1 h
    have hname' := Pool.getName_mono hle (mapError_eq_ok.1 hname)
    exact bind_eq_ok.2 ⟨index, hindex, bind_eq_ok.2 ⟨name, mapError_eq_ok.2 hname', h⟩⟩
  case visibleAnnotations =>
    obtain ⟨items, hitems, h⟩ := map_eq_ok.1 h
    exact map_eq_ok.2 ⟨items, Annotation.decodeBody_mono hle hitems, h⟩
  case invisibleAnnotations =>
    obtain ⟨items, hitems, h⟩ := map_eq_ok.1 h
    exact map_eq_ok.2 ⟨items, Annotation.decodeBody_mono hle hitems, h⟩
  case visibleTypeAnnotations =>
    obtain ⟨items, hitems, h⟩ := map_eq_ok.1 h
    exact map_eq_ok.2 ⟨items, TypeAnnotation.decodeBody_mono hle hitems, h⟩
  case invisibleTypeAnnotations =>
    obtain ⟨items, hitems, h⟩ := map_eq_ok.1 h
    exact map_eq_ok.2 ⟨items, TypeAnnotation.decodeBody_mono hle hitems, h⟩
  all_goals exact h

theorem decodeKind_mono (h : decodeKind pool body place kind = .ok statement) :
    decodeKind later body place kind = .ok statement := by
  unfold decodeKind at h ⊢
  split at h
  · obtain ⟨link, hlink, h⟩ := map_eq_ok.1 h
    exact map_eq_ok.2 ⟨link, (refines_decodeEnclosing hle).decode hlink, h⟩
  · obtain ⟨links, hlinks, h⟩ := map_eq_ok.1 h
    exact map_eq_ok.2 ⟨links, (refines_decodeNested hle).counted.decode hlinks, h⟩
  · obtain ⟨index, hindex, h⟩ := bind_eq_ok.1 h
    obtain ⟨value, hvalue, h⟩ := bind_eq_ok.1 h
    have hvalue' := Pool.findConstantValue_mono hle (mapError_eq_ok.1 hvalue)
    exact bind_eq_ok.2 ⟨index, hindex, bind_eq_ok.2 ⟨value, mapError_eq_ok.2 hvalue', h⟩⟩
  · obtain ⟨names, hnames, h⟩ := map_eq_ok.1 h
    have hclass : Refines (ElementValue.decodeIndexed pool.getClassName)
        (ElementValue.decodeIndexed later.getClassName) :=
      ElementValue.refines_decodeIndexed fun _ _ => Pool.getClassName_mono hle
    exact map_eq_ok.2 ⟨names, hclass.counted.decode hnames, h⟩
  · obtain ⟨table, htable, h⟩ := map_eq_ok.1 h
    exact map_eq_ok.2 ⟨table, ParameterTable.decodeBody_mono hle htable, h⟩
  · obtain ⟨table, htable, h⟩ := map_eq_ok.1 h
    exact map_eq_ok.2 ⟨table, ParameterTable.decodeBody_mono hle htable, h⟩
  · obtain ⟨value, hvalue, h⟩ := map_eq_ok.1 h
    exact map_eq_ok.2 ⟨value, ElementValue.decodeBody_mono hle hvalue, h⟩
  · exact decodeShared_mono hle h

theorem decode_mono {item : Attribute} (h : decode pool place item = .ok statement) :
    decode later place item = .ok statement := by
  obtain ⟨name, hname, h⟩ := bind_eq_ok.1 h
  have hname' := Pool.getName_mono hle (mapError_eq_ok.1 hname)
  refine bind_eq_ok.2 ⟨name, mapError_eq_ok.2 hname', ?_⟩
  split at h
  · exact decodeKind_mono hle h
  · exact h

/-- What attributes say is the same in a later pool. -/
theorem decodeAll_mono {attributes : List Attribute} {statements : List Statement}
    (h : decodeAll pool place attributes = .ok statements) :
    decodeAll later place attributes = .ok statements :=
  mapM_eq_ok.2 ((mapM_eq_ok.1 h).imp fun _ _ => decode_mono hle)

end Later

end Statement

end ClassStub
