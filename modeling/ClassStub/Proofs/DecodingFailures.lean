import ClassStub.Proofs.Description
import ClassStub.Proofs.Truncation

/-! # How decoding fails

Which errors the decoding of a class file can end with. A reader fails for want of bytes or for a
fault that it finds in them, so a class file is never refused for lack of space in a pool. -/

namespace ClassStub

/-! ## Readers -/

namespace Decoder

variable {α β : Type} {allowed : FormatError → Prop}

/-- Unless bytes are missing, `decoder` fails with an `allowed` error. -/
def FailsOnly (allowed : FormatError → Prop) (decoder : Decoder α) : Prop :=
  ∀ cursor, ClassStub.FailsOnly (fun error => error.IsTruncated ∨ allowed error) (decoder cursor)

theorem FailsOnly.bind {decoder : Decoder α} {next : α → Decoder β}
    (hfirst : FailsOnly allowed decoder) (hnext : ∀ value, FailsOnly allowed (next value)) :
    FailsOnly allowed (decoder >>= next) :=
  fun cursor => (hfirst cursor).bind fun pair => hnext pair.1 pair.2

theorem failsOnly_bytes (count : Nat) : FailsOnly allowed (bytes count) := by
  intro cursor error herror
  obtain ⟨-, rfl⟩ := bytes_error.1 herror
  exact .inl ⟨_, _, rfl⟩

theorem IsComposed.failsOnly {decoder : Decoder α} (h : IsComposed allowed decoder) :
    FailsOnly allowed decoder := by
  induction h with
  | pure value => exact fun cursor => failsOnly_ok (value, cursor)
  | bytes count => exact failsOnly_bytes count
  | exhausted => exact fun _ => failsOnly_error (.inl ⟨_, _, rfl⟩)
  | fail h => exact fun _ => failsOnly_error (.inr h)
  | bind _ _ ihfirst ihnext => exact ihfirst.bind ihnext

end Decoder

/-- An error other than that for lack of space in a pool. -/
def FormatError.IsOfInput (error : FormatError) : Prop :=
  error ≠ .pool .outOfSpace

open Decoder (IsComposed isComposed_u1)

open FormatError (IsFault IsOfInput)

theorem FormatError.isOfInput_pool {cause : PoolError} (h : cause ≠ .outOfSpace) :
    (FormatError.pool cause).IsOfInput :=
  fun hcause => h (FormatError.pool.inj hcause)

theorem Decoder.IsComposed.failsOnly_isOfInput {α : Type} {decoder : Decoder α}
    (h : IsComposed IsFault decoder) (cursor : Cursor) :
    ClassStub.FailsOnly IsOfInput (decoder cursor) := by
  intro error herror
  rintro rfl
  rcases h.failsOnly cursor _ herror with ⟨_, _, htruncated⟩ | hfault
  · cases htruncated
  · exact hfault rfl

theorem Decoder.IsComposed.decode {α : Type} {decoder : Decoder α}
    (h : IsComposed IsFault decoder) (body : Bytes) :
    ClassStub.FailsOnly IsOfInput (decoder.decode body) :=
  (h.failsOnly_isOfInput (.start body)).map Prod.fst

/-- Parsing does not run out of space. -/
theorem ClassFile.failsOnly_parse (bytes : Bytes) : FailsOnly IsOfInput (parse bytes) := by
  refine (isComposed_decode.failsOnly_isOfInput (.start bytes)).bind fun pair => ?_
  split
  split
  · exact failsOnly_ok _
  · exact failsOnly_error nofun

/-! ## Annotations -/

section Annotations

variable (pool : Pool) (visible : Bool) (body : Bytes)

theorem ElementValue.failsOnly_decodeBody :
    FailsOnly IsOfInput (decodeBody pool body) :=
  ((isComposed_decodeWithin pool _).mono fun _ => IsFault.isFault).decode body

theorem Annotation.failsOnly_decodeBody :
    FailsOnly IsOfInput (decodeBody pool visible body) :=
  (isComposed_decodeWithin pool visible _).counted.decode body

theorem ParameterTable.failsOnly_decodeBody :
    FailsOnly IsOfInput (decodeBody pool visible body) := by
  have hitem := Annotation.isComposed_decodeWithin pool visible (ElementValue.levelBound body)
  refine Decoder.IsComposed.decode (isComposed_u1.bind fun count => ?_) body
  exact ((hitem.counted.map CanonicalSet.ofList).replicate count.toNat).map ParameterTable.mk

theorem TypeAnnotation.failsOnly_decodeBody :
    FailsOnly IsOfInput (decodeBody pool visible body) :=
  (isComposed_decodeWithin pool visible _).counted.decode body

end Annotations

/-! ## What a class file says -/

namespace Statement

variable (pool : Pool) (body : Bytes)

theorem failsOnly_resolve {α : Type} {result : Except PoolError α}
    (h : FailsOnly (· ≠ .outOfSpace) result) : FailsOnly IsOfInput (resolve result) :=
  FailsOnly.mapError (h.mono fun _ => FormatError.isOfInput_pool)

theorem failsOnly_soleIndex (kind : AttributeKind) :
    FailsOnly IsOfInput (soleIndex kind body) := by
  unfold soleIndex
  split
  · exact failsOnly_ok _
  · exact failsOnly_error nofun

theorem failsOnly_decodeShared (kind : AttributeKind) :
    FailsOnly IsOfInput (decodeShared pool body kind) := by
  have hannotations : ∀ visible, FailsOnly IsOfInput
      (annotations <$> Annotation.decodeBody pool visible body) := by
    intro visible
    have hitems := Annotation.failsOnly_decodeBody pool visible body
    exact hitems.map annotations
  have htypes : ∀ visible, FailsOnly IsOfInput
      (typeAnnotations <$> TypeAnnotation.decodeBody pool visible body) := by
    intro visible
    have hitems := TypeAnnotation.failsOnly_decodeBody pool visible body
    exact hitems.map typeAnnotations
  unfold decodeShared
  split
  case h_1 =>
    refine (failsOnly_soleIndex body .signature).bind fun index => ?_
    exact (failsOnly_resolve (pool.failsOnly_getName index)).bind fun value => failsOnly_ok _
  case h_4 => exact hannotations true
  case h_5 => exact hannotations false
  case h_6 => exact htypes true
  case h_7 => exact htypes false
  all_goals exact failsOnly_ok _

theorem failsOnly_decodeKind (place : AttributePlace) (kind : AttributeKind) :
    FailsOnly IsOfInput (decodeKind pool body place kind) := by
  unfold decodeKind
  split
  · exact ((isComposed_decodeEnclosing pool).decode body).map enclosing
  · exact ((isComposed_decodeNested pool).counted.decode body).map nested
  · refine (failsOnly_soleIndex body .constantValue).bind fun index => ?_
    exact (failsOnly_resolve (pool.failsOnly_findConstantValue index)).bind fun value =>
      failsOnly_ok _
  · exact ((isComposed_indexed pool.failsOnly_getClassName).counted.decode body).map exceptions
  · exact (ParameterTable.failsOnly_decodeBody pool true body).map visibleParameters
  · exact (ParameterTable.failsOnly_decodeBody pool false body).map invisibleParameters
  · exact (ElementValue.failsOnly_decodeBody pool body).map defaultValue
  · exact failsOnly_decodeShared pool body _

theorem failsOnly_decodeAll (place : AttributePlace) (attributes : List Attribute) :
    FailsOnly IsOfInput (decodeAll pool place attributes) := by
  refine failsOnly_mapM (fun item => ?_) attributes
  refine (failsOnly_resolve (pool.failsOnly_getName item.name)).bind fun name => ?_
  split
  · exact failsOnly_decodeKind pool item.body place _
  · exact failsOnly_ok _

end Statement

namespace ClassFile

open Statement (failsOnly_resolve failsOnly_decodeAll)

variable (file : ClassFile)

theorem failsOnly_frontEvents : FailsOnly IsOfInput file.frontEvents := by
  refine (failsOnly_resolve (file.pool.failsOnly_getClassName _)).bind fun name => ?_
  refine (failsOnly_decodeAll file.pool .onClass file.attributes).bind fun statements => ?_
  refine (failsOnly_resolve (failsOnly_mapM file.pool.failsOnly_getClassName _)).bind
    fun interfaces => ?_
  exact (failsOnly_resolve (file.pool.failsOnly_getOptionalClassName _)).bind
    fun superName => failsOnly_ok _

theorem failsOnly_decodeField (member : Member) :
    FailsOnly IsOfInput (file.decodeField member) := by
  refine (failsOnly_resolve (file.pool.failsOnly_getName _)).bind fun name => ?_
  refine (failsOnly_resolve (file.pool.failsOnly_getName _)).bind fun descriptor => ?_
  exact (failsOnly_decodeAll file.pool .onField _).bind fun statements => failsOnly_ok _

theorem failsOnly_decodeMethod (member : Member) :
    FailsOnly IsOfInput (file.decodeMethod member) := by
  refine (failsOnly_resolve (file.pool.failsOnly_getName _)).bind fun name => ?_
  refine (failsOnly_resolve (file.pool.failsOnly_getName _)).bind fun descriptor => ?_
  exact (failsOnly_decodeAll file.pool .onMethod _).bind fun statements => failsOnly_ok _

end ClassFile

end ClassStub
