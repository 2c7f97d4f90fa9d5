import ClassStub.Proofs.Container

/-! # What readers are put together from

All readers of the class file format are put together from reads of bytes, and refuse bytes that
are there only for a fault that they find in them. A property of readers is therefore shown for the
parts and for two readers in a row, and then holds of every reader. Among the faults is none for
lack of space, although pools have such an error: what is read of a pool only looks things up. -/

namespace ClassStub

/-! ## Decoders -/

namespace Decoder

variable {α β : Type} {faults wider : FormatError → Prop}

/-- A decoder that is put together from reads of bytes and refuses them for one of `faults`. -/
inductive IsComposed (faults : FormatError → Prop) : {α : Type} → Decoder α → Prop where
  | pure {α : Type} (value : α) : IsComposed faults (pure value)
  | bytes (count : Nat) : IsComposed faults (bytes count)
  /-- Whatever is left, it is not enough. -/
  | exhausted {α : Type} :
    IsComposed faults ((fun cursor => .error (.truncated cursor.offset 1)) : Decoder α)
  | fail {α : Type} {error : FormatError} (h : faults error) :
    IsComposed faults (fail error : Decoder α)
  | bind {α β : Type} {decoder : Decoder α} {next : α → Decoder β}
    (hfirst : IsComposed faults decoder) (hnext : ∀ value, IsComposed faults (next value)) :
    IsComposed faults (decoder >>= next)

theorem IsComposed.mono {decoder : Decoder α} (h : IsComposed faults decoder)
    (hwider : ∀ error, faults error → wider error) : IsComposed wider decoder := by
  induction h with
  | pure value => exact .pure value
  | bytes count => exact .bytes count
  | exhausted => exact .exhausted
  | fail h => exact .fail (hwider _ h)
  | bind _ _ ihfirst ihnext => exact .bind ihfirst ihnext

theorem IsComposed.map {decoder : Decoder α} (h : IsComposed faults decoder) (f : α → β) :
    IsComposed faults (decoder >>= fun value => Pure.pure (f value)) :=
  h.bind fun value => .pure (f value)

theorem isComposed_number (size : Nat) : IsComposed faults (number size) :=
  (IsComposed.bytes size).map Bytes.toNat

theorem isComposed_u1 : IsComposed faults u1 :=
  (isComposed_number 1).map Nat.toUInt8

theorem isComposed_u2 : IsComposed faults u2 :=
  (isComposed_number 2).map Nat.toUInt16

theorem isComposed_u4 : IsComposed faults u4 :=
  (isComposed_number 4).map Nat.toUInt32

theorem isComposed_u8 : IsComposed faults u8 :=
  (isComposed_number 8).map Nat.toUInt64

theorem isComposed_lookup {result : Except PoolError α}
    (h : FailsOnly (fun cause => faults (.pool cause)) result) :
    IsComposed faults (lookup result) := by
  cases result with
  | ok value => exact .pure value
  | error cause => exact .fail (h cause rfl)

theorem IsComposed.repeatOnto {item : Decoder α} (h : IsComposed faults item) (count : Nat)
    (reversed : List α) : IsComposed faults (repeatOnto item count reversed) := by
  induction count generalizing reversed with
  | zero => exact .pure reversed.reverse
  | succ count ih =>
    rw [repeatOnto_succ]
    exact h.bind fun value => ih (value :: reversed)

theorem IsComposed.replicate {item : Decoder α} (h : IsComposed faults item) (count : Nat) :
    IsComposed faults (replicate count item) :=
  h.repeatOnto count []

theorem IsComposed.counted {item : Decoder α} (h : IsComposed faults item) :
    IsComposed faults (counted item) :=
  isComposed_u2.bind fun count => h.replicate count.toNat

end Decoder

/-! ## Look-ups -/

namespace Pool

variable (pool : Pool) (index : UInt16)

theorem failsOnly_get : FailsOnly (· ≠ .outOfSpace) (pool.get index) := by
  unfold get
  split
  · exact failsOnly_error nofun
  · split
    · exact failsOnly_ok _
    · exact failsOnly_error nofun

theorem failsOnly_getText : FailsOnly (· ≠ .outOfSpace) (pool.getText index) := by
  refine (pool.failsOnly_get index).bind fun constant => ?_
  split
  · exact failsOnly_ok _
  · exact failsOnly_error nofun

theorem failsOnly_getName : FailsOnly (· ≠ .outOfSpace) (pool.getName index) := by
  refine (pool.failsOnly_getText index).bind fun text => ?_
  split
  · exact failsOnly_ok _
  · exact failsOnly_error nofun

theorem failsOnly_getOptionalName : FailsOnly (· ≠ .outOfSpace) (pool.getOptionalName index) := by
  unfold getOptionalName
  split
  · exact failsOnly_ok none
  · exact (pool.failsOnly_getName index).map some

theorem failsOnly_getClassName : FailsOnly (· ≠ .outOfSpace) (pool.getClassName index) := by
  refine (pool.failsOnly_get index).bind fun constant => ?_
  split
  · exact pool.failsOnly_getName _
  · exact failsOnly_error nofun

theorem failsOnly_getOptionalClassName :
    FailsOnly (· ≠ .outOfSpace) (pool.getOptionalClassName index) := by
  unfold getOptionalClassName
  split
  · exact failsOnly_ok none
  · exact (pool.failsOnly_getClassName index).map some

theorem failsOnly_getNameAndType : FailsOnly (· ≠ .outOfSpace) (pool.getNameAndType index) := by
  refine (pool.failsOnly_get index).bind fun constant => ?_
  split
  · refine (pool.failsOnly_getName _).bind fun name => ?_
    exact (pool.failsOnly_getName _).bind fun descriptor => failsOnly_ok (name, descriptor)
  · exact failsOnly_error nofun

theorem failsOnly_getInteger : FailsOnly (· ≠ .outOfSpace) (pool.getInteger index) := by
  refine (pool.failsOnly_get index).bind fun constant => ?_
  split
  · exact failsOnly_ok _
  · exact failsOnly_error nofun

theorem failsOnly_getLong : FailsOnly (· ≠ .outOfSpace) (pool.getLong index) := by
  refine (pool.failsOnly_get index).bind fun constant => ?_
  split
  · exact failsOnly_ok _
  · exact failsOnly_error nofun

theorem failsOnly_getFloat : FailsOnly (· ≠ .outOfSpace) (pool.getFloat index) := by
  refine (pool.failsOnly_get index).bind fun constant => ?_
  split
  · exact failsOnly_ok _
  · exact failsOnly_error nofun

theorem failsOnly_getDouble : FailsOnly (· ≠ .outOfSpace) (pool.getDouble index) := by
  refine (pool.failsOnly_get index).bind fun constant => ?_
  split
  · exact failsOnly_ok _
  · exact failsOnly_error nofun

theorem failsOnly_findConstantValue :
    FailsOnly (· ≠ .outOfSpace) (Statement.findConstantValue pool index) := by
  refine (pool.failsOnly_get index).bind fun constant => ?_
  split
  case h_5 text => exact (pool.failsOnly_getText text).bind fun found => failsOnly_ok _
  case h_6 => exact failsOnly_error nofun
  all_goals exact failsOnly_ok _

end Pool

/-! ## The container -/

/-- What a reader can find wrong with bytes that are there. -/
def FormatError.IsFault : FormatError → Prop
  | truncated _ _ => False
  | pool cause => cause ≠ .outOfSpace
  | _ => True

open Decoder (IsComposed isComposed_u1 isComposed_u2 isComposed_u4 isComposed_u8)

open FormatError (IsFault)

theorem Constant.isComposed_decodeUtf8 (index : UInt16) :
    IsComposed IsFault (decodeUtf8 index) := by
  refine isComposed_u2.bind fun length => (IsComposed.bytes length.toNat).bind fun encoded => ?_
  split
  · exact .pure _
  · exact .fail trivial

theorem Constant.isComposed_decode (index : UInt16) : IsComposed IsFault (decode index) := by
  have hpair : ∀ make : UInt16 → UInt16 → Constant,
      IsComposed IsFault (do return make (← Decoder.u2) (← Decoder.u2)) := fun make =>
    isComposed_u2.bind fun first => isComposed_u2.map (make first)
  refine isComposed_u1.bind fun tag => ?_
  split
  · exact isComposed_decodeUtf8 index
  · exact isComposed_u4.map fun word => integer word.toInt32
  · exact isComposed_u4.map float
  · exact isComposed_u8.map fun word => long word.toInt64
  · exact isComposed_u8.map double
  · exact isComposed_u2.map classRef
  · exact isComposed_u2.map string
  · exact hpair fieldRef
  · exact hpair methodRef
  · exact hpair interfaceMethodRef
  · exact hpair nameAndType
  · exact isComposed_u1.bind fun kind => isComposed_u2.map (methodHandle kind)
  · exact isComposed_u2.map methodType
  · exact hpair dynamic
  · exact hpair invokeDynamic
  · exact isComposed_u2.map moduleRef
  · exact isComposed_u2.map packageRef
  · exact .fail nofun

theorem Pool.isComposed_decodeSlots (due : Nat) (owed : Bool) (slots : Array Slot) :
    IsComposed IsFault (decodeSlots due owed slots) := by
  induction due generalizing owed slots with
  | zero => exact .pure (if owed then slots.push .upperHalf else slots)
  | succ due ih =>
    cases owed with
    | true => exact ih false _
    | false =>
      rw [decodeSlots_succ]
      exact (Constant.isComposed_decode _).bind fun constant => ih _ _

theorem Pool.isComposed_decode : IsComposed IsFault decode :=
  isComposed_u2.bind fun count =>
    (isComposed_decodeSlots (count.toNat - 1) false #[]).map fun slots => ({ slots } : Pool)

theorem Attribute.isComposed_decode : IsComposed IsFault decode :=
  isComposed_u2.bind fun name => isComposed_u4.bind fun length =>
    (IsComposed.bytes length.toNat).map (Attribute.mk name)

theorem Member.isComposed_decode : IsComposed IsFault decode :=
  isComposed_u2.bind fun access => isComposed_u2.bind fun name =>
    isComposed_u2.bind fun descriptor =>
      Attribute.isComposed_decode.counted.map (Member.mk ⟨access⟩ name descriptor)

theorem ClassFile.isComposed_decodeMagic : IsComposed IsFault decodeMagic := by
  refine isComposed_u4.bind fun magic => ?_
  split
  · exact .pure magic
  · exact .fail trivial

theorem ClassFile.isComposed_decode : IsComposed IsFault decode := by
  refine isComposed_decodeMagic.bind fun magic => ?_
  refine isComposed_u2.bind fun minor => isComposed_u2.bind fun major => ?_
  refine Pool.isComposed_decode.bind fun pool => ?_
  refine isComposed_u2.bind fun access => isComposed_u2.bind fun thisClass => ?_
  refine isComposed_u2.bind fun superClass => isComposed_u2.counted.bind fun interfaces => ?_
  refine Member.isComposed_decode.counted.bind fun fields => ?_
  refine Member.isComposed_decode.counted.bind fun methods => ?_
  exact Attribute.isComposed_decode.counted.bind fun attributes => .pure _

/-! ## Annotations -/

namespace ElementValue

/-- What can be wrong with an element value all of whose bytes are there. -/
def IsFault (error : FormatError) : Prop :=
  (∃ tag, error = .invalidElementTag tag) ∨ ∃ cause, error = .pool cause ∧ cause ≠ .outOfSpace

theorem IsFault.isFault {error : FormatError} (h : IsFault error) : error.IsFault := by
  rcases h with ⟨tag, rfl⟩ | ⟨cause, rfl, hcause⟩
  · trivial
  · exact hcause

theorem isComposed_decodeIndexed {α : Type} {find : UInt16 → Except PoolError α}
    (h : ∀ index, FailsOnly (· ≠ .outOfSpace) (find index)) :
    IsComposed IsFault (decodeIndexed find) :=
  isComposed_u2.bind fun index => Decoder.isComposed_lookup <|
    (h index).mono fun cause hcause => .inr ⟨cause, rfl, hcause⟩

theorem isComposed_decodePairs (pool : Pool) {value : Decoder ElementValue}
    (h : IsComposed IsFault value) : IsComposed IsFault (decodePairs pool value) :=
  Decoder.IsComposed.counted <|
    (isComposed_decodeIndexed pool.failsOnly_getName).bind fun name => h.map (Prod.mk name)

theorem isComposed_decodeLevel (pool : Pool) {inner : Decoder ElementValue}
    (h : IsComposed IsFault inner) : IsComposed IsFault (decodeLevel pool inner) := by
  have hinteger := isComposed_decodeIndexed pool.failsOnly_getInteger
  have hname := isComposed_decodeIndexed pool.failsOnly_getName
  refine isComposed_u1.bind fun tag => ?_
  split
  · exact hinteger.map fun value => byte value.toInt8
  · exact hinteger.map fun value => char value.toUInt32.toUInt16
  · exact hinteger.map fun value => short value.toInt16
  · exact hinteger.map fun value => boolean (value != 0)
  · exact hinteger.map int
  · exact (isComposed_decodeIndexed pool.failsOnly_getLong).map long
  · exact (isComposed_decodeIndexed pool.failsOnly_getFloat).map float
  · exact (isComposed_decodeIndexed pool.failsOnly_getDouble).map double
  · exact (isComposed_decodeIndexed pool.failsOnly_getText).map string
  · exact hname.bind fun type => hname.map (enumConstant type)
  · exact hname.map classInfo
  · exact hname.bind fun descriptor => (isComposed_decodePairs pool h).map (nested descriptor)
  · exact h.counted.map array
  · exact .fail (.inl ⟨tag, rfl⟩)

/-- Values nest, so the induction is on the levels that are left. -/
theorem isComposed_decodeWithin (pool : Pool) (levels : Nat) :
    IsComposed IsFault (decodeWithin pool levels) := by
  induction levels with
  | zero => exact .exhausted
  | succ levels ih => exact isComposed_decodeLevel pool ih

end ElementValue

/-- An index of a pool, and what is found there, can be the part of any reader. -/
theorem isComposed_indexed {α : Type} {find : UInt16 → Except PoolError α}
    (h : ∀ index, FailsOnly (· ≠ .outOfSpace) (find index)) :
    IsComposed IsFault (ElementValue.decodeIndexed find) :=
  (ElementValue.isComposed_decodeIndexed h).mono fun _ => ElementValue.IsFault.isFault

section Annotations

variable (pool : Pool) (visible : Bool) (levels : Nat)

theorem Annotation.isComposed_decodeWithin :
    IsComposed IsFault (decodeWithin pool visible levels) := by
  have hvalues := ElementValue.isComposed_decodePairs pool
    (ElementValue.isComposed_decodeWithin pool levels)
  refine (isComposed_indexed pool.failsOnly_getName).bind fun descriptor => ?_
  exact (hvalues.mono fun _ => ElementValue.IsFault.isFault).bind fun elements => .pure _

theorem Target.isComposed_decode (targetType : UInt8) :
    IsComposed IsFault (Target.decode targetType) := by
  unfold Target.decode
  split
  · exact isComposed_u1.map typeParameter
  · exact isComposed_u1.map typeParameter
  · exact isComposed_u2.map supertype
  · exact isComposed_u1.bind fun parameter => isComposed_u1.map (typeParameterBound parameter)
  · exact isComposed_u1.bind fun parameter => isComposed_u1.map (typeParameterBound parameter)
  · exact .pure empty
  · exact .pure empty
  · exact .pure empty
  · exact isComposed_u1.map formalParameter
  · exact isComposed_u2.map throws
  · exact .fail trivial

theorem TypePath.isComposed_decode : IsComposed IsFault TypePath.decode :=
  isComposed_u1.bind fun length =>
    ((isComposed_u1.bind fun kind => isComposed_u1.map (PathStep.mk kind)).replicate
      length.toNat).map TypePath.mk

theorem TypeAnnotation.isComposed_decodeWithin :
    IsComposed IsFault (decodeWithin pool visible levels) := by
  have hcontent := Annotation.isComposed_decodeWithin pool visible levels
  refine isComposed_u1.bind fun targetType => ?_
  refine (Target.isComposed_decode targetType).bind fun target => ?_
  exact TypePath.isComposed_decode.bind fun path => hcontent.bind fun content => .pure _

end Annotations

/-! ## Links -/

theorem Statement.isComposed_decodeEnclosing (pool : Pool) :
    IsComposed IsFault (decodeEnclosing pool) := by
  refine (isComposed_indexed pool.failsOnly_getClassName).bind fun owner => ?_
  refine isComposed_u2.bind fun method => ?_
  split
  · exact .pure _
  · exact (Decoder.isComposed_lookup (pool.failsOnly_getNameAndType method)).bind fun pair =>
      .pure _

theorem Statement.isComposed_decodeNested (pool : Pool) :
    IsComposed IsFault (decodeNested pool) :=
  (isComposed_indexed pool.failsOnly_getClassName).bind fun _ =>
    (isComposed_indexed pool.failsOnly_getOptionalClassName).bind fun _ =>
      (isComposed_indexed pool.failsOnly_getOptionalName).bind fun _ =>
        isComposed_u2.bind fun _ => .pure _

end ClassStub
