import Mathlib.Algebra.Order.BigOperators.Group.List
import Mathlib.Algebra.Order.Group.Nat
import Mathlib.Data.List.Perm.Subperm
import ClassStub.Proofs.CanonicalSets
import ClassStub.Proofs.Decoding
import ClassStub.Proofs.Limits
import ClassStub.Proofs.Pools

/-! # Annotations that were read

What is read from an annotation attribute is within the limits of the format, and its written form
takes no more bytes than were read for it. Reading depends only on what the pool holds at the
indexes that occur, so a later pool reads the same. -/

namespace ClassStub

open Decoder (Yields Refines)

/-- All texts that can be looked up in the pool are `texts`. -/
def Pool.Holds (texts : JavaText → Prop) (pool : Pool) : Prop :=
  ∀ index text, pool.get index = .ok (.utf8 text) → texts text

/-- What was read has a property, and its written form is no longer than what was read for it. -/
def Sized {α : Type} (property : α → Prop) (size : α → Nat) (item : α) (taken : Bytes) : Prop :=
  property item ∧ size item ≤ taken.length

section Lists

variable {α : Type} {property : α → Prop} {size : α → Nat}

theorem sized_items {items : List α} {taken : Bytes}
    (h : Decoder.Itemized (Sized property size) items taken) :
    (∀ item ∈ items, property item) ∧ (items.map size).sum ≤ taken.length := by
  obtain ⟨parts, rfl, hparts⟩ := h
  induction hparts with
  | nil => exact ⟨fun _ h => (nomatch h), Nat.le_refl _⟩
  | @cons item part items parts hitem _ ih =>
    refine ⟨List.forall_mem_cons.2 ⟨hitem.1, ih.1⟩, ?_⟩
    rw [List.map_cons, List.sum_cons, List.flatten_cons, List.length_append]
    exact Nat.add_le_add hitem.2 ih.2

theorem yields_replicate_sized {item : Decoder α} (h : Yields item (Sized property size))
    (count : Nat) :
    Yields (Decoder.replicate count item) fun items taken =>
      items.length = count ∧ (∀ item ∈ items, property item)
        ∧ (items.map size).sum ≤ taken.length :=
  (Decoder.yields_replicate h count).mono fun _ _ hitems => ⟨hitems.1, sized_items hitems.2⟩

theorem yields_counted_sized {item : Decoder α} (h : Yields item (Sized property size)) :
    Yields (Decoder.counted item) fun items taken =>
      items.length ≤ 65535 ∧ (∀ item ∈ items, property item)
        ∧ listSize size items ≤ taken.length := by
  refine (Decoder.yields_counted h).mono ?_
  rintro items _ ⟨hlength, count, body, rfl, hcount, hitems⟩
  obtain ⟨hproperty, hsum⟩ := sized_items hitems
  refine ⟨hlength, hproperty, ?_⟩
  rw [listSize, List.length_append, hcount]
  exact Nat.add_le_add_left hsum 2

/-- Items that all occur in a list, each of them once, take no more bytes than the list. -/
theorem sum_size_le {items others : List α} (hnodup : items.Nodup) (h : items ⊆ others) :
    (items.map size).sum ≤ (others.map size).sum := by
  obtain ⟨same, hperm, hsub⟩ := List.subperm_of_subset hnodup h
  rw [(hperm.map size).symm.sum_eq]
  exact (hsub.map size).sum_le_sum fun _ _ => Nat.zero_le _

end Lists

namespace ElementValue

variable {texts : JavaText → Prop} {pool later : Pool}

theorem yields_decodeIndexed {α : Type} (find : UInt16 → Except PoolError α) :
    Yields (decodeIndexed find) fun value taken =>
      (∃ index, find index = .ok value) ∧ taken.length = 2 :=
  Decoder.yields_u2.bind fun index taken htaken =>
    (Decoder.yields_lookup (find index)).mono fun _ _ hvalue =>
      ⟨⟨index, hvalue.1⟩, by rw [hvalue.2, List.append_nil, htaken]⟩

theorem yields_name (hpool : pool.Holds texts) :
    Yields (decodeIndexed pool.getName) fun name taken =>
      texts (.ofString name) ∧ taken.length = 2 :=
  (yields_decodeIndexed pool.getName).mono fun _ _ ⟨⟨_, hname⟩, htaken⟩ =>
    ⟨hpool _ _ (Pool.getName_ok.1 hname), htaken⟩

theorem yields_pairs (hpool : pool.Holds texts) {value : Decoder ElementValue}
    (hvalue : Yields value (Sized (Within (.counted texts)) writtenSize)) :
    Yields (decodePairs pool value) fun elements taken =>
      elements.length ≤ 65535
        ∧ (∀ pair ∈ elements, texts (.ofString pair.1) ∧ pair.2.Within (.counted texts))
        ∧ listSize pairSize elements ≤ taken.length := by
  refine yields_counted_sized ((yields_name hpool).bind fun name taken hname => ?_)
  refine hvalue.map fun found taken' hfound => ⟨⟨hname.1, hfound.1⟩, ?_⟩
  rw [pairSize, List.length_append, hname.2]
  exact Nat.add_le_add_left hfound.2 2

theorem yields_decodeLevel (hpool : pool.Holds texts) {inner : Decoder ElementValue}
    (h : Yields inner (Sized (Within (.counted texts)) writtenSize)) :
    Yields (decodeLevel pool inner) (Sized (Within (.counted texts)) writtenSize) := by
  refine Decoder.yields_u1.bind fun tag taken htaken => ?_
  have hindexed : ∀ {taken' : Bytes}, taken'.length = 2 → 3 ≤ (taken ++ taken').length := by
    intro taken' htaken'
    rw [List.length_append, htaken, htaken']
  split
  · exact (yields_decodeIndexed _).map fun _ _ h => ⟨.byte _, hindexed h.2⟩
  · exact (yields_decodeIndexed _).map fun _ _ h => ⟨.char _, hindexed h.2⟩
  · exact (yields_decodeIndexed _).map fun _ _ h => ⟨.short _, hindexed h.2⟩
  · exact (yields_decodeIndexed _).map fun _ _ h => ⟨.boolean _, hindexed h.2⟩
  · exact (yields_decodeIndexed _).map fun _ _ h => ⟨.int _, hindexed h.2⟩
  · exact (yields_decodeIndexed _).map fun _ _ h => ⟨.long _, hindexed h.2⟩
  · exact (yields_decodeIndexed _).map fun _ _ h => ⟨.float _, hindexed h.2⟩
  · exact (yields_decodeIndexed _).map fun _ _ h => ⟨.double _, hindexed h.2⟩
  · refine (yields_decodeIndexed _).map fun text _ ⟨⟨index, htext⟩, h⟩ => ⟨.string ?_, hindexed h⟩
    exact hpool _ _ (Pool.getText_ok.1 htext)
  · refine (yields_name hpool).bind fun type taken' htype => ?_
    refine (yields_name hpool).map fun constant taken'' hconstant => ?_
    refine ⟨.enumConstant htype.1 hconstant.1, ?_⟩
    rw [List.length_append, List.length_append, htaken, htype.2, hconstant.2, writtenSize]
  · exact (yields_name hpool).map fun _ _ h => ⟨.classInfo h.1, hindexed h.2⟩
  · refine (yields_name hpool).bind fun descriptor taken' hdescriptor => ?_
    refine (yields_pairs hpool h).map fun elements taken'' ⟨hcount, hpairs, hsize⟩ => ?_
    refine ⟨.nested hdescriptor.1 hcount (fun pair hpair => (hpairs pair hpair).1)
      fun pair hpair => (hpairs pair hpair).2, ?_⟩
    rw [listSize] at hsize
    rw [List.length_append, List.length_append, htaken, hdescriptor.2, writtenSize,
      pairsSize_eq_sum]
    omega
  · refine (yields_counted_sized h).map fun values taken' ⟨hcount, hvalues, hsize⟩ => ?_
    refine ⟨.array hcount hvalues, ?_⟩
    rw [listSize] at hsize
    rw [List.length_append, htaken, writtenSize, valuesSize_eq_sum]
    omega
  · exact Decoder.yields_fail

/-- A value that was read is within limits, and its written form is no longer than what was
read. -/
theorem yields_decodeWithin (hpool : pool.Holds texts) (levels : Nat) :
    Yields (decodeWithin pool levels) (Sized (Within (.counted texts)) writtenSize) := by
  induction levels with
  | zero =>
    intro _ _ _ h
    cases h
  | succ levels ih => exact yields_decodeLevel hpool ih

theorem refines_decodeIndexed {α : Type} {find find' : UInt16 → Except PoolError α}
    (h : ∀ index value, find index = .ok value → find' index = .ok value) :
    Refines (decodeIndexed find) (decodeIndexed find') :=
  Decoder.refines_rfl.bind fun index => Decoder.refines_lookup (h index)

theorem refines_pairs (hle : pool ≤ later) {value value' : Decoder ElementValue}
    (hvalue : Refines value value') :
    Refines (decodePairs pool value) (decodePairs later value') :=
  Refines.counted ((refines_decodeIndexed fun _ _ => Pool.getName_mono hle).bind fun name =>
    hvalue.map (Prod.mk name))

theorem refines_decodeLevel (hle : pool ≤ later) {inner other : Decoder ElementValue}
    (h : Refines inner other) : Refines (decodeLevel pool inner) (decodeLevel later other) := by
  have hinteger : Refines (decodeIndexed pool.getInteger) (decodeIndexed later.getInteger) :=
    refines_decodeIndexed fun _ _ => Pool.getInteger_mono hle
  have hname : Refines (decodeIndexed pool.getName) (decodeIndexed later.getName) :=
    refines_decodeIndexed fun _ _ => Pool.getName_mono hle
  refine Decoder.refines_rfl.bind fun tag => ?_
  split
  · exact hinteger.map fun value => byte value.toInt8
  · exact hinteger.map fun value => char value.toUInt32.toUInt16
  · exact hinteger.map fun value => short value.toInt16
  · exact hinteger.map fun value => boolean (value != 0)
  · exact hinteger.map int
  · exact (refines_decodeIndexed fun _ _ => Pool.getLong_mono hle).map long
  · exact (refines_decodeIndexed fun _ _ => Pool.getFloat_mono hle).map float
  · exact (refines_decodeIndexed fun _ _ => Pool.getDouble_mono hle).map double
  · exact (refines_decodeIndexed fun _ _ => Pool.getText_mono hle).map string
  · exact hname.bind fun type => hname.map (enumConstant type)
  · exact hname.map classInfo
  · exact hname.bind fun descriptor => (refines_pairs hle h).map (nested descriptor)
  · exact h.counted.map array
  · exact Decoder.refines_rfl

/-- A later pool gives indexes that were resolved before the same meaning. -/
theorem refines_decodeWithin (hle : pool ≤ later) (levels : Nat) :
    Refines (decodeWithin pool levels) (decodeWithin later levels) := by
  induction levels with
  | zero => exact Decoder.refines_rfl
  | succ levels ih => exact refines_decodeLevel hle ih

/-- A default value that was read is within limits and no longer than its body. -/
theorem within_of_decodeBody (hpool : pool.Holds texts) {body : Bytes} {value : ElementValue}
    (h : decodeBody pool body = .ok value) :
    value.Within (.counted texts) ∧ value.writtenSize ≤ body.length := by
  obtain ⟨taken, rest, rfl, hvalue, hsize⟩ := (yields_decodeWithin hpool _).decode h
  refine ⟨hvalue, Nat.le_trans hsize ?_⟩
  rw [List.length_append]
  exact Nat.le_add_right ..

theorem decodeBody_mono (hle : pool ≤ later) {body : Bytes} {value : ElementValue}
    (h : decodeBody pool body = .ok value) : decodeBody later body = .ok value :=
  (refines_decodeWithin hle _).decode h

end ElementValue

namespace Annotation

variable {texts : JavaText → Prop} {pool later : Pool} {visible : Bool}

/-- What holds of every annotation in an attribute for annotations of one visibility. -/
def Listed (texts : JavaText → Prop) (visible : Bool) (item : Annotation) : Prop :=
  item.visible = visible ∧ item.Within (.counted texts)

theorem yields_decodeWithin (hpool : pool.Holds texts) (visible : Bool) (levels : Nat) :
    Yields (decodeWithin pool visible levels) (Sized (Listed texts visible) writtenSize) := by
  refine (ElementValue.yields_name hpool).bind fun descriptor taken hdescriptor => ?_
  have helements := ElementValue.yields_pairs hpool (ElementValue.yields_decodeWithin hpool levels)
  refine helements.map fun elements taken' ⟨hcount, hpairs, hsize⟩ => ⟨⟨rfl, ?_⟩, ?_⟩
  · exact ⟨hdescriptor.1, hcount, fun pair hpair => (hpairs pair hpair).1,
      fun pair hpair => (hpairs pair hpair).2⟩
  · rw [List.length_append, hdescriptor.2]
    exact Nat.add_le_add_left hsize 2

theorem refines_decodeWithin (hle : pool ≤ later) (visible : Bool) (levels : Nat) :
    Refines (decodeWithin pool visible levels) (decodeWithin later visible levels) :=
  (ElementValue.refines_decodeIndexed fun _ _ => Pool.getName_mono hle).bind fun descriptor =>
    (ElementValue.refines_pairs hle (ElementValue.refines_decodeWithin hle levels)).map
      fun elements => Annotation.mk descriptor visible elements

theorem listed_of_decodeBody (hpool : pool.Holds texts) {body : Bytes} {items : List Annotation}
    (h : decodeBody pool visible body = .ok items) :
    items.length ≤ 65535 ∧ (∀ item ∈ items, item.Listed texts visible)
      ∧ listSize writtenSize items ≤ body.length := by
  obtain ⟨taken, rest, rfl, hcount, hitems, hsize⟩ :=
    (yields_counted_sized (yields_decodeWithin hpool _ _)).decode h
  refine ⟨hcount, hitems, Nat.le_trans hsize ?_⟩
  rw [List.length_append]
  exact Nat.le_add_right ..

theorem decodeBody_mono (hle : pool ≤ later) {body : Bytes} {items : List Annotation}
    (h : decodeBody pool visible body = .ok items) : decodeBody later visible body = .ok items :=
  (refines_decodeWithin hle _ _).counted.decode h

end Annotation

theorem Target.yields_decode (targetType : UInt8) :
    Yields (Target.decode targetType)
      (Sized (fun target => target.Fits targetType) fun target => target.toBytes.length) := by
  have hbyte : ∀ {taken : Bytes}, taken.length = 1 → 1 ≤ taken.length := fun h => h.ge
  have hword : ∀ {taken : Bytes}, taken.length = 2 → 2 ≤ taken.length := fun h => h.ge
  have hbytes : ∀ {taken taken' : Bytes}, taken.length = 1 → taken'.length = 1 →
      2 ≤ (taken ++ taken').length := by
    intro taken taken' h h'
    rw [List.length_append, h, h']
  unfold Target.decode
  split
  · exact Decoder.yields_u1.map fun _ _ h => ⟨.inl rfl, hbyte h⟩
  · exact Decoder.yields_u1.map fun _ _ h => ⟨.inr rfl, hbyte h⟩
  · exact Decoder.yields_u2.map fun _ _ h => ⟨rfl, hword h⟩
  · exact Decoder.yields_u1.bind fun _ _ h => Decoder.yields_u1.map fun _ _ h' =>
      ⟨.inl rfl, hbytes h h'⟩
  · exact Decoder.yields_u1.bind fun _ _ h => Decoder.yields_u1.map fun _ _ h' =>
      ⟨.inr rfl, hbytes h h'⟩
  · exact Decoder.yields_pure ⟨.inl rfl, Nat.le_refl _⟩
  · exact Decoder.yields_pure ⟨.inr (.inl rfl), Nat.le_refl _⟩
  · exact Decoder.yields_pure ⟨.inr (.inr rfl), Nat.le_refl _⟩
  · exact Decoder.yields_u1.map fun _ _ h => ⟨rfl, hbyte h⟩
  · exact Decoder.yields_u2.map fun _ _ h => ⟨rfl, hword h⟩
  · exact Decoder.yields_fail

theorem TypePath.length_toBytes (path : TypePath) :
    path.toBytes.length = 1 + (path.steps.map fun _ => 2).sum := by
  rw [toBytes, List.length_cons, List.length_flatMap, Nat.add_comm]
  rfl

theorem TypePath.yields_decode :
    Yields TypePath.decode
      (Sized (fun path => path.steps.length ≤ 255) fun path => path.toBytes.length) := by
  refine Decoder.yields_u1.bind fun length taken htaken => ?_
  have hstep : Yields (do return PathStep.mk (← Decoder.u1) (← Decoder.u1))
      (Sized (fun _ => True) fun _ => 2) :=
    Decoder.yields_u1.bind fun _ _ h => Decoder.yields_u1.map fun _ _ h' =>
      ⟨trivial, by rw [List.length_append, h, h']⟩
  refine (yields_replicate_sized hstep length.toNat).map fun steps taken' ⟨hcount, _, hsize⟩ => ?_
  constructor
  · change steps.length ≤ 255
    have := length.toNat_lt
    omega
  · change (TypePath.mk steps).toBytes.length ≤ _
    rw [length_toBytes, List.length_append, htaken]
    exact Nat.add_le_add_left hsize 1

namespace TypeAnnotation

variable {texts : JavaText → Prop} {pool later : Pool} {visible : Bool}

/-- What holds of every type annotation in an attribute for annotations of one visibility. -/
def Listed (texts : JavaText → Prop) (visible : Bool) (item : TypeAnnotation) : Prop :=
  item.visible = visible ∧ item.Within (.counted texts)

theorem yields_decodeWithin (hpool : pool.Holds texts) (visible : Bool) (levels : Nat) :
    Yields (decodeWithin pool visible levels) (Sized (Listed texts visible) writtenSize) := by
  refine Decoder.yields_u1.bind fun targetType taken htaken => ?_
  refine (Target.yields_decode targetType).bind fun target takenTarget htarget => ?_
  refine TypePath.yields_decode.bind fun path takenPath hpath => ?_
  have hannotation := Annotation.yields_decodeWithin hpool visible levels
  refine hannotation.map fun content takenContent hcontent => ?_
  refine ⟨⟨hcontent.1.1, htarget.1, hpath.1, hcontent.1.2⟩, ?_⟩
  have htargetSize := htarget.2
  have hpathSize := hpath.2
  have hcontentSize := hcontent.2
  simp only [writtenSize, siteBytes, List.length_cons, List.length_append] at *
  omega

theorem refines_decodeWithin (hle : pool ≤ later) (visible : Bool) (levels : Nat) :
    Refines (decodeWithin pool visible levels) (decodeWithin later visible levels) := by
  have hcontent := Annotation.refines_decodeWithin hle visible levels
  exact Decoder.refines_rfl.bind fun targetType => Decoder.refines_rfl.bind fun target =>
    Decoder.refines_rfl.bind fun path => hcontent.map fun content =>
      TypeAnnotation.mk targetType target path content

theorem listed_of_decodeBody (hpool : pool.Holds texts) {body : Bytes}
    {items : List TypeAnnotation} (h : decodeBody pool visible body = .ok items) :
    items.length ≤ 65535 ∧ (∀ item ∈ items, item.Listed texts visible)
      ∧ listSize writtenSize items ≤ body.length := by
  obtain ⟨taken, rest, rfl, hcount, hitems, hsize⟩ :=
    (yields_counted_sized (yields_decodeWithin hpool _ _)).decode h
  refine ⟨hcount, hitems, Nat.le_trans hsize ?_⟩
  rw [List.length_append]
  exact Nat.le_add_right ..

theorem decodeBody_mono (hle : pool ≤ later) {body : Bytes} {items : List TypeAnnotation}
    (h : decodeBody pool visible body = .ok items) : decodeBody later visible body = .ok items :=
  (refines_decodeWithin hle _ _).counted.decode h

end TypeAnnotation

namespace ParameterTable

variable {texts : JavaText → Prop} {pool later : Pool} {visible : Bool}

/-- What holds of the annotations of one parameter in a table of one visibility. -/
def ParameterListed (texts : JavaText → Prop) (visible : Bool) (set : CanonicalSet Annotation) :
    Prop :=
  set.toList.length ≤ 65535 ∧ ∀ item ∈ set.toList, item.Listed texts visible

theorem yields_parameter (hpool : pool.Holds texts) (visible : Bool) (levels : Nat) :
    Yields (decodeParameter pool visible (ElementValue.decodeWithin pool levels))
      (Sized (ParameterListed texts visible) parameterSize) := by
  have hannotation := Annotation.yields_decodeWithin hpool visible levels
  refine (yields_counted_sized hannotation).map ?_
  rintro items taken ⟨hcount, hitems, hsize⟩
  have hsubset : (CanonicalSet.ofList items).toList ⊆ items :=
    fun _ => CanonicalSet.mem_of_mem_ofList
  have hlength := (List.subperm_of_subset (CanonicalSet.nodup _) hsubset).length_le
  refine ⟨⟨by omega, fun item hitem => hitems item (hsubset hitem)⟩, Nat.le_trans ?_ hsize⟩
  exact Nat.add_le_add_left (sum_size_le (CanonicalSet.nodup _) hsubset) 2

/-- A table that was read is within limits and no longer than its body. -/
theorem within_of_decodeBody (hpool : pool.Holds texts) {body : Bytes} {table : ParameterTable}
    (h : decodeBody pool visible body = .ok table) :
    table.Within (.counted texts) visible ∧ table.writtenSize ≤ body.length := by
  have hparameter := yields_parameter hpool visible (ElementValue.levelBound body)
  have hyields : Yields
      (decodeBy pool visible (ElementValue.decodeWithin pool (ElementValue.levelBound body)))
      (Sized (fun table => table.Within (.counted texts) visible) writtenSize) := by
    refine Decoder.yields_u1.bind fun count taken htaken =>
      (yields_replicate_sized hparameter count.toNat).map ?_
    rintro sets taken' ⟨hcount, hsets, hsize⟩
    refine ⟨⟨?_, fun set hset => (hsets set hset).1,
      fun set hset item hitem => ((hsets set hset).2 item hitem).1,
      fun set hset item hitem => ((hsets set hset).2 item hitem).2⟩, ?_⟩
    · change sets.length ≤ 255
      have hbound := count.toNat_lt
      omega
    · rw [writtenSize, List.length_append, htaken]
      exact Nat.add_le_add_left hsize 1
  obtain ⟨taken, rest, rfl, htable, hsize⟩ := hyields.decode h
  refine ⟨htable, Nat.le_trans hsize ?_⟩
  rw [List.length_append]
  exact Nat.le_add_right ..

theorem decodeBody_mono (hle : pool ≤ later) {body : Bytes} {table : ParameterTable}
    (h : decodeBody pool visible body = .ok table) : decodeBody later visible body = .ok table := by
  refine Decoder.Refines.decode (Decoder.refines_rfl.bind fun count => ?_) h
  have hannotation := Annotation.refines_decodeWithin hle visible (ElementValue.levelBound body)
  have hparameter := hannotation.counted.map CanonicalSet.ofList
  exact (hparameter.repeatOnto count.toNat []).map ParameterTable.mk

end ParameterTable

end ClassStub
