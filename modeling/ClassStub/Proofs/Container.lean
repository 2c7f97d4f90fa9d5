import ClassStub.ClassFile
import ClassStub.Proofs.AnnotationReading
import ClassStub.Proofs.Interning
import ClassStub.Proofs.ModifiedUtf8

/-! # Class files that were written

A class file whose parts can be counted and whose texts can be written is parsed back from its
written form: all of it returns but the index of added constants, which is not written. Conversely,
whatever was parsed has such texts and such attributes. -/

namespace ClassStub

open Decoder (Reads Yields)

/-! ## Constants -/

namespace Constant

/-- The constant is no text, or a text that can be written. -/
def IsWritable (constant : Constant) : Prop :=
  ∀ text, constant = .utf8 text → text.IsWritable

theorem reads_decodeUtf8 {text : JavaText} (h : text.IsWritable) (index : UInt16) :
    (decodeUtf8 index).Reads (payload (.utf8 text)) (.utf8 text) := by
  refine (Decoder.reads_u2 _).bind ?_
  rw [toNat_toUInt16 h]
  refine (Decoder.reads_bytes text.encode).last ?_
  rw [JavaText.decode?_encode]
  exact Decoder.reads_pure _

/-- A constant is read back from its written form. -/
theorem reads_decode {constant : Constant} (h : constant.IsWritable) (index : UInt16) :
    (decode index).Reads constant.toBytes constant := by
  refine (Decoder.reads_u1 constant.tag).bind ?_
  cases constant with
  | utf8 text => exact reads_decodeUtf8 (h text rfl) index
  | integer value =>
    have hvalue := (Decoder.reads_u4 value.toUInt32).map fun word => integer word.toInt32
    rwa [Int32.toInt32_toUInt32] at hvalue
  | float bits => exact (Decoder.reads_u4 bits).map float
  | long value =>
    have hvalue := (Decoder.reads_u8 value.toUInt64).map fun word => long word.toInt64
    rwa [Int64.toInt64_toUInt64] at hvalue
  | double bits => exact (Decoder.reads_u8 bits).map double
  | classRef name => exact (Decoder.reads_u2 name).map classRef
  | string text => exact (Decoder.reads_u2 text).map string
  | methodType descriptor => exact (Decoder.reads_u2 descriptor).map methodType
  | moduleRef name => exact (Decoder.reads_u2 name).map moduleRef
  | packageRef name => exact (Decoder.reads_u2 name).map packageRef
  | fieldRef owner nameAndType =>
    exact (Decoder.reads_u2 owner).bind ((Decoder.reads_u2 nameAndType).map (fieldRef owner))
  | methodRef owner nameAndType =>
    exact (Decoder.reads_u2 owner).bind ((Decoder.reads_u2 nameAndType).map (methodRef owner))
  | interfaceMethodRef owner nameAndType =>
    exact (Decoder.reads_u2 owner).bind
      ((Decoder.reads_u2 nameAndType).map (interfaceMethodRef owner))
  | nameAndType name descriptor =>
    exact (Decoder.reads_u2 name).bind ((Decoder.reads_u2 descriptor).map (nameAndType name))
  | methodHandle kind reference =>
    exact (Decoder.reads_u1 kind).bind ((Decoder.reads_u2 reference).map (methodHandle kind))
  | dynamic bootstrap nameAndType =>
    exact (Decoder.reads_u2 bootstrap).bind
      ((Decoder.reads_u2 nameAndType).map (dynamic bootstrap))
  | invokeDynamic bootstrap nameAndType =>
    exact (Decoder.reads_u2 bootstrap).bind
      ((Decoder.reads_u2 nameAndType).map (invokeDynamic bootstrap))

/-- Whatever text was read can be written again, as its encoding is no longer than what was
read. -/
theorem yields_decode (index : UInt16) :
    Yields (decode index) fun constant _ => constant.IsWritable := by
  have hpair : ∀ make : UInt16 → UInt16 → Constant, (∀ a b text, make a b ≠ .utf8 text) →
      Yields (do return make (← Decoder.u2) (← Decoder.u2)) fun constant _ =>
        constant.IsWritable := fun make hmake =>
    Decoder.yields_u2.bind fun first _ _ => Decoder.yields_u2.map fun second _ _ text htext =>
      absurd htext (hmake first second text)
  refine Decoder.yields_u1.bind fun tag _ _ => ?_
  split
  · refine Decoder.yields_u2.bind fun length _ _ => ?_
    refine (Decoder.yields_bytes length.toNat).bind fun encoded _ hencoded => ?_
    split
    · rename_i text htext
      refine Decoder.yields_pure fun other hother => ?_
      cases hother
      have hlength := JavaText.length_encode_le htext
      have := length.toNat_lt
      unfold JavaText.IsWritable
      omega
    · exact Decoder.yields_fail
  · exact Decoder.yields_u4.map fun _ _ _ _ h => nomatch h
  · exact Decoder.yields_u4.map fun _ _ _ _ h => nomatch h
  · exact Decoder.yields_u8.map fun _ _ _ _ h => nomatch h
  · exact Decoder.yields_u8.map fun _ _ _ _ h => nomatch h
  · exact Decoder.yields_u2.map fun _ _ _ _ h => nomatch h
  · exact Decoder.yields_u2.map fun _ _ _ _ h => nomatch h
  · exact hpair _ fun _ _ _ => nofun
  · exact hpair _ fun _ _ _ => nofun
  · exact hpair _ fun _ _ _ => nofun
  · exact hpair _ fun _ _ _ => nofun
  · exact Decoder.yields_u1.bind fun _ _ _ => Decoder.yields_u2.map fun _ _ _ _ h => nomatch h
  · exact Decoder.yields_u2.map fun _ _ _ _ h => nomatch h
  · exact hpair _ fun _ _ _ => nofun
  · exact hpair _ fun _ _ _ => nofun
  · exact Decoder.yields_u2.map fun _ _ _ _ h => nomatch h
  · exact Decoder.yields_u2.map fun _ _ _ _ h => nomatch h
  · exact Decoder.yields_fail

end Constant

/-! ## Pools -/

namespace Pool

theorem decodeSlots_succ (due : Nat) (slots : Array Slot) :
    decodeSlots (due + 1) false slots =
      Constant.decode (slots.size + 1).toUInt16 >>= fun constant =>
        decodeSlots due constant.isWide (slots.push (.entry constant)) := by
  funext cursor
  change _ = Constant.decode (slots.size + 1).toUInt16 cursor >>= fun pair =>
    decodeSlots due pair.1.isWide (slots.push (.entry pair.1)) pair.2
  simp only [decodeSlots]
  cases Constant.decode (slots.size + 1).toUInt16 cursor <;> rfl

/-- A constant fills its slots, and what is due behind them is read next. -/
theorem reads_slotsOf {constant : Constant} (h : constant.IsWritable) {due : Nat}
    {slots result : Array Slot} {written : Bytes}
    (hrest : (decodeSlots due false (slots ++ slotsOf constant)).Reads written result) :
    (decodeSlots ((slotsOf constant).length + due) false slots).Reads
      ((slotsOf constant).flatMap Slot.toBytes ++ written) result := by
  have hread := Constant.reads_decode h (slots.size + 1).toUInt16
  cases hwide : constant.isWide with
  | true =>
    have hslots : slotsOf constant = [.entry constant, .upperHalf] := by
      rw [slotsOf, if_pos hwide]
    rw [hslots, Array.appendList_cons, Array.appendList_cons, Array.appendList_nil] at hrest
    have hwritten : [.entry constant, .upperHalf].flatMap Slot.toBytes = constant.toBytes :=
      List.append_nil _
    rw [hslots, hwritten, show [Slot.entry constant, .upperHalf].length + due = due + 1 + 1 from
      Nat.add_comm .., decodeSlots_succ]
    refine hread.bind ?_
    rw [hwide, decodeSlots]
    exact hrest
  | false =>
    have hslots : slotsOf constant = [.entry constant] := by
      rw [slotsOf, hwide, if_neg Bool.false_ne_true]
    rw [hslots, Array.appendList_cons, Array.appendList_nil] at hrest
    have hwritten : [.entry constant].flatMap Slot.toBytes = constant.toBytes := List.append_nil _
    rw [hslots, hwritten, show [Slot.entry constant].length + due = due + 1 from Nat.add_comm ..,
      decodeSlots_succ]
    refine hread.bind ?_
    rw [hwide]
    exact hrest

/-- The slots of constants that can be written are read back. -/
theorem reads_decodeSlots {constants : List Constant}
    (h : ∀ constant ∈ constants, constant.IsWritable) (slots : Array Slot) :
    (decodeSlots (constants.flatMap slotsOf).length false slots).Reads
      ((constants.flatMap slotsOf).flatMap Slot.toBytes) (slots ++ constants.flatMap slotsOf) := by
  induction constants generalizing slots with
  | nil =>
    rw [List.flatMap_nil, Array.appendList_nil]
    exact Decoder.reads_pure slots
  | cons constant constants ih =>
    obtain ⟨hconstant, hconstants⟩ := List.forall_mem_cons.1 h
    have hrest := ih hconstants (slots ++ slotsOf constant)
    have hslots : slots ++ slotsOf constant ++ constants.flatMap slotsOf =
        slots ++ (slotsOf constant ++ constants.flatMap slotsOf) := by
      apply Array.toList_inj.1
      simp only [Array.toList_appendList, List.append_assoc]
    rw [hslots] at hrest
    rw [List.flatMap_cons, List.length_append, List.flatMap_append]
    exact reads_slotsOf hconstant hrest

/-- The slots of a pool, whose other half is not written. -/
def written (pool : Pool) : Pool where
  slots := pool.slots

theorem reads_decode {pool : Pool} (h : pool.Sound JavaText.IsWritable)
    (hsize : pool.slots.size ≤ maxSlots) : decode.Reads pool.toBytes pool.written := by
  obtain ⟨constants, hslots, htexts⟩ := h.layout
  have hwritable : ∀ constant ∈ constants, constant.IsWritable := by
    rintro constant hconstant text rfl
    exact htexts text hconstant
  have hcount : pool.count.toNat - 1 = (constants.flatMap slotsOf).length := by
    have hlength : pool.slots.size = (constants.flatMap slotsOf).length := by
      rw [← hslots, Array.length_toList]
    unfold count maxSlots at *
    rw [toNat_toUInt16 (by omega)]
    omega
  refine (Decoder.reads_u2 pool.count).bind ?_
  rw [hcount, hslots]
  have hread := (reads_decodeSlots hwritable #[]).map fun slots => ({ slots } : Pool)
  rwa [show #[] ++ constants.flatMap slotsOf = pool.slots by
    apply Array.toList_inj.1
    rw [Array.toList_appendList, hslots, Array.toList_empty, List.nil_append]] at hread

/-- Slots hold no text that cannot be written. -/
def SlotsWritable (slots : Array Slot) : Prop :=
  ∀ constant, .entry constant ∈ slots → constant.IsWritable

theorem yields_decodeSlots (due : Nat) (owed : Bool) {slots : Array Slot}
    (h : SlotsWritable slots) :
    Yields (decodeSlots due owed slots) fun slots _ => SlotsWritable slots := by
  have hupper : ∀ {slots}, SlotsWritable slots → SlotsWritable (slots.push .upperHalf) := by
    intro slots h constant hmem
    rcases Array.mem_push.1 hmem with hmem | hmem
    · exact h constant hmem
    · cases hmem
  induction due generalizing owed slots with
  | zero =>
    refine Decoder.yields_pure ?_
    split
    · exact hupper h
    · exact h
  | succ due ih =>
    cases owed with
    | true => exact ih false (hupper h)
    | false =>
      rw [decodeSlots_succ]
      refine (Constant.yields_decode _).bind fun constant _ hconstant => ih _ ?_
      intro other hmem
      rcases Array.mem_push.1 hmem with hmem | hmem
      · exact h other hmem
      · cases hmem
        exact hconstant

theorem yields_decode : Yields decode fun pool _ => pool.Holds JavaText.IsWritable := by
  refine Decoder.yields_u2.bind fun count _ _ => ?_
  have hnone : SlotsWritable #[] := fun constant hmem => absurd hmem (Array.not_mem_empty _)
  refine (yields_decodeSlots (count.toNat - 1) false hnone).map
    fun slots _ hslots index text hget => ?_
  exact hslots _ (Array.mem_of_getElem? (get_ok.1 hget).2) text rfl

end Pool

/-! ## Class files -/

theorem Decoder.reads_ofList {α : Type} {write : α → Bytes} {decoder : Decoder α} {items : List α}
    (hcount : items.length ≤ 65535) (h : ∀ item ∈ items, decoder.Reads (write item) item) :
    (Decoder.counted decoder).Reads (Bytes.ofList write items) items :=
  Decoder.reads_counted (List.forall₂_map_left_iff.2 (List.forall₂_same.2 h)) hcount

/-- The length of the body fits into 32 bits. -/
def Attribute.IsWritable (item : Attribute) : Prop :=
  item.body.length < 2 ^ 32

instance (item : Attribute) : Decidable item.IsWritable :=
  inferInstanceAs (Decidable (_ < _))

theorem Attribute.reads_decode {item : Attribute} (h : item.IsWritable) :
    Attribute.decode.Reads item.toBytes item := by
  refine (Decoder.reads_u2 _).bind ((Decoder.reads_u4 _).bind ?_)
  rw [toNat_toUInt32 h]
  have hbody := (Decoder.reads_bytes item.body).map (Attribute.mk item.name)
  exact hbody

/-- Attributes that can be written and counted. -/
structure Attribute.ListWritable (items : List Attribute) : Prop where
  count : items.length ≤ 65535
  bodies : ∀ item ∈ items, item.IsWritable

theorem Attribute.reads_list {items : List Attribute} (h : ListWritable items) :
    (Decoder.counted Attribute.decode).Reads (Bytes.ofList Attribute.toBytes items) items :=
  Decoder.reads_ofList h.count fun item hitem => Attribute.reads_decode (h.bodies item hitem)

theorem Member.reads_decode {member : Member} (h : Attribute.ListWritable member.attributes) :
    Member.decode.Reads member.toBytes member :=
  (Decoder.reads_u2 _).bind ((Decoder.reads_u2 _).bind ((Decoder.reads_u2 _).bind
    ((Attribute.reads_list h).map (Member.mk member.access member.name member.descriptor))))

namespace ClassFile

/-- The parts of a class file can be counted, its texts can be written, and its pool is sound. -/
structure IsWritable (file : ClassFile) : Prop where
  magic : file.magic = standardMagic
  pool : file.pool.Sound JavaText.IsWritable
  slots : file.pool.slots.size ≤ Pool.maxSlots
  interfaces : file.interfaces.length ≤ 65535
  fields : file.fields.length ≤ 65535
  methods : file.methods.length ≤ 65535
  fieldAttributes : ∀ member ∈ file.fields, Attribute.ListWritable member.attributes
  methodAttributes : ∀ member ∈ file.methods, Attribute.ListWritable member.attributes
  attributes : Attribute.ListWritable file.attributes

/-- What is left of a class file when it is written. -/
def written (file : ClassFile) : ClassFile :=
  { file with pool := file.pool.written }

theorem reads_decode {file : ClassFile} (h : file.IsWritable) :
    decode.Reads file.toBytes file.written := by
  have hmagic : decodeMagic.Reads (Bytes.ofUInt32 file.magic) file.magic := by
    refine (Decoder.reads_u4 file.magic).last ?_
    rw [if_pos h.magic]
    exact Decoder.reads_pure _
  have hinterfaces := Decoder.reads_ofList h.interfaces fun index _ => Decoder.reads_u2 index
  have hfields := Decoder.reads_ofList h.fields fun member hmember =>
    Member.reads_decode (h.fieldAttributes member hmember)
  have hmethods := Decoder.reads_ofList h.methods fun member hmember =>
    Member.reads_decode (h.methodAttributes member hmember)
  have hattributes := (Attribute.reads_list h.attributes).map fun attributes =>
    { file.written with attributes }
  exact hmagic.bind ((Decoder.reads_u2 _).bind ((Decoder.reads_u2 _).bind
    ((Pool.reads_decode h.pool h.slots).bind ((Decoder.reads_u2 _).bind ((Decoder.reads_u2 _).bind
      ((Decoder.reads_u2 _).bind (hinterfaces.bind (hfields.bind (hmethods.bind hattributes)))))))))

/-- A class file that can be written is parsed back. -/
theorem parse_toBytes {file : ClassFile} (h : file.IsWritable) :
    parse file.toBytes = .ok file.written := by
  have hread := reads_decode h [] 0
  rw [List.append_nil] at hread
  exact bind_eq_ok.2 ⟨_, hread, rfl⟩

end ClassFile

/-! ## What was parsed -/

theorem Decoder.yields_counted_forall {α : Type} {decoder : Decoder α} {property : α → Prop}
    (h : Yields decoder fun item _ => property item) :
    Yields (Decoder.counted decoder) fun items _ =>
      items.length ≤ 65535 ∧ ∀ item ∈ items, property item := by
  refine (Decoder.yields_counted h).mono ?_
  rintro items _ ⟨hlength, _, _, _, _, parts, rfl, hparts⟩
  have hboth := hparts.imp (S := fun item _ => property item ∧ True) fun _ _ h => ⟨h, trivial⟩
  exact ⟨hlength, ((List.forall₂_and_left items parts).1 hboth).1⟩

theorem Attribute.yields_decode : Yields Attribute.decode fun item _ => item.IsWritable := by
  refine Decoder.yields_u2.bind fun name _ _ => Decoder.yields_u4.bind fun length _ _ => ?_
  refine (Decoder.yields_bytes length.toNat).map fun body _ hbody => ?_
  have := length.toNat_lt
  change body.length < 2 ^ 32
  omega

theorem Attribute.yields_list :
    Yields (Decoder.counted Attribute.decode) fun items _ => ListWritable items :=
  (Decoder.yields_counted_forall Attribute.yields_decode).mono fun _ _ h => ⟨h.1, h.2⟩

theorem Member.yields_decode :
    Yields Member.decode fun member _ => Attribute.ListWritable member.attributes :=
  Decoder.yields_u2.bind fun _ _ _ => Decoder.yields_u2.bind fun _ _ _ =>
    Decoder.yields_u2.bind fun _ _ _ => Attribute.yields_list.map fun _ _ h => h

namespace ClassFile

/-- What holds of every class file that was parsed. -/
structure IsParsed (file : ClassFile) : Prop where
  texts : file.pool.Holds JavaText.IsWritable
  interfaces : file.interfaces.length ≤ 65535
  fields : file.fields.length ≤ 65535
  methods : file.methods.length ≤ 65535
  fieldAttributes : ∀ member ∈ file.fields, Attribute.ListWritable member.attributes
  methodAttributes : ∀ member ∈ file.methods, Attribute.ListWritable member.attributes
  attributes : Attribute.ListWritable file.attributes

theorem yields_decode : Yields decode fun file _ => file.IsParsed := by
  have hmagic : Yields decodeMagic fun _ _ => True := by
    refine Decoder.yields_u4.bind fun magic _ _ => ?_
    split
    · exact Decoder.yields_pure trivial
    · exact Decoder.yields_fail
  have hword : Yields Decoder.u2 fun _ _ => True := Decoder.yields_u2.mono fun _ _ _ => trivial
  refine hmagic.bind fun _ _ _ => hword.bind fun _ _ _ => hword.bind fun _ _ _ => ?_
  refine Pool.yields_decode.bind fun pool _ hpool => ?_
  refine hword.bind fun _ _ _ => hword.bind fun _ _ _ => hword.bind fun _ _ _ => ?_
  refine (Decoder.yields_counted_forall hword).bind fun interfaces _ hinterfaces => ?_
  refine (Decoder.yields_counted_forall Member.yields_decode).bind fun fields _ hfields => ?_
  refine (Decoder.yields_counted_forall Member.yields_decode).bind fun methods _ hmethods => ?_
  refine Attribute.yields_list.map fun attributes _ hattributes => ?_
  exact ⟨hpool, hinterfaces.1, hfields.1, hmethods.1, hfields.2, hmethods.2, hattributes⟩

theorem isParsed_of_parse {bytes : Bytes} {file : ClassFile} (h : parse bytes = .ok file) :
    file.IsParsed := by
  obtain ⟨⟨found, final⟩, hdecode, h⟩ := bind_eq_ok.1 h
  obtain ⟨_, _, _, hparsed⟩ := yields_decode _ _ _ hdecode
  dsimp only at h
  split at h
  · cases h
    exact hparsed
  · cases h

end ClassFile

end ClassStub
