import ClassStub.Proofs.AnnotationKeys
import ClassStub.Proofs.ShortestForms
import ClassStub.Proofs.VerifiedClasses

/-! # Pools that are written as they were read

The input of a pool divides into a count and entries, and the pool holds the constants of these. It
is written as it was read exactly when its count is not 0, no wide constant reaches beyond the
count, and each text was encoded in the shortest way. Otherwise another count is written, or fewer
bytes are. -/

namespace ClassStub

open Decoder (Yields)

/-- An entry as it stands in the input: the encoded form of a text, or another constant. -/
inductive PoolEntry where
  | text (payload : Bytes) (content : JavaText) (fits : payload.length ≤ 65535)
    (spells : JavaText.decode? payload = some content)
  | plain (constant : Constant) (notText : constant.isUtf8 = false)

namespace PoolEntry

/-- The bytes of an entry. -/
def bytes : PoolEntry → Bytes
  | text payload .. => 1 :: (Bytes.ofUInt16 payload.length.toUInt16 ++ payload)
  | plain constant _ => constant.toBytes

/-- The constant that an entry holds. -/
def constant : PoolEntry → Constant
  | text _ content .. => .utf8 content
  | plain constant _ => constant

/-- The slots that an entry fills. -/
def slots (entry : PoolEntry) : List Slot :=
  Pool.slotsOf entry.constant

/-- If the entry is a text, it is encoded in the shortest way. -/
def IsShortest : PoolEntry → Prop
  | text payload .. => JavaText.IsShortest payload
  | plain .. => True

variable {entry : PoolEntry}

theorem length_toBytes_le (entry : PoolEntry) :
    entry.constant.toBytes.length ≤ entry.bytes.length := by
  cases entry with
  | text payload content fits spells =>
    have hlength := JavaText.length_encode_le spells
    simp only [constant, bytes, Constant.toBytes, Constant.payload, List.length_cons,
      List.length_append, Bytes.length_ofUInt16]
    omega
  | plain constant notText => exact Nat.le_refl _

theorem isShortest_of_length (h : entry.constant.toBytes.length = entry.bytes.length) :
    entry.IsShortest := by
  cases entry with
  | text payload content fits spells =>
    refine JavaText.isShortest_of_length spells ?_
    simp only [constant, bytes, Constant.toBytes, Constant.payload, List.length_cons,
      List.length_append, Bytes.length_ofUInt16] at h
    omega
  | plain constant notText => trivial

theorem toBytes_of_isShortest (h : entry.IsShortest) : entry.constant.toBytes = entry.bytes := by
  cases entry with
  | text payload content fits spells =>
    have hpayload := (JavaText.encode_eq_iff spells).2 h
    rw [constant, bytes, ← hpayload]
    rfl
  | plain constant notText => rfl

end PoolEntry

/-! ## Entries that were read -/

theorem Constant.yields_entry (index : UInt16) :
    Yields (decode index) fun constant taken =>
      ∃ entry : PoolEntry, entry.constant = constant ∧ taken = entry.bytes := by
  have hpair : ∀ {make : UInt16 → UInt16 → Constant} {tag : UInt8},
      (∀ first second, (make first second).isUtf8 = false) →
      (∀ first second, (make first second).toBytes =
        tag :: (Bytes.ofUInt16 first ++ Bytes.ofUInt16 second)) →
      Yields (do return make (← Decoder.u2) (← Decoder.u2)) fun constant taken =>
        ∃ entry : PoolEntry, entry.constant = constant ∧ [tag] ++ taken = entry.bytes := by
    intro make tag hplain hbytes
    refine Decoder.yields_written_u2.bind fun first _ hfirst => ?_
    refine Decoder.yields_written_u2.map fun second _ hsecond => ?_
    subst hfirst hsecond
    exact ⟨.plain _ (hplain first second), rfl, (hbytes first second).symm⟩
  refine Decoder.yields_written_u1.bind fun tag _ htag => ?_
  subst htag
  split
  · refine Decoder.yields_written_u2.bind fun length _ hlength => ?_
    refine (Decoder.yields_bytes length.toNat).bind fun encoded taken hencoded => ?_
    obtain ⟨rfl, hcount⟩ := hencoded
    subst hlength
    split
    · rename_i text htext
      have hfits : taken.length ≤ 65535 := hcount ▸ Nat.le_of_lt_succ length.toNat_lt
      refine Decoder.yields_pure ⟨.text taken text hfits htext, rfl, ?_⟩
      rw [List.append_nil, PoolEntry.bytes, hcount, Nat.toUInt16_eq, UInt16.ofNat_toNat]
      rfl
    · exact Decoder.yields_fail
  · refine Decoder.yields_written_u4.map fun word _ hword => ⟨.plain _ rfl, rfl, ?_⟩
    change _ = 3 :: Bytes.ofUInt32 word.toInt32.toUInt32
    rw [hword, UInt32.toUInt32_toInt32]
    rfl
  · exact Decoder.yields_written_u4.map fun _ _ hword => ⟨.plain _ rfl, rfl, hword ▸ rfl⟩
  · refine Decoder.yields_written_u8.map fun word _ hword => ⟨.plain _ rfl, rfl, ?_⟩
    change _ = 5 :: Bytes.ofUInt64 word.toInt64.toUInt64
    rw [hword, UInt64.toUInt64_toInt64]
    rfl
  · exact Decoder.yields_written_u8.map fun _ _ hword => ⟨.plain _ rfl, rfl, hword ▸ rfl⟩
  · exact Decoder.yields_written_u2.map fun _ _ hword => ⟨.plain _ rfl, rfl, hword ▸ rfl⟩
  · exact Decoder.yields_written_u2.map fun _ _ hword => ⟨.plain _ rfl, rfl, hword ▸ rfl⟩
  · exact hpair (fun _ _ => rfl) fun _ _ => rfl
  · exact hpair (fun _ _ => rfl) fun _ _ => rfl
  · exact hpair (fun _ _ => rfl) fun _ _ => rfl
  · exact hpair (fun _ _ => rfl) fun _ _ => rfl
  · refine Decoder.yields_written_u1.bind fun kind _ hkind => ?_
    refine Decoder.yields_written_u2.map fun reference _ hreference => ⟨.plain _ rfl, rfl, ?_⟩
    rw [hkind, hreference]
    rfl
  · exact Decoder.yields_written_u2.map fun _ _ hword => ⟨.plain _ rfl, rfl, hword ▸ rfl⟩
  · exact hpair (fun _ _ => rfl) fun _ _ => rfl
  · exact hpair (fun _ _ => rfl) fun _ _ => rfl
  · exact Decoder.yields_written_u2.map fun _ _ hword => ⟨.plain _ rfl, rfl, hword ▸ rfl⟩
  · exact Decoder.yields_written_u2.map fun _ _ hword => ⟨.plain _ rfl, rfl, hword ▸ rfl⟩
  · exact Decoder.yields_fail

namespace Pool

/-- How the input from `cursor` to `next` divides into a count and the entries of `pool`. -/
structure Division (cursor next : Cursor) (pool : Pool) where
  count : UInt16
  entries : List PoolEntry
  input : cursor.rest = Bytes.ofUInt16 count ++ (entries.flatMap PoolEntry.bytes ++ next.rest)
  slots : pool.slots.toList = entries.flatMap PoolEntry.slots

theorem yields_decodeSlots_entries (due : Nat) (owed : Bool) (slots : Array Slot) :
    Yields (decodeSlots due owed slots) fun result taken => ∃ entries : List PoolEntry,
      taken = entries.flatMap PoolEntry.bytes
        ∧ result.toList = (completed owed slots).toList ++ entries.flatMap PoolEntry.slots := by
  induction due generalizing owed slots with
  | zero => exact Decoder.yields_pure ⟨[], rfl, (List.append_nil _).symm⟩
  | succ due ih =>
    cases owed with
    | true => exact ih false _
    | false =>
      rw [decodeSlots_succ]
      refine (Constant.yields_entry _).bind fun constant _ hentry => (ih _ _).mono ?_
      obtain ⟨entry, rfl, rfl⟩ := hentry
      rintro result _ ⟨entries, rfl, hresult⟩
      refine ⟨entry :: entries, rfl, ?_⟩
      rw [hresult, completed_push, Array.toList_appendList, List.append_assoc]
      rfl

theorem exists_division {cursor next : Cursor} {pool : Pool}
    (h : decode cursor = .ok (pool, next)) : Nonempty (Division cursor next pool) := by
  have hyields : Yields decode fun pool taken => ∃ (count : UInt16) (entries : List PoolEntry),
      taken = Bytes.ofUInt16 count ++ entries.flatMap PoolEntry.bytes
        ∧ pool.slots.toList = entries.flatMap PoolEntry.slots := by
    refine Decoder.yields_written_u2.bind fun count _ hcount => ?_
    refine (yields_decodeSlots_entries (count.toNat - 1) false #[]).map fun slots _ hslots => ?_
    obtain ⟨entries, rfl, hslots⟩ := hslots
    exact ⟨count, entries, hcount ▸ rfl, hslots⟩
  obtain ⟨_, hrest, -, count, entries, rfl, hslots⟩ := hyields _ _ _ h
  exact ⟨⟨count, entries, hrest.trans (List.append_assoc ..), hslots⟩⟩

/-! ## The number of slots -/

/-- The last slot holds a wide constant. -/
def endsWide (slots : Array Slot) : Bool :=
  match slots.back? with
  | some (.entry constant) => constant.isWide
  | _ => false

theorem endsWide_push_entry (slots : Array Slot) (constant : Constant) :
    endsWide (slots.push (.entry constant)) = constant.isWide := by
  rw [endsWide, Array.back?_push]

theorem endsWide_push_upperHalf (slots : Array Slot) :
    endsWide (slots.push .upperHalf) = false := by
  rw [endsWide, Array.back?_push]

/-- As many slots are read as are due, and one more if the last of them holds a wide constant. -/
theorem yields_decodeSlots_counted (due : Nat) {owed : Bool} {slots : Array Slot}
    (h : owed = endsWide slots) :
    Yields (decodeSlots due owed slots) fun result _ => ∃ counted : Array Slot,
      counted.size = slots.size + due ∧ result = completed (endsWide counted) counted := by
  induction due generalizing owed slots with
  | zero => exact Decoder.yields_pure ⟨slots, rfl, by rw [← h, completed]⟩
  | succ due ih =>
    cases owed with
    | true =>
      refine (ih (endsWide_push_upperHalf slots).symm).mono ?_
      rintro result _ ⟨counted, hsize, hresult⟩
      rw [Array.size_push] at hsize
      exact ⟨counted, by omega, hresult⟩
    | false =>
      rw [decodeSlots_succ]
      refine (Constant.yields_decode _).bind fun constant _ _ => ?_
      refine (ih (endsWide_push_entry slots constant).symm).mono ?_
      rintro result _ ⟨counted, hsize, hresult⟩
      rw [Array.size_push] at hsize
      exact ⟨counted, by omega, hresult⟩

/-- Whether the last of the counted slots is wide can be seen at its index. -/
theorem endsWide_eq {pool : Pool} {counted : Array Slot} {index : UInt16}
    (hslots : pool.slots = completed (endsWide counted) counted)
    (hindex : index.toNat = counted.size) :
    endsWide counted = pool.has Constant.isWide index := by
  have hsame : index ≠ 0 → pool.slots[index.toNat - 1]? = counted.back? := by
    intro hzero
    have hpos : 0 < counted.size := by
      rw [← hindex]
      exact Nat.pos_of_ne_zero fun h => hzero (UInt16.toNat_inj.1 h)
    rw [hslots, hindex, Array.back?]
    unfold completed
    split
    · rw [Array.getElem?_push, if_neg (by omega)]
    · rfl
  rw [Bool.eq_iff_iff, has_iff]
  constructor
  · intro hwide
    unfold endsWide at hwide
    split at hwide
    · rename_i constant hback
      have hzero : index ≠ 0 := by
        rintro rfl
        rw [Array.eq_empty_of_size_eq_zero hindex.symm] at hback
        cases hback
      exact ⟨constant, get_ok.2 ⟨hzero, (hsame hzero).trans hback⟩, hwide⟩
    · cases hwide
  · rintro ⟨constant, hget, hwide⟩
    obtain ⟨hzero, hslot⟩ := get_ok.1 hget
    rw [endsWide, ← hsame hzero, hslot]
    exact hwide

namespace Division

variable {cursor next : Cursor} {pool : Pool} (division : Division cursor next pool)

include division

theorem laidOut : LaidOut pool.slots :=
  ⟨division.entries.map PoolEntry.constant, by rw [division.slots, List.flatMap_map]; rfl⟩

/-- A wide constant with the last index that was counted reaches one slot further. -/
theorem size_slots (h : decode cursor = .ok (pool, next)) :
    pool.slots.size = if division.count = 0 then 0
      else if pool.has Constant.isWide (division.count - 1) then division.count.toNat
      else division.count.toNat - 1 := by
  have hyields : Yields decode fun pool taken => ∃ (count : UInt16) (body : Bytes),
      taken = Bytes.ofUInt16 count ++ body ∧ ∃ counted : Array Slot,
        counted.size = count.toNat - 1 ∧ pool.slots = completed (endsWide counted) counted := by
    refine Decoder.yields_written_u2.bind fun count _ hcount => ?_
    have hnone : false = endsWide #[] := rfl
    refine (yields_decodeSlots_counted (count.toNat - 1) hnone).map fun slots body hslots => ?_
    rw [Array.size_empty, Nat.zero_add] at hslots
    exact ⟨count, body, hcount ▸ rfl, hslots⟩
  obtain ⟨_, hrest, -, count, body, rfl, counted, hsize, hslots⟩ := hyields _ _ _ h
  have hcount : count = division.count := by
    rw [division.input, List.append_assoc] at hrest
    exact (ofUInt16_splitsOff hrest).1.symm
  subst hcount
  by_cases hzero : division.count = 0
  · rw [hzero] at hsize
    rw [if_pos hzero, hslots, Array.eq_empty_of_size_eq_zero hsize]
    rfl
  · have hpos : division.count.toNat ≠ 0 := fun h => hzero (UInt16.toNat_inj.1 h)
    have hindex : (division.count - 1).toNat = counted.size := by
      rw [hsize, UInt16.toNat_sub_of_le]
      · rfl
      · exact UInt16.le_iff_toNat_le.2 (Nat.one_le_iff_ne_zero.2 hpos)
    rw [if_neg hzero, hslots, completed, endsWide_eq hslots hindex]
    split
    · rw [Array.size_push]
      omega
    · exact hsize

theorem size_le (h : decode cursor = .ok (pool, next)) : pool.slots.size ≤ 65535 := by
  have hsize := division.size_slots h
  have hlt := division.count.toNat_lt
  split at hsize
  · omega
  · split at hsize <;> omega

/-- The count that is written is the one that was read, unless that was 0 or a wide constant
reaches beyond it. -/
theorem count_eq_iff (h : decode cursor = .ok (pool, next)) :
    pool.count = division.count ↔
      division.count ≠ 0 ∧ ¬pool.has Constant.isWide (division.count - 1) := by
  have hsize := division.size_slots h
  have hlt := division.count.toNat_lt
  rw [← UInt16.toNat_inj, Pool.count, Nat.toUInt16_eq, UInt16.toNat_ofNat']
  by_cases hzero : division.count = 0
  · rw [if_pos hzero] at hsize
    rw [hsize, hzero]
    exact ⟨fun h => (nomatch h), fun h => absurd rfl h.1⟩
  · have hpos : division.count.toNat ≠ 0 := fun h => hzero (UInt16.toNat_inj.1 h)
    rw [if_neg hzero] at hsize
    by_cases hwide : pool.has Constant.isWide (division.count - 1) = true
    · rw [if_pos hwide] at hsize
      rw [hsize]
      exact ⟨fun h => by omega, fun h => absurd hwide h.2⟩
    · rw [if_neg hwide] at hsize
      rw [hsize]
      exact ⟨fun _ => ⟨hzero, hwide⟩, fun _ => by omega⟩

theorem flatMap_toBytes :
    pool.slots.toList.flatMap Slot.toBytes =
      division.entries.flatMap fun entry => entry.constant.toBytes := by
  rw [division.slots, List.flatMap_assoc]
  refine List.flatMap_congr fun entry _ => ?_
  unfold PoolEntry.slots slotsOf
  split
  · exact List.append_nil _
  · exact List.append_nil _

/-- The entries are written as they were read if they were encoded in the shortest way. -/
theorem flatMap_toBytes_eq_iff :
    pool.slots.toList.flatMap Slot.toBytes = division.entries.flatMap PoolEntry.bytes ↔
      ∀ entry ∈ division.entries, entry.IsShortest := by
  rw [division.flatMap_toBytes]
  constructor
  · intro hbytes entry hentry
    have hle := length_flatMap_le fun entry (_ : entry ∈ division.entries) =>
      entry.length_toBytes_le
    exact PoolEntry.isShortest_of_length (hle.2 (congrArg List.length hbytes) entry hentry)
  · intro hshortest
    exact List.flatMap_congr fun entry hentry =>
      PoolEntry.toBytes_of_isShortest (hshortest entry hentry)

theorem toBytes_eq_iff (h : decode cursor = .ok (pool, next)) :
    pool.toBytes ++ next.rest = cursor.rest ↔
      (division.count ≠ 0 ∧ ¬pool.has Constant.isWide (division.count - 1))
        ∧ ∀ entry ∈ division.entries, entry.IsShortest := by
  rw [← division.count_eq_iff h, ← division.flatMap_toBytes_eq_iff, division.input, toBytes,
    List.append_assoc]
  constructor
  · intro hbytes
    obtain ⟨hcount, hrest⟩ := ofUInt16_splitsOff hbytes
    exact ⟨hcount, List.append_cancel_right hrest⟩
  · rintro ⟨hcount, hentries⟩
    rw [hcount, hentries]

/-- A text stands at the index that the entries before it determine. -/
theorem exists_getText (h : decode cursor = .ok (pool, next)) {before after : List PoolEntry}
    {payload : Bytes} {content : JavaText} {fits : payload.length ≤ 65535}
    {spells : JavaText.decode? payload = some content}
    (hentries : division.entries = before ++ .text payload content fits spells :: after) :
    ∃ index : UInt16, index.toNat = (before.flatMap PoolEntry.slots).length + 1
      ∧ pool.getText index = .ok content := by
  have hslots := division.slots
  rw [hentries, List.flatMap_append, List.flatMap_cons] at hslots
  have hslot : pool.slots[(before.flatMap PoolEntry.slots).length]? =
      some (.entry (.utf8 content)) := by
    rw [← Array.getElem?_toList, hslots, List.getElem?_append_right (Nat.le_refl _), Nat.sub_self]
    rfl
  have hbound := (Array.getElem?_eq_some_iff.1 hslot).1
  have hindex : ((before.flatMap PoolEntry.slots).length + 1).toUInt16.toNat =
      (before.flatMap PoolEntry.slots).length + 1 := by
    have := division.size_le h
    exact toNat_toUInt16 (by omega)
  refine ⟨_, hindex, getText_ok.2 (get_ok.2 ⟨fun hzero => ?_, ?_⟩)⟩
  · rw [hzero] at hindex
    cases hindex
  · rwa [hindex, Nat.add_sub_cancel]

end Division

/-- Whatever is read as a pool divides into a count and entries. The pool is written as it was read
exactly if the count is not 0, no wide constant has the last index that was counted, and all texts
are encoded in the shortest way. In any case the slots are those of constants, their number is known
from the count, and the names among the texts are those whose surrogates are paired. -/
theorem decode_toBytes {cursor next : Cursor} {pool : Pool}
    (h : decode cursor = .ok (pool, next)) :
    Nonempty (Division cursor next pool) ∧ ∀ division : Division cursor next pool,
      (pool.toBytes ++ next.rest = cursor.rest ↔
        (division.count ≠ 0 ∧ ¬pool.has Constant.isWide (division.count - 1))
          ∧ ∀ entry ∈ division.entries, entry.IsShortest)
      ∧ Verification.verifySlots false 0 pool.slots.toList = .ok ()
      ∧ (pool.slots.size = if division.count = 0 then 0
          else if pool.has Constant.isWide (division.count - 1) then division.count.toNat
          else division.count.toNat - 1)
      ∧ ∀ before payload content fits spells after,
          division.entries = before ++ .text payload content fits spells :: after →
          ∃ index : UInt16, index.toNat = (before.flatMap PoolEntry.slots).length + 1
            ∧ pool.getText index = .ok content
            ∧ (JavaText.IsPaired content.units →
                ∃ name, .ofString name = content ∧ pool.getName index = .ok name)
            ∧ (¬JavaText.IsPaired content.units →
                pool.getName index = .error (.unpairedSurrogate index)) := by
  refine ⟨exists_division h, fun division => ⟨division.toBytes_eq_iff h, ?_,
    division.size_slots h, ?_⟩⟩
  · obtain ⟨constants, hslots⟩ := division.laidOut
    rw [hslots]
    exact Verification.verifySlots_flatMap constants 0
  · intro before payload content fits spells after hentries
    obtain ⟨index, hindex, htext⟩ := division.exists_getText h hentries
    exact ⟨index, hindex, htext, getName_of_getText htext⟩

/-- A pool of a text and of a `long` whose second half was not counted. -/
def straddling : Pool where
  slots := #[.entry (.utf8 ⟨[0x41]⟩), .entry (.long 7), .upperHalf]

/-- Bytes that hold the pool, with two bytes for a unit that needs one, and a byte behind it. -/
def straddlingBytes : Bytes :=
  [0, 3, 1, 0, 2, 0xC1, 0x81, 5, 0, 0, 0, 0, 0, 0, 0, 7, 0xAA]

/-- How these bytes divide. -/
def straddlingDivision : Division (.start straddlingBytes) ⟨[0xAA], 16⟩ straddling where
  count := 3
  entries := [.text [0xC1, 0x81] ⟨[0x41]⟩ (by decide) rfl, .plain (.long 7) rfl]
  input := rfl
  slots := rfl

theorem decode_toBytes_straddling :
    decode (.start straddlingBytes) = .ok (straddling, ⟨[0xAA], 16⟩)
    ∧ straddling.toBytes ++ [0xAA] ≠ straddlingBytes
    ∧ Verification.verifySlots false 0 straddling.slots.toList = .ok ()
    ∧ straddling.slots.size = 3 := by
  have hdecode : decode (.start straddlingBytes) = .ok (straddling, ⟨[0xAA], 16⟩) := rfl
  obtain ⟨hbytes, hslots, hsize, -⟩ := (decode_toBytes hdecode).2 straddlingDivision
  have hwide : straddling.has Constant.isWide (straddlingDivision.count - 1) = true := rfl
  refine ⟨hdecode, fun hsame => ?_, hslots, hsize⟩
  exact (hbytes.1 hsame).1.2 hwide

end Pool

end ClassStub
