import ClassStub.Proofs.ReadBack

/-! # Pools that can come up

A pool starts without constants or is read from bytes, and then constants may be added to it, with
or without success. Whatever was done, the slots of such a pool are those of its constants one after
the other, and what it remembers of added constants is true. A class file with such a pool is parsed
back from its bytes, if its texts and lists are short enough to be counted. -/

namespace ClassStub

open Decoder (Yields)

/-- The pool after a computation that adds constants, whether it succeeded or not. -/
def PoolM.after {α : Type} (action : PoolM α) (pool : Pool) : Pool :=
  match action pool with
  | .ok _ next => next
  | .error _ next => next

theorem PoolM.after_of_ok {α : Type} {action : PoolM α} {pool next : Pool} {value : α}
    (h : action pool = .ok value next) : action.after pool = next := by
  rw [after, h]

theorem PoolM.after_of_error {α : Type} {action : PoolM α} {pool next : Pool} {cause : PoolError}
    (h : action pool = .error cause next) : action.after pool = next := by
  rw [after, h]

namespace Pool

/-! ## Slots -/

/-- Slots that are those of constants, one after the other. -/
def LaidOut (slots : Array Slot) : Prop :=
  ∃ constants : List Constant, slots.toList = constants.flatMap slotsOf

/-- The slots with the second half that is still due. -/
def completed (owed : Bool) (slots : Array Slot) : Array Slot :=
  if owed then slots.push .upperHalf else slots

theorem completed_push (constant : Constant) (slots : Array Slot) :
    completed constant.isWide (slots.push (.entry constant)) = slots ++ slotsOf constant := by
  apply Array.toList_inj.1
  unfold completed slotsOf
  by_cases hwide : constant.isWide
  · simp [hwide]
  · simp [hwide]

theorem LaidOut.append {slots : Array Slot} (h : LaidOut slots) (constant : Constant) :
    LaidOut (slots ++ slotsOf constant) := by
  obtain ⟨constants, hslots⟩ := h
  refine ⟨constants ++ [constant], ?_⟩
  rw [Array.toList_appendList, hslots, List.flatMap_append, List.flatMap_singleton]

/-- Reading slots goes on from constants to constants. -/
theorem yields_decodeSlots_laidOut (due : Nat) (owed : Bool) {slots : Array Slot}
    (h : LaidOut (completed owed slots)) :
    Yields (decodeSlots due owed slots) fun slots _ => LaidOut slots := by
  induction due generalizing owed slots with
  | zero => exact Decoder.yields_pure h
  | succ due ih =>
    cases owed with
    | true => exact ih false h
    | false =>
      rw [decodeSlots_succ]
      refine (Constant.yields_decode _).bind fun constant _ _ => ih _ ?_
      rw [completed_push]
      exact h.append constant

/-! ## Soundness -/

/-- A pool that was read consists of constants and remembers nothing. -/
theorem sound_of_decode {cursor next : Cursor} {pool : Pool}
    (h : decode cursor = .ok (pool, next)) : pool.Sound fun _ => True := by
  have hyields : Yields decode fun pool _ => pool.Sound fun _ => True := by
    refine Decoder.yields_u2.bind fun count _ _ => ?_
    refine (yields_decodeSlots_laidOut (count.toNat - 1) false ⟨[], rfl⟩).map ?_
    rintro slots _ ⟨constants, hslots⟩
    refine ⟨fun constant index hknown => ?_, constants, hslots, fun _ _ => trivial⟩
    rw [Std.HashMap.getElem?_empty] at hknown
    cases hknown
  obtain ⟨_, _, _, hsound⟩ := hyields cursor pool next h
  exact hsound

/-- Texts that all stand in the slots of a sound pool make it sound for them. -/
theorem Sound.texts {pool : Pool} {texts : JavaText → Prop} (h : pool.Sound fun _ => True)
    (htexts : ∀ text, .entry (.utf8 text) ∈ pool.slots → texts text) : pool.Sound texts := by
  obtain ⟨constants, hslots, -⟩ := h.layout
  refine ⟨h.known, constants, hslots, fun text htext => htexts text ?_⟩
  rw [← Array.mem_toList_iff, hslots]
  refine List.mem_flatMap.2 ⟨_, htext, ?_⟩
  exact List.mem_cons_self

theorem Sound.mono {pool : Pool} {texts weaker : JavaText → Prop} (h : pool.Sound texts)
    (hweaker : ∀ text, texts text → weaker text) : pool.Sound weaker := by
  obtain ⟨constants, hslots, htexts⟩ := h.layout
  exact ⟨h.known, constants, hslots, fun text htext => hweaker text (htexts text htext)⟩

/-- What holds of the texts of a sound pool holds of those in its slots. -/
theorem Sound.text_of_mem {pool : Pool} {texts : JavaText → Prop} (h : pool.Sound texts)
    {text : JavaText} (htext : .entry (.utf8 text) ∈ pool.slots) : texts text := by
  obtain ⟨constants, hslots, htexts⟩ := h.layout
  rw [← Array.mem_toList_iff, hslots] at htext
  obtain ⟨constant, hconstant, hslot⟩ := List.mem_flatMap.1 htext
  unfold slotsOf at hslot
  split at hslot
  · rename_i hwide
    simp only [List.mem_cons, Slot.entry.injEq, reduceCtorEq, List.not_mem_nil, or_false] at hslot
    subst hslot
    cases hwide
  · rw [List.mem_singleton] at hslot
    cases hslot
    exact htexts text hconstant

/-! ## Additions -/

/-- What can be added to a pool from outside. -/
inductive Addition where
  | text (content : JavaText)
  | name (content : String)
  | classRef (content : String)
  | nameAndType (content descriptor : String)
  | string (content : JavaText)
  | integer (value : Int32)
  | float (bits : UInt32)
  | long (value : Int64)
  | double (bits : UInt64)

/-- Make an addition. -/
def Addition.run : Addition → PoolM UInt16
  | text content => addText content
  | name content => addName content
  | classRef content => addClass content
  | nameAndType content descriptor => addNameAndType content descriptor
  | string content => addString content
  | integer value => addInteger value
  | float bits => addFloat bits
  | long value => addLong value
  | double bits => addDouble bits

theorem interns_addString {texts : JavaText → Prop} {text : JavaText} (h : texts text) :
    Interns texts (addString text) fun later index =>
      ∃ first, later.get index = .ok (.string first) ∧ later.getText first = .ok text :=
  (interns_addText h).bind fun first => (interns_add fun _ hother => (nomatch hother)).mono
    fun _ _ hindex hfirst => ⟨first, hindex, hfirst⟩

/-- An addition leaves a sound pool behind, even if it fails. -/
theorem Addition.interns (addition : Addition) :
    Interns (fun _ => True) addition.run fun _ _ => True := by
  cases addition with
  | text content => exact Interns.mono (interns_addText trivial) fun _ _ _ => trivial
  | name content => exact Interns.mono (interns_addName trivial) fun _ _ _ => trivial
  | classRef content => exact Interns.mono (interns_addClass trivial) fun _ _ _ => trivial
  | nameAndType content descriptor =>
    exact Interns.mono (interns_addNameAndType trivial trivial) fun _ _ _ => trivial
  | string content => exact Interns.mono (interns_addString trivial) fun _ _ _ => trivial
  | integer value => exact Interns.mono (interns_addInteger value) fun _ _ _ => trivial
  | float bits => exact Interns.mono (interns_addFloat bits) fun _ _ _ => trivial
  | long value => exact Interns.mono (interns_addLong value) fun _ _ _ => trivial
  | double bits => exact Interns.mono (interns_addDouble bits) fun _ _ _ => trivial

/-- A pool that was empty or read at first, and to which constants may have been added since. -/
inductive Reachable : Pool → Prop where
  | empty : Reachable .empty
  | read {cursor next : Cursor} {pool : Pool} (h : decode cursor = .ok (pool, next)) :
    Reachable pool
  | added {pool : Pool} (addition : Addition) (h : Reachable pool) :
    Reachable (addition.run.after pool)

/-- The slots of a sound pool that is small enough and has no text that is too long can be read. -/
theorem Sound.reachable_written {pool : Pool} (h : pool.Sound JavaText.IsWritable)
    (hsize : pool.slots.size ≤ maxSlots) : pool.written.Reachable :=
  .read (reads_decode h hsize [] 0)

end Pool

/-- Additions to a sound pool, made or failed, leave all that was there where it was. -/
theorem Interns.grown_after {α : Type} {texts : JavaText → Prop} {action : PoolM α}
    {meaning : Pool → α → Prop} (h : Interns texts action meaning) {pool : Pool}
    (hpool : pool.Sound texts) : pool.Grown texts (action.after pool) := by
  have hrun := h pool hpool
  cases hresult : action pool with
  | ok value next =>
    rw [hresult] at hrun
    rw [PoolM.after_of_ok hresult]
    exact hrun.1
  | error cause next =>
    rw [hresult] at hrun
    rw [PoolM.after_of_error hresult]
    exact hrun.1

theorem Pool.Reachable.sound {pool : Pool} (h : pool.Reachable) : pool.Sound fun _ => True := by
  induction h with
  | empty => exact sound_empty
  | read h => exact sound_of_decode h
  | added addition _ ih => exact (addition.interns.grown_after ih).sound

/-! ## Class files -/

namespace ClassFile

/-- A class file that begins as it must, with a pool that can come up, and with texts, lists and
attribute bodies that can be counted. -/
structure IsEncodable (file : ClassFile) : Prop where
  magic : file.magic = 0xCAFEBABE
  pool : file.pool.Reachable
  slots : file.pool.slots.size ≤ 65534
  texts : ∀ text, .entry (.utf8 text) ∈ file.pool.slots → text.encode.length ≤ 65535
  interfaces : file.interfaces.length ≤ 65535
  fields : file.fields.length ≤ 65535
  methods : file.methods.length ≤ 65535
  fieldAttributes : ∀ member ∈ file.fields, Attribute.ListWritable member.attributes
  methodAttributes : ∀ member ∈ file.methods, Attribute.ListWritable member.attributes
  attributes : Attribute.ListWritable file.attributes

theorem IsEncodable.isWritable {file : ClassFile} (h : file.IsEncodable) : file.IsWritable where
  magic := h.magic
  pool := h.pool.sound.texts h.texts
  slots := h.slots
  interfaces := h.interfaces
  fields := h.fields
  methods := h.methods
  fieldAttributes := h.fieldAttributes
  methodAttributes := h.methodAttributes
  attributes := h.attributes

/-- What is parsed from the bytes of a class file is the class file, but for the memory of what was
added to its pool. -/
theorem parse_of_isEncodable {file : ClassFile} (h : file.IsEncodable) :
    parse file.toBytes = .ok { file with pool := { slots := file.pool.slots } } :=
  parse_toBytes h.isWritable

end ClassFile

/-! ## A pool that was read and extended -/

namespace Pool

/-- A pool with a `long`, an unpaired surrogate, a string literal, a `float` that is no number, and
a class whose name is that `float`. -/
def ofOddities : Pool where
  slots := #[.entry (.long 7), .upperHalf, .entry (.utf8 ⟨[0xD800]⟩), .entry (.string 3),
    .entry (.float 0x7FC00001), .entry (.classRef 5)]

theorem decode_ofOddities : decode (.start [0, 7, 5, 0, 0, 0, 0, 0, 0, 0, 7, 1, 0, 3, 0xED, 0xA0,
    0x80, 8, 0, 3, 4, 0x7F, 0xC0, 0, 1, 7, 0, 5]) = .ok (ofOddities, ⟨[], 28⟩) :=
  rfl

/-- The pool with a class `A` that was added. -/
def ofOdditiesAndA : Pool :=
  (ofOddities.push (.utf8 (.ofString "A"))).push (.classRef 7)

theorem addClass_ofOddities : addClass "A" ofOddities = .ok 8 ofOdditiesAndA := by
  have hname : addName "A" ofOddities = .ok 7 (ofOddities.push (.utf8 (.ofString "A"))) := by
    unfold addName addText
    rw [add_eq, show ofOddities.known = ∅ from rfl, Std.HashMap.getElem?_empty]
    rfl
  rw [addClass_eq hname, add_eq, known_push, show ofOddities.known = ∅ from rfl,
    Std.HashMap.getElem?_empty]
  rfl

theorem reachable_ofOdditiesAndA : ofOdditiesAndA.Reachable := by
  have hafter : (Addition.classRef "A").run.after ofOddities = ofOdditiesAndA :=
    PoolM.after_of_ok addClass_ofOddities
  have hadded := (Reachable.read decode_ofOddities).added (.classRef "A")
  rwa [hafter] at hadded

end Pool

/-- A class file on that pool, with a field whose attribute has a name of the wrong kind. -/
def classWithOddities : ClassFile where
  magic := ClassFile.standardMagic
  version := .java8
  pool := Pool.ofOdditiesAndA
  access := ⟨0x0021⟩
  thisClass := 8
  superClass := 0
  interfaces := [6, 8]
  fields := [⟨⟨0x0003⟩, 9, 0, [⟨2, [1, 2, 3]⟩, ⟨7, []⟩]⟩]
  methods := []
  attributes := [⟨40, [0xFF]⟩]

theorem parse_classWithOddities :
    classWithOddities.IsEncodable ∧ ClassFile.parse classWithOddities.toBytes =
      .ok { classWithOddities with pool := { slots := Pool.ofOdditiesAndA.slots } } := by
  have hencodable : classWithOddities.IsEncodable :=
    { magic := rfl
      pool := Pool.reachable_ofOdditiesAndA
      slots := by decide
      texts := by
        intro text htext
        rw [← Array.mem_toList_iff, show classWithOddities.pool.slots.toList = [.entry (.long 7),
          .upperHalf, .entry (.utf8 ⟨[0xD800]⟩), .entry (.string 3), .entry (.float 0x7FC00001),
          .entry (.classRef 5), .entry (.utf8 (.ofString "A")), .entry (.classRef 7)] from rfl]
          at htext
        simp only [List.mem_cons, Slot.entry.injEq, Constant.utf8.injEq, reduceCtorEq, false_or,
          List.not_mem_nil, or_false] at htext
        rcases htext with rfl | rfl
        · decide
        · decide
      interfaces := by decide
      fields := by decide
      methods := by decide
      fieldAttributes := by
        intro member hmember
        cases List.mem_singleton.1 hmember
        exact ⟨by decide, by decide⟩
      methodAttributes := nofun
      attributes := ⟨by decide, by decide⟩ }
  exact ⟨hencodable, ClassFile.parse_of_isEncodable hencodable⟩

end ClassStub
