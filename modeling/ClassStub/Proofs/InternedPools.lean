import Mathlib.Data.List.Dedup
import ClassStub.Proofs.AnnotationKeys
import ClassStub.Proofs.LinkedPools

/-! # Pools that were made by additions

A pool to which constants were added, starting without any, holds each of its constants once and
finds all of them again. So an addition returns the index of its value if that is there already, and
no other value ever gets that index. An addition fails only if the slots that it still needs are not
free. `Adds` is the judgement about additions which says so. -/

namespace ClassStub

/-- Constants are equal if their written forms are, even where the length of a text does not fit
into its 16 bits. -/
theorem Constant.toBytes_injective {constant other : Constant}
    (h : constant.toBytes = other.toBytes) : constant = other := by
  obtain ⟨htag, hpayload⟩ := List.cons.inj h
  by_cases htext : constant.tag = 1
  · obtain ⟨text, rfl⟩ : ∃ text, constant = .utf8 text := by
      cases constant <;> first | exact ⟨_, rfl⟩ | cases htext
    obtain ⟨text', rfl⟩ : ∃ text', other = .utf8 text' := by
      rw [htext] at htag
      cases other <;> first | exact ⟨_, rfl⟩ | cases htag
    have hencoded := congrArg JavaText.decode? (ofUInt16_splitsOff hpayload).2
    rw [JavaText.decode?_encode, JavaText.decode?_encode] at hencoded
    rw [Option.some.inj hencoded]
  · have hwritable : ∀ found : Constant, found.tag ≠ 1 → found.IsWritable := by
      rintro found hfound text rfl
      exact absurd rfl hfound
    have hreads := reads_decode (hwritable constant htext) 0
    have hreads' := reads_decode (hwritable other (htag ▸ htext)) 0
    exact (hreads.splitsOff hreads' (congrArg (· ++ []) h)).1

namespace Pool

/-! ## Tables of written forms -/

/-- Slots with a table of their indexes in which constants are found by their written forms. -/
structure Ledger where
  slots : Array Slot := #[]
  table : Std.HashMap Bytes UInt16 := ∅

/-- The index of a constant. It is added behind the last slot unless its written form is known. -/
def Ledger.add (constant : Constant) : EStateM PoolError Ledger UInt16 := fun ⟨slots, table⟩ =>
  match table[constant.toBytes]? with
  | some index => .ok index ⟨slots, table⟩
  | none =>
    if slots.size + constant.width > maxSlots then .error .outOfSpace ⟨slots, table⟩
    else
      let index := (slots.size + 1).toUInt16
      .ok index ⟨slots ++ slotsOf constant, table.insert constant.toBytes index⟩

/-- The slots are those of a pool, and so are the indexes of all constants. -/
structure Ledger.Records (ledger : Ledger) (pool : Pool) : Prop where
  slots : ledger.slots = pool.slots
  table : ∀ constant : Constant, ledger.table[constant.toBytes]? = pool.known[constant]?

/-- How an addition ended, and what it left. -/
def ended {σ α : Type} : EStateM.Result PoolError σ α → Except PoolError α × σ
  | .ok value state => (.ok value, state)
  | .error cause state => (.error cause, state)

/-- Add constants one after the other, whether they find space or not. -/
def addEach {σ : Type} (add : Constant → EStateM PoolError σ UInt16) :
    List Constant → σ → List (Except PoolError UInt16) × σ
  | [], state => ([], state)
  | constant :: constants, state =>
    let (result, next) := ended (add constant state)
    let (results, final) := addEach add constants next
    (result :: results, final)

theorem Ledger.records_empty : Ledger.Records {} empty where
  slots := rfl
  table constant := by rw [empty, Std.HashMap.getElem?_empty, Std.HashMap.getElem?_empty]

theorem Ledger.Records.add {ledger : Ledger} {pool : Pool} (h : ledger.Records pool)
    (constant : Constant) :
    (ended (ledger.add constant)).1 = (ended (Pool.add constant pool)).1
      ∧ (ended (ledger.add constant)).2.Records (ended (Pool.add constant pool)).2 := by
  obtain ⟨slots, known⟩ := pool
  obtain ⟨slots', table⟩ := ledger
  obtain rfl : slots' = slots := h.slots
  have hfound : table[constant.toBytes]? = known[constant]? := h.table constant
  rw [Ledger.add, Pool.add, hfound]
  cases known[constant]? with
  | some index => exact ⟨rfl, h⟩
  | none =>
    dsimp only
    by_cases hfull : slots'.size + constant.width > maxSlots
    · rw [if_pos hfull, if_pos hfull]
      exact ⟨rfl, h⟩
    · rw [if_neg hfull, if_neg hfull]
      refine ⟨rfl, rfl, fun other => ?_⟩
      change (table.insert constant.toBytes _)[other.toBytes]? = (known.insert constant _)[other]?
      rw [Std.HashMap.getElem?_insert, Std.HashMap.getElem?_insert]
      by_cases hsame : constant = other
      · rw [hsame, if_pos (beq_self_eq_true _), if_pos (beq_self_eq_true _)]
      · have hbytes : constant.toBytes ≠ other.toBytes := mt Constant.toBytes_injective hsame
        rw [if_neg (mt beq_iff_eq.1 hbytes), if_neg (mt beq_iff_eq.1 hsame)]
        exact h.table other

theorem Ledger.Records.addEach {ledger : Ledger} {pool : Pool} (h : ledger.Records pool)
    (constants : List Constant) :
    (Pool.addEach Ledger.add constants ledger).1 = (Pool.addEach Pool.add constants pool).1
      ∧ (Pool.addEach Ledger.add constants ledger).2.Records
        (Pool.addEach Pool.add constants pool).2 := by
  induction constants generalizing ledger pool with
  | nil => exact ⟨rfl, h⟩
  | cons constant constants ih =>
    obtain ⟨hresult, hnext⟩ := h.add constant
    obtain ⟨hresults, hfinal⟩ := ih hnext
    exact ⟨congrArg₂ List.cons hresult hresults, hfinal⟩

/-- It makes no difference whether constants are known as they are or by their written forms: they
get the same indexes and fill the same slots. -/
theorem addEach_ledger (constants : List Constant) :
    (addEach Ledger.add constants {}).1 = (addEach add constants empty).1
      ∧ (addEach Ledger.add constants {}).2.slots = (addEach add constants empty).2.slots :=
  (Ledger.records_empty.addEach constants).imp id Ledger.Records.slots

/-! ## Constants and their indexes -/

/-- A closed pool that remembers every constant that it holds. -/
structure Interned (pool : Pool) : Prop where
  closed : pool.Closed
  remembered : ∀ index constant, pool.get index = .ok constant →
    pool.known[constant]? = some index
  size : pool.slots.size ≤ maxSlots

theorem interned_empty : empty.Interned where
  closed := closed_empty
  remembered index constant h := by
    obtain ⟨-, hslot⟩ := get_ok.1 h
    rw [empty, Array.getElem?_empty] at hslot
    cases hslot
  size := Nat.zero_le _

variable {pool next : Pool} {constant : Constant} {index : UInt16}

theorem mem_slots_of_get (h : pool.get index = .ok constant) : .entry constant ∈ pool.slots :=
  Array.mem_of_getElem? (get_ok.1 h).2

theorem exists_get_of_mem (hsize : pool.slots.size ≤ maxSlots)
    (h : .entry constant ∈ pool.slots) : ∃ index, pool.get index = .ok constant := by
  obtain ⟨position, hbound, hslot⟩ := Array.mem_iff_getElem.1 h
  have hindex : (position + 1).toUInt16.toNat = position + 1 := by
    unfold maxSlots at hsize
    exact toNat_toUInt16 (by omega)
  refine ⟨(position + 1).toUInt16, get_ok.2 ⟨fun hzero => ?_, ?_⟩⟩
  · rw [hzero] at hindex
    cases hindex
  · rw [hindex, Nat.add_sub_cancel, Array.getElem?_eq_getElem hbound, hslot]

theorem Interned.known_iff (h : pool.Interned) :
    pool.known[constant]? = some index ↔ pool.get index = .ok constant :=
  ⟨h.closed.sound.known constant index, h.remembered index constant⟩

/-- No two slots hold the same constant. -/
theorem Interned.index_unique (h : pool.Interned) {other : UInt16}
    (hindex : pool.get index = .ok constant) (hother : pool.get other = .ok constant) :
    index = other :=
  Option.some.inj ((h.remembered _ _ hindex).symm.trans (h.remembered _ _ hother))

/-- What is found behind the slots that were there is what was added. -/
theorem get_push_cases {found : Constant} (h : (pool.push constant).get index = .ok found) :
    pool.get index = .ok found ∨ found = constant ∧ index = (pool.slots.size + 1).toUInt16 := by
  obtain ⟨hzero, hslot⟩ := get_ok.1 h
  have hpos : index.toNat ≠ 0 := fun h => hzero (UInt16.toNat_inj.1 h)
  rw [push, ← Array.getElem?_toList, Array.toList_appendList] at hslot
  by_cases hold : index.toNat - 1 < pool.slots.size
  · rw [List.getElem?_append_left hold] at hslot
    exact .inl (get_ok.2 ⟨hzero, by rwa [← Array.getElem?_toList]⟩)
  · rw [List.getElem?_append_right (Nat.le_of_not_lt hold), Array.length_toList] at hslot
    have hfirst : index.toNat - 1 - pool.slots.size = 0 ∧ found = constant := by
      unfold slotsOf at hslot
      rcases hrest : index.toNat - 1 - pool.slots.size with _ | _ | more
      · rw [hrest] at hslot
        split at hslot <;> cases hslot <;> exact ⟨rfl, rfl⟩
      · rw [hrest] at hslot
        split at hslot <;> cases hslot
      · rw [hrest] at hslot
        split at hslot <;> cases hslot
    refine .inr ⟨hfirst.2, UInt16.toNat_inj.1 ?_⟩
    have hlt := index.toNat_lt
    rw [toNat_toUInt16 (by omega)]
    omega

theorem size_push (pool : Pool) (constant : Constant) :
    (pool.push constant).slots.size = pool.slots.size + constant.width := by
  rw [push, ← Array.length_toList, Array.toList_appendList, List.length_append, length_slotsOf,
    Array.length_toList]

theorem Interned.push (h : pool.Interned) (hnew : .entry constant ∉ pool.slots)
    (hlinked : ∀ reference ∈ constant.references, pool.has reference.2 reference.1)
    (hspace : pool.slots.size + constant.width ≤ maxSlots) : (pool.push constant).Interned where
  closed := ⟨h.closed.sound.push (fun _ _ => trivial) hspace, linked_push h.closed.linked hlinked⟩
  remembered index found hfound := by
    rw [known_push]
    rcases get_push_cases hfound with hold | ⟨rfl, rfl⟩
    · have hother : constant ≠ found := by
        rintro rfl
        exact hnew (mem_slots_of_get hold)
      rw [if_neg (mt beq_iff_eq.1 hother)]
      exact h.remembered index found hold
    · rw [if_pos (beq_self_eq_true found)]
  size := by
    rw [size_push]
    exact hspace

/-! ## What an addition costs -/

/-- From `pool`, the action succeeds with `meaning` and takes `cost` slots, or `cost` slots are not
free and it fails for lack of space. Every constant stays where it was. -/
def Adds {α : Type} (pool : Pool) (action : PoolM α) (cost : Nat) (meaning : Pool → α → Prop) :
    Prop :=
  match action pool with
  | .ok value next => next.Interned ∧ pool ≤ next ∧ next.slots.size = pool.slots.size + cost
    ∧ meaning next value
  | .error cause next => next.Interned ∧ pool ≤ next ∧ cause = .outOfSpace
    ∧ maxSlots < pool.slots.size + cost

section Rules

variable {α β : Type}

theorem Adds.bind {action : PoolM α} {later : α → PoolM β} {cost cost' : Nat}
    {meaning : Pool → α → Prop} {result : Pool → β → Prop} (haction : Adds pool action cost meaning)
    (hlater : ∀ value next, next.Interned → pool ≤ next → meaning next value →
      Adds next (later value) cost' result) :
    Adds pool (action >>= later) (cost + cost') result := by
  unfold Adds at haction
  change match EStateM.bind action later pool with | .ok .. => _ | .error .. => _
  unfold EStateM.bind
  cases hrun : action pool with
  | error cause middle =>
    rw [hrun] at haction
    obtain ⟨hinterned, hle, hcause, hfull⟩ := haction
    exact ⟨hinterned, hle, hcause, by omega⟩
  | ok value middle =>
    rw [hrun] at haction
    obtain ⟨hinterned, hle, hsize, hmeaning⟩ := haction
    have hsecond := hlater value middle hinterned hle hmeaning
    unfold Adds at hsecond
    dsimp only
    cases hrun' : later value middle with
    | error cause final =>
      rw [hrun'] at hsecond
      obtain ⟨hinterned', hle', hcause, hfull⟩ := hsecond
      exact ⟨hinterned', le_trans hle hle', hcause, by omega⟩
    | ok value' final =>
      rw [hrun'] at hsecond
      obtain ⟨hinterned', hle', hsize', hresult⟩ := hsecond
      exact ⟨hinterned', le_trans hle hle', by omega, hresult⟩

theorem Adds.mono {action : PoolM α} {cost : Nat} {meaning weaker : Pool → α → Prop}
    (h : Adds pool action cost meaning)
    (hweaker : ∀ next value, pool ≤ next → meaning next value → weaker next value) :
    Adds pool action cost weaker := by
  unfold Adds at h ⊢
  split at h
  · exact ⟨h.1, h.2.1, h.2.2.1, hweaker _ _ h.2.1 h.2.2.2⟩
  · exact h

end Rules

/-- In `next`, the constant stands at the index, and all other constants stood there before. -/
structure Gains (pool : Pool) (constant : Constant) (next : Pool) (index : UInt16) : Prop where
  get : next.get index = .ok constant
  old : ∀ found other, next.get found = .ok other → other = constant ∨ pool.get found = .ok other

/-- How many slots a constant still needs. -/
def cost (pool : Pool) (constant : Constant) : Nat :=
  if .entry constant ∈ pool.slots then 0 else constant.width

theorem adds_add (h : pool.Interned)
    (hlinked : ∀ reference ∈ constant.references, pool.has reference.2 reference.1) :
    Adds pool (add constant) (pool.cost constant) (pool.Gains constant) := by
  unfold Adds
  rw [add_eq]
  cases hknown : pool.known[constant]? with
  | some index =>
    have hget := h.known_iff.1 hknown
    rw [cost, if_pos (mem_slots_of_get hget)]
    exact ⟨h, le_refl pool, rfl, hget, fun _ _ => .inr⟩
  | none =>
    have hnew : .entry constant ∉ pool.slots := by
      intro hmem
      obtain ⟨index, hget⟩ := exists_get_of_mem h.size hmem
      rw [h.known_iff.2 hget] at hknown
      cases hknown
    rw [cost, if_neg hnew]
    dsimp only
    by_cases hfull : maxSlots < pool.slots.size + constant.width
    · rw [if_pos hfull]
      exact ⟨h, le_refl pool, rfl, hfull⟩
    · rw [if_neg hfull]
      have hspace := Nat.le_of_not_lt hfull
      refine ⟨h.push hnew hlinked hspace, le_push pool constant, size_push pool constant,
        get_push hspace, fun found other hother => ?_⟩
      rcases get_push_cases hother with hold | hnew
      · exact .inr hold
      · exact .inl hnew.1

/-! ## Texts -/

/-- The texts that are not there yet, each of them once. -/
def lacking (pool : Pool) (texts : List JavaText) : List JavaText :=
  (texts.filter fun text => .entry (.utf8 text) ∉ pool.slots).eraseDups

/-- The texts stand at the indexes. -/
def HasTexts (pool : Pool) (texts : List JavaText) (indexes : List UInt16) : Prop :=
  List.Forall₂ (fun text index => pool.get index = .ok (.utf8 text)) texts indexes

theorem HasTexts.mono {texts : List JavaText} {indexes : List UInt16} (hle : pool ≤ next)
    (h : pool.HasTexts texts indexes) : next.HasTexts texts indexes :=
  List.Forall₂.imp (fun _ _ hget => hle _ _ hget) h

theorem Interned.hasTexts_unique (h : pool.Interned) {texts : List JavaText}
    {indexes others : List UInt16} (hindexes : pool.HasTexts texts indexes)
    (hothers : pool.HasTexts texts others) : indexes = others := by
  unfold HasTexts at hindexes hothers
  induction hindexes generalizing others with
  | nil =>
    cases hothers
    rfl
  | cons hindex _ ih =>
    cases hothers with
    | cons hother hothers => rw [h.index_unique hindex hother, ih hothers]

theorem Gains.mem_iff (h : pool.Gains constant next index) (hle : pool ≤ next)
    (hpool : pool.Interned) (hnext : next.Interned) {other : Constant} :
    .entry other ∈ next.slots ↔ other = constant ∨ .entry other ∈ pool.slots := by
  constructor
  · intro hmem
    obtain ⟨found, hfound⟩ := exists_get_of_mem hnext.size hmem
    exact (h.old found other hfound).imp id mem_slots_of_get
  · rintro (rfl | hmem)
    · exact mem_slots_of_get h.get
    · obtain ⟨found, hfound⟩ := exists_get_of_mem hpool.size hmem
      exact mem_slots_of_get (hle _ _ hfound)

/-- The texts other than `text` that are not there yet, each of them once. -/
def lackingBeside (pool : Pool) (text : JavaText) (texts : List JavaText) : List JavaText :=
  (texts.filter fun other => ¬(other = text ∨ .entry (.utf8 other) ∈ pool.slots)).eraseDups

theorem length_lacking_cons (pool : Pool) (text : JavaText) (texts : List JavaText) :
    (pool.lacking (text :: texts)).length =
      pool.cost (.utf8 text) + (pool.lackingBeside text texts).length := by
  unfold lacking lackingBeside cost
  by_cases hold : .entry (.utf8 text) ∈ pool.slots
  · rw [if_pos hold, List.filter_cons_of_neg (by simpa using hold), Nat.zero_add]
    congr 2
    refine List.filter_congr fun other _ => decide_eq_decide.2 (not_congr ?_)
    exact ⟨.inr, fun h => h.elim (fun h => h ▸ hold) id⟩
  · rw [if_neg hold, List.filter_cons_of_pos (by simpa using hold), List.eraseDups_cons,
      List.filter_filter, List.length_cons, Nat.add_comm]
    congr 3
    refine List.filter_congr fun other _ => ?_
    rw [decide_not, decide_not, Bool.decide_or, Bool.not_or]
    rfl

/-- Once a text was added, only the others are lacking. -/
theorem Gains.lacking {text : JavaText} (h : pool.Gains (.utf8 text) next index)
    (hle : pool ≤ next) (hpool : pool.Interned) (hnext : next.Interned) (texts : List JavaText) :
    next.lacking texts = pool.lackingBeside text texts := by
  unfold Pool.lacking lackingBeside
  simp only [h.mem_iff hle hpool hnext, Constant.utf8.injEq]

theorem adds_pure {α : Type} {value : α} {meaning : Pool → α → Prop} (h : pool.Interned)
    (hmeaning : meaning pool value) : Adds pool (pure value) 0 meaning :=
  ⟨h, le_refl pool, rfl, hmeaning⟩

/-- Adding texts takes a slot for each that was lacking, and nothing else is added. -/
theorem adds_texts (h : pool.Interned) (texts : List JavaText) :
    Adds pool (texts.mapM addText) (pool.lacking texts).length fun next indexes =>
      next.HasTexts texts indexes ∧ ∀ found constant, next.get found = .ok constant →
        (∃ text ∈ texts, constant = .utf8 text) ∨ pool.get found = .ok constant := by
  induction texts generalizing pool with
  | nil => exact adds_pure h ⟨.nil, fun _ _ => .inr⟩
  | cons text texts ih =>
    have htext : Adds pool (addText text) (pool.cost (.utf8 text)) (pool.Gains (.utf8 text)) :=
      adds_add h fun _ hreference => (nomatch hreference)
    rw [List.mapM_cons, length_lacking_cons]
    refine htext.bind fun index middle hmiddle hle hgains => ?_
    rw [← hgains.lacking hle h hmiddle texts, ← Nat.add_zero (middle.lacking texts).length]
    refine (ih hmiddle).bind fun indexes next hnext hle' hindexes => ?_
    obtain ⟨hindexes, hold⟩ := hindexes
    refine adds_pure hnext ⟨.cons (hle' _ _ hgains.get) hindexes, fun found constant hget => ?_⟩
    rcases hold found constant hget with ⟨other, hother, rfl⟩ | hget
    · exact .inl ⟨other, List.mem_cons_of_mem _ hother, rfl⟩
    · rcases hgains.old found constant hget with rfl | hget
      · exact .inl ⟨text, List.mem_cons_self, rfl⟩
      · exact .inr hget

/-- Texts that stand at indexes of texts of an earlier pool stood there already. -/
theorem HasTexts.of_le {texts : List JavaText} {indexes : List UInt16}
    (h : next.HasTexts texts indexes) (hle : pool ≤ next)
    (hhas : ∀ index ∈ indexes, pool.has Constant.isUtf8 index) : pool.HasTexts texts indexes := by
  unfold HasTexts at h ⊢
  induction h with
  | nil => exact .nil
  | @cons text index texts indexes hget _ ih =>
    obtain ⟨hfirst, hrest⟩ := List.forall_mem_cons.1 hhas
    obtain ⟨constant, hold, -⟩ := has_iff.1 hfirst
    have hsame := (hle _ _ hold).symm.trans hget
    exact .cons (hold.trans hsame) (ih hrest)

theorem HasTexts.has {texts : List JavaText} {indexes : List UInt16}
    (h : pool.HasTexts texts indexes) : ∀ index ∈ indexes, pool.has Constant.isUtf8 index := by
  intro index hindex
  obtain ⟨text, -, hget⟩ := exists_of_forall₂ h.flip hindex
  exact has_iff.2 ⟨_, hget, rfl⟩

theorem HasTexts.lacking_eq_nil {texts : List JavaText} {indexes : List UInt16}
    (h : pool.HasTexts texts indexes) : pool.lacking texts = [] := by
  unfold lacking
  rw [List.filter_eq_nil_iff.2, List.eraseDups_nil]
  intro text htext
  obtain ⟨index, -, hget⟩ := exists_of_forall₂ h htext
  simpa using mem_slots_of_get hget

/-! ## Additions -/

namespace Addition

/-- The texts that are added before the constant itself. -/
def texts : Addition → List JavaText
  | classRef content => [.ofString content]
  | nameAndType content descriptor => [.ofString content, .ofString descriptor]
  | string content => [content]
  | _ => []

/-- The constant that is added behind texts with the given indexes. -/
def make : Addition → List UInt16 → Constant
  | text content, _ => .utf8 content
  | name content, _ => .utf8 (.ofString content)
  | classRef _, indexes => .classRef (indexes.getD 0 0)
  | nameAndType _ _, indexes => .nameAndType (indexes.getD 0 0) (indexes.getD 1 0)
  | string _, indexes => .string (indexes.getD 0 0)
  | integer value, _ => .integer value
  | float bits, _ => .float bits
  | long value, _ => .long value
  | double bits, _ => .double bits

/-- The slots of the constant itself. -/
def width : Addition → Nat
  | long _ | double _ => 2
  | _ => 1

/-- What was added is found at the index: a text as a text, and as a name exactly if its surrogates
are paired. -/
def Resolves (pool : Pool) (index : UInt16) : Addition → Prop
  | text content => pool.getText index = .ok content
    ∧ (JavaText.IsPaired content.units →
        ∃ name, .ofString name = content ∧ pool.getName index = .ok name)
    ∧ (¬JavaText.IsPaired content.units → pool.getName index = .error (.unpairedSurrogate index))
  | name content => pool.getName index = .ok content
  | classRef content => pool.getClassName index = .ok content
  | nameAndType content descriptor => pool.getNameAndType index = .ok (content, descriptor)
  | string content =>
    ∃ first, pool.get index = .ok (.string first) ∧ pool.getText first = .ok content
  | integer value => pool.get index = .ok (.integer value)
  | float bits => pool.get index = .ok (.float bits)
  | long value => pool.get index = .ok (.long value)
  | double bits => pool.get index = .ok (.double bits)

variable {addition other : Addition} {indexes : List UInt16}

theorem run_eq (addition : Addition) :
    addition.run = addition.texts.mapM addText >>= fun indexes =>
      add (addition.make indexes) := by
  cases addition <;>
    simp [run, texts, make, addClass, addNameAndType, addString, addName, addText, addInteger,
      addFloat, addLong, addDouble]

theorem references_make (h : indexes.length = addition.texts.length) :
    (addition.make indexes).references = indexes.map (·, Constant.isUtf8) := by
  cases addition with
  | classRef content =>
    obtain ⟨index, rfl⟩ := List.length_eq_one_iff.1 h
    rfl
  | nameAndType content descriptor =>
    obtain ⟨first, second, rfl⟩ := List.length_eq_two.1 h
    rfl
  | string content =>
    obtain ⟨index, rfl⟩ := List.length_eq_one_iff.1 h
    rfl
  | _ =>
    obtain rfl := List.length_eq_zero_iff.1 h
    rfl

theorem width_make (addition : Addition) (indexes : List UInt16) :
    (addition.make indexes).width = addition.width := by
  cases addition <;> rfl

/-- An addition with texts of its own does not add just a text. -/
theorem make_ne_utf8 {text content : JavaText} (h : text ∈ addition.texts) :
    addition.make indexes ≠ .utf8 content := by
  cases addition with
  | classRef _ | nameAndType _ _ | string _ => exact nofun
  | _ => cases h

/-- An addition resolves where its constant stands and refers to its texts. -/
theorem resolves_iff : addition.Resolves pool index ↔
    ∃ indexes, pool.HasTexts addition.texts indexes
      ∧ pool.get index = .ok (addition.make indexes) := by
  have hnone : ∀ {constant : Constant}, pool.get index = .ok constant ↔
      ∃ indexes, pool.HasTexts [] indexes ∧ pool.get index = .ok constant := fun {constant} =>
    ⟨fun h => ⟨[], .nil, h⟩, fun ⟨_, _, h⟩ => h⟩
  cases addition with
  | text content =>
    refine Iff.trans ⟨fun h => getText_ok.1 h.1, fun h => ?_⟩ hnone
    exact ⟨getText_ok.2 h, getName_of_getText (getText_ok.2 h)⟩
  | name content => exact getName_ok.trans hnone
  | classRef content =>
    refine getClassName_ok.trans ⟨?_, ?_⟩
    · rintro ⟨first, hget, hname⟩
      exact ⟨[first], .cons (getName_ok.1 hname) .nil, hget⟩
    · rintro ⟨indexes, htexts, hget⟩
      cases htexts with
      | @cons _ first _ _ hfirst hnil =>
        cases hnil
        exact ⟨first, hget, getName_ok.2 hfirst⟩
  | nameAndType content descriptor =>
    refine getNameAndType_ok.trans ⟨?_, ?_⟩
    · rintro ⟨first, second, hget, hname, hdescriptor⟩
      exact ⟨[first, second], .cons (getName_ok.1 hname) (.cons (getName_ok.1 hdescriptor) .nil),
        hget⟩
    · rintro ⟨indexes, htexts, hget⟩
      cases htexts with
      | @cons _ first _ _ hfirst hrest =>
        cases hrest with
        | @cons _ second _ _ hsecond hnil =>
          cases hnil
          exact ⟨first, second, hget, getName_ok.2 hfirst, getName_ok.2 hsecond⟩
  | string content =>
    constructor
    · rintro ⟨first, hget, htext⟩
      exact ⟨[first], .cons (getText_ok.1 htext) .nil, hget⟩
    · rintro ⟨indexes, htexts, hget⟩
      cases htexts with
      | @cons _ first _ _ hfirst hnil =>
        cases hnil
        exact ⟨first, hget, getText_ok.2 hfirst⟩
  | _ => exact hnone

theorem Resolves.mono (h : addition.Resolves pool index) (hle : pool ≤ next) :
    addition.Resolves next index := by
  obtain ⟨indexes, htexts, hget⟩ := resolves_iff.1 h
  exact resolves_iff.2 ⟨indexes, htexts.mono hle, hle _ _ hget⟩

/-- A value has one index. -/
theorem Resolves.index_unique (hpool : pool.Interned) {index' : UInt16}
    (h : addition.Resolves pool index) (h' : addition.Resolves pool index') : index = index' := by
  obtain ⟨indexes, htexts, hget⟩ := resolves_iff.1 h
  obtain ⟨others, htexts', hget'⟩ := resolves_iff.1 h'
  cases hpool.hasTexts_unique htexts htexts'
  exact hpool.index_unique hget hget'

/-- An index has one value of each kind. -/
theorem Resolves.value_unique (hkind : addition.ctorIdx = other.ctorIdx)
    (h : addition.Resolves pool index) (h' : other.Resolves pool index) : addition = other := by
  cases addition <;> cases other <;> cases hkind
  case text.text => exact congrArg text (Except.ok.inj (h.1.symm.trans h'.1))
  case name.name => exact congrArg name (Except.ok.inj (h.symm.trans h'))
  case classRef.classRef => exact congrArg classRef (Except.ok.inj (h.symm.trans h'))
  case nameAndType.nameAndType =>
    cases Except.ok.inj (h.symm.trans h')
    rfl
  case string.string =>
    obtain ⟨first, hget, htext⟩ := h
    obtain ⟨first', hget', htext'⟩ := h'
    cases Except.ok.inj (hget.symm.trans hget')
    exact congrArg string (Except.ok.inj (htext.symm.trans htext'))
  all_goals
    cases Except.ok.inj (h.symm.trans h')
    rfl

/-- A name is found as the text that spells it, and that text as the name. -/
theorem resolves_text_iff {content : String} :
    (text (.ofString content)).Resolves pool index ↔ (name content).Resolves pool index := by
  rw [resolves_iff, resolves_iff]
  rfl

/-- An addition takes the slots of the texts that are lacking, and then those that its constant
costs. -/
theorem adds_of_cost (hpool : pool.Interned) {own : Nat}
    (hown : ∀ indexes next, next.Interned → pool ≤ next → next.HasTexts addition.texts indexes →
      (∀ found constant, next.get found = .ok constant →
        (∃ text ∈ addition.texts, constant = .utf8 text) ∨ pool.get found = .ok constant) →
      next.cost (addition.make indexes) = own) :
    Adds pool addition.run ((pool.lacking addition.texts).length + own)
      fun next index => addition.Resolves next index := by
  rw [run_eq]
  refine (adds_texts hpool addition.texts).bind fun indexes next hnext hle htexts => ?_
  obtain ⟨htexts, hold⟩ := htexts
  rw [← hown indexes next hnext hle htexts hold]
  refine (adds_add hnext ?_).mono fun later index hle' hgains => ?_
  · rw [references_make htexts.length_eq.symm, List.forall_mem_map]
    exact htexts.has
  · exact resolves_iff.2 ⟨indexes, htexts.mono hle', hgains.get⟩

/-- A value that is there costs nothing. -/
theorem adds_of_resolves (hpool : pool.Interned) (h : addition.Resolves pool index) :
    Adds pool addition.run 0 fun next index => addition.Resolves next index := by
  obtain ⟨indexes, htexts, hget⟩ := resolves_iff.1 h
  have hadds : Adds pool addition.run ((pool.lacking addition.texts).length + 0)
      fun next index => addition.Resolves next index := by
    refine adds_of_cost hpool fun others next hnext hle hothers _ => ?_
    cases hnext.hasTexts_unique hothers (htexts.mono hle)
    exact if_pos (mem_slots_of_get (hle _ _ hget))
  rwa [htexts.lacking_eq_nil] at hadds

/-- A value that is not there costs the slots of its constant and of the texts that are lacking. -/
theorem adds_of_not_resolves (hpool : pool.Interned)
    (h : ∀ index, ¬addition.Resolves pool index) :
    Adds pool addition.run ((pool.lacking addition.texts).length + addition.width)
      fun next index => addition.Resolves next index := by
  refine adds_of_cost hpool fun indexes next hnext hle htexts hold => ?_
  rw [cost, if_neg, width_make]
  intro hmem
  obtain ⟨found, hfound⟩ := exists_get_of_mem hnext.size hmem
  rcases hold found _ hfound with ⟨text, htext, hsame⟩ | hget
  · exact make_ne_utf8 htext hsame
  · -- Its references resolve in `pool`, so the texts stood there too.
    have hlinked := hpool.closed.linked.get hget
    rw [references_make htexts.length_eq.symm, List.forall_mem_map] at hlinked
    exact h found (resolves_iff.2 ⟨indexes, htexts.of_le hle hlinked, hget⟩)

end Addition

theorem Adds.ok {α : Type} {action : PoolM α} {cost : Nat} {meaning : Pool → α → Prop} {value : α}
    (h : Adds pool action cost meaning) (hrun : action pool = .ok value next) :
    next.Interned ∧ pool ≤ next ∧ next.slots.size = pool.slots.size + cost
      ∧ meaning next value := by
  unfold Adds at h
  rwa [hrun] at h

theorem Adds.error {α : Type} {action : PoolM α} {cost : Nat} {meaning : Pool → α → Prop}
    {cause : PoolError} (h : Adds pool action cost meaning)
    (hrun : action pool = .error cause next) :
    next.Interned ∧ pool ≤ next ∧ cause = .outOfSpace ∧ maxSlots < pool.slots.size + cost := by
  unfold Adds at h
  rwa [hrun] at h

/-- An action fails exactly if its slots are not free. -/
theorem Adds.fails_iff {α : Type} {action : PoolM α} {cost : Nat} {meaning : Pool → α → Prop}
    (h : Adds pool action cost meaning) :
    (∃ cause next, action pool = .error cause next) ↔ maxSlots < pool.slots.size + cost := by
  constructor
  · rintro ⟨cause, next, hrun⟩
    exact (h.error hrun).2.2.2
  · intro hfull
    cases hrun : action pool with
    | error cause next => exact ⟨cause, next, rfl⟩
    | ok value next =>
      obtain ⟨hinterned, -, hsize, -⟩ := h.ok hrun
      have := hinterned.size
      omega

theorem Adds.after {α : Type} {action : PoolM α} {cost : Nat} {meaning : Pool → α → Prop}
    (h : Adds pool action cost meaning) :
    (action.after pool).Interned ∧ pool ≤ action.after pool := by
  cases hrun : action pool with
  | ok value next =>
    rw [PoolM.after_of_ok hrun]
    exact ⟨(h.ok hrun).1, (h.ok hrun).2.1⟩
  | error cause next =>
    rw [PoolM.after_of_error hrun]
    exact ⟨(h.error hrun).1, (h.error hrun).2.1⟩

namespace Addition

variable {addition : Addition}

/-- Every addition is one of the two kinds. -/
theorem exists_adds (hpool : pool.Interned) (addition : Addition) :
    ∃ cost, Adds pool addition.run cost fun next index => addition.Resolves next index := by
  by_cases h : ∃ index, addition.Resolves pool index
  · obtain ⟨index, hindex⟩ := h
    exact ⟨0, adds_of_resolves hpool hindex⟩
  · exact ⟨_, adds_of_not_resolves hpool (not_exists.1 h)⟩

theorem fails_iff (hpool : pool.Interned) (addition : Addition) :
    (∃ cause next, addition.run pool = .error cause next) ↔
      (∀ index, ¬addition.Resolves pool index)
        ∧ maxSlots < pool.slots.size + (pool.lacking addition.texts).length + addition.width := by
  by_cases h : ∃ index, addition.Resolves pool index
  · obtain ⟨index, hindex⟩ := h
    rw [(adds_of_resolves hpool hindex).fails_iff]
    have := hpool.size
    exact ⟨fun hfull => absurd hfull (by omega), fun hnone => absurd hindex (hnone.1 index)⟩
  · have hnone := not_exists.1 h
    rw [(adds_of_not_resolves hpool hnone).fails_iff, Nat.add_assoc]
    exact ⟨fun hfull => ⟨hnone, hfull⟩, And.right⟩

end Addition

/-! ## Runs of additions -/

/-- The pool after additions, whether they succeeded or not, to the pool without constants. -/
def ofAdditions (additions : List Addition) : Pool :=
  additions.foldl (fun pool addition => addition.run.after pool) .empty

theorem ofAdditions_concat (additions : List Addition) (addition : Addition) :
    ofAdditions (additions ++ [addition]) = addition.run.after (ofAdditions additions) :=
  List.foldl_concat ..

theorem interned_ofAdditions (additions : List Addition) : (ofAdditions additions).Interned := by
  induction additions using List.reverseRecOn with
  | nil => exact interned_empty
  | append_singleton additions addition ih =>
    obtain ⟨cost, hadds⟩ := addition.exists_adds ih
    rw [ofAdditions_concat]
    exact hadds.after.1

theorem ofAdditions_le (before after : List Addition) :
    ofAdditions before ≤ ofAdditions (before ++ after) := by
  induction after using List.reverseRecOn with
  | nil => rw [List.append_nil]; exact le_refl _
  | append_singleton after addition ih =>
    obtain ⟨cost, hadds⟩ := addition.exists_adds (interned_ofAdditions (before ++ after))
    rw [← List.append_assoc, ofAdditions_concat]
    exact le_trans ih hadds.after.2

/-- What an addition returned resolves then and after all later additions. -/
theorem resolves_ofAdditions {before : List Addition} {addition : Addition} {index : UInt16}
    {next : Pool} (hrun : addition.run (ofAdditions before) = .ok index next)
    (after : List Addition) :
    addition.Resolves (ofAdditions (before ++ addition :: after)) index := by
  obtain ⟨cost, hadds⟩ := addition.exists_adds (interned_ofAdditions before)
  have hresolves := (hadds.ok hrun).2.2.2
  rw [← PoolM.after_of_ok hrun, ← ofAdditions_concat] at hresolves
  have hlater := hresolves.mono (ofAdditions_le (before ++ [addition]) after)
  rwa [List.append_assoc] at hlater

/-- Additions to the pool without constants, some of which may fail, give every value an index of
its own, at which it is found from then on. Nothing stands in the pool twice, every reference in it
resolves, and its slots can be counted. An addition fails exactly if its value is not there and the
slots that it needs are not free. -/
theorem ofAdditions_interns :
    (∀ (before : List Addition) (addition : Addition) index next,
      addition.run (ofAdditions before) = .ok index next →
      ∀ after, addition.Resolves (ofAdditions (before ++ addition :: after)) index)
    ∧ (∀ (before between : List Addition) (first second : Addition) index index' next next',
        first.run (ofAdditions before) = .ok index next →
        second.run (ofAdditions (before ++ first :: between)) = .ok index' next' →
        (first.ctorIdx = second.ctorIdx → (index = index' ↔ first = second))
        ∧ ∀ content, (first = .name content ∧ second = .text (.ofString content)
            ∨ first = .text (.ofString content) ∧ second = .name content) → index = index')
    ∧ ∀ additions,
        (∀ index index' constant constant', (ofAdditions additions).get index = .ok constant →
          (ofAdditions additions).get index' = .ok constant' →
          constant.toBytes = constant'.toBytes → index = index')
        ∧ Verification.verifyPool (ofAdditions additions) = .ok ()
        ∧ (ofAdditions additions).slots.size ≤ 65534
        ∧ (ofAdditions additions).count.toNat = (ofAdditions additions).slots.size + 1
        ∧ ∀ addition : Addition,
            (∀ cause next, addition.run (ofAdditions additions) = .error cause next →
              cause = .outOfSpace)
            ∧ ((∃ cause next, addition.run (ofAdditions additions) = .error cause next) ↔
                (∀ index, ¬addition.Resolves (ofAdditions additions) index)
                  ∧ 65534 < (ofAdditions additions).slots.size
                    + ((ofAdditions additions).lacking addition.texts).length + addition.width) := by
  refine ⟨fun _ _ _ _ hrun after => resolves_ofAdditions hrun after, ?_, fun additions => ?_⟩
  · intro before between first second index index' next next' hrun hrun'
    -- Both values are looked for after the second addition.
    have hfirst := resolves_ofAdditions hrun (between ++ [second])
    have hsecond := resolves_ofAdditions hrun' []
    rw [List.append_assoc, List.cons_append] at hsecond
    have hpool := interned_ofAdditions (before ++ first :: (between ++ [second]))
    refine ⟨fun hkind => ⟨?_, ?_⟩, ?_⟩
    · rintro rfl
      exact Addition.Resolves.value_unique hkind hfirst hsecond
    · rintro rfl
      exact Addition.Resolves.index_unique hpool hfirst hsecond
    · rintro content (⟨rfl, rfl⟩ | ⟨rfl, rfl⟩)
      · exact Addition.Resolves.index_unique hpool hfirst (Addition.resolves_text_iff.1 hsecond)
      · exact Addition.Resolves.index_unique hpool (Addition.resolves_text_iff.1 hfirst) hsecond
  · have hpool := interned_ofAdditions additions
    have hsize := hpool.size
    refine ⟨?_, ?_, hsize, ?_, fun addition => ⟨?_, addition.fails_iff hpool⟩⟩
    · intro index index' constant constant' hget hget' hbytes
      cases Constant.toBytes_injective hbytes
      exact hpool.index_unique hget hget'
    · exact (Verification.verifyPool_ok hpool.closed.sound.laidOut).2 hpool.closed.linked
    · unfold maxSlots at hsize
      exact toNat_toUInt16 (by omega)
    · intro cause next hrun
      obtain ⟨cost, hadds⟩ := addition.exists_adds hpool
      exact (hadds.error hrun).2.2.1

/-- A pool of two numbers. -/
def ofNumbers : Pool :=
  (empty.push (.integer 7)).push (.integer 8)

theorem run_integer_empty :
    (Addition.integer 7).run (ofAdditions []) = .ok 1 (empty.push (.integer 7)) := by
  change add (.integer 7) empty = _
  rw [add_eq, known_empty]
  rfl

theorem run_integer_ofAdditions :
    (Addition.integer 8).run (ofAdditions [.integer 7]) = .ok 2 ofNumbers := by
  have hfirst : ofAdditions [.integer 7] = empty.push (.integer 7) :=
    PoolM.after_of_ok run_integer_empty
  change add (.integer 8) (ofAdditions [.integer 7]) = _
  rw [hfirst, add_eq, known_push, if_neg (by decide), known_empty]
  rfl

theorem ofAdditions_interns_numbers :
    (∀ after, (Addition.integer 7).Resolves (ofAdditions (.integer 7 :: after)) 1)
    ∧ ((1 : UInt16) = 2 ↔ Addition.integer 7 = .integer 8)
    ∧ (ofAdditions [.integer 7, .integer 8]).slots.size ≤ 65534 := by
  obtain ⟨hresolves, hunique, hpool⟩ := ofAdditions_interns
  obtain ⟨hindex, -⟩ := hunique [] [] _ _ 1 2 _ _ run_integer_empty run_integer_ofAdditions
  exact ⟨hresolves [] _ 1 _ run_integer_empty, hindex rfl, (hpool _).2.2.1⟩

end Pool

end ClassStub
