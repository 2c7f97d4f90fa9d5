import ClassStub.ClassFile.Description
import ClassStub.Proofs.JavaText
import ClassStub.Proofs.Outcome

/-! # Look-ups in a constant pool

What each look-up finds, in terms of the constants at the indexes involved, and the order of pools
in which a later pool has every constant of an earlier one at its old index. All look-ups that
succeed in a pool succeed, with the same result, in every later pool. -/

namespace ClassStub.Pool

variable {pool later : Pool} {index : UInt16}

/-- A pool is later than another if it holds the constants of the other at the same indexes. -/
instance : LE Pool where
  le pool later := ∀ index constant, pool.get index = .ok constant → later.get index = .ok constant

theorem le_refl (pool : Pool) : pool ≤ pool :=
  fun _ _ h => h

theorem le_trans {a b c : Pool} (hab : a ≤ b) (hbc : b ≤ c) : a ≤ c :=
  fun index constant h => hbc index constant (hab index constant h)

/-! ## Constants -/

theorem get_ok {constant : Constant} :
    pool.get index = .ok constant ↔
      index ≠ 0 ∧ pool.slots[index.toNat - 1]? = some (.entry constant) := by
  unfold get
  by_cases hindex : index = 0
  · rw [if_pos hindex]
    exact ⟨fun h => (nomatch h), fun h => absurd hindex h.1⟩
  · rw [if_neg hindex]
    constructor
    · intro h
      refine ⟨hindex, ?_⟩
      split at h
      · rename_i found hfound
        cases h
        exact hfound
      · cases h
    · rintro ⟨-, hslot⟩
      rw [hslot]

/-- What stands in front of added slots is found as before. -/
theorem le_of_prefix (h : pool.slots.toList <+: later.slots.toList) : pool ≤ later := by
  intro index constant hget
  obtain ⟨hindex, hslot⟩ := get_ok.1 hget
  obtain ⟨added, hadded⟩ := h
  refine get_ok.2 ⟨hindex, ?_⟩
  rw [← Array.getElem?_toList] at hslot ⊢
  have hbound := (List.getElem?_eq_some_iff.1 hslot).1
  rwa [← hadded, List.getElem?_append_left hbound]

theorem le_of_slots_eq (h : pool.slots = later.slots) : pool ≤ later :=
  le_of_prefix (h ▸ List.prefix_rfl)

/-- A look-up that accepts one kind of constant finds exactly the constants of that kind. -/
theorem bind_get_ok {α : Type} {find : Constant → Except PoolError α} {make : α → Constant}
    (hfind : ∀ constant value, find constant = .ok value ↔ constant = make value) {value : α} :
    pool.get index >>= find = .ok value ↔ pool.get index = .ok (make value) := by
  rw [bind_eq_ok]
  constructor
  · rintro ⟨constant, hget, h⟩
    rw [hget, (hfind constant value).1 h]
  · intro hget
    exact ⟨_, hget, (hfind _ _).2 rfl⟩

theorem getText_ok {text : JavaText} :
    pool.getText index = .ok text ↔ pool.get index = .ok (.utf8 text) :=
  bind_get_ok fun constant value => by cases constant <;> simp

theorem getInteger_ok {value : Int32} :
    pool.getInteger index = .ok value ↔ pool.get index = .ok (.integer value) :=
  bind_get_ok fun constant value => by cases constant <;> simp

theorem getLong_ok {value : Int64} :
    pool.getLong index = .ok value ↔ pool.get index = .ok (.long value) :=
  bind_get_ok fun constant value => by cases constant <;> simp

theorem getFloat_ok {bits : UInt32} :
    pool.getFloat index = .ok bits ↔ pool.get index = .ok (.float bits) :=
  bind_get_ok fun constant value => by cases constant <;> simp

theorem getDouble_ok {bits : UInt64} :
    pool.getDouble index = .ok bits ↔ pool.get index = .ok (.double bits) :=
  bind_get_ok fun constant value => by cases constant <;> simp

theorem getName_ok {name : String} :
    pool.getName index = .ok name ↔ pool.get index = .ok (.utf8 (.ofString name)) := by
  unfold getName
  rw [bind_eq_ok, ← getText_ok]
  constructor
  · rintro ⟨text, htext, h⟩
    split at h
    · rename_i found hfound
      cases h
      rw [htext, JavaText.ofString_of_toString? hfound]
    · cases h
  · intro htext
    refine ⟨_, htext, ?_⟩
    rw [JavaText.toString?_ofString]

/-- A text is a name if its surrogates are paired, and no other text is taken for a name. -/
theorem getName_of_getText {text : JavaText} (h : pool.getText index = .ok text) :
    (JavaText.IsPaired text.units → ∃ name, .ofString name = text ∧ pool.getName index = .ok name)
      ∧ (¬JavaText.IsPaired text.units →
          pool.getName index = .error (.unpairedSurrogate index)) := by
  constructor
  · intro hpaired
    obtain ⟨name, hname⟩ := JavaText.exists_toString?_iff.2 hpaired
    refine ⟨name, JavaText.ofString_of_toString? hname, ?_⟩
    rw [getName_ok, JavaText.ofString_of_toString? hname, ← getText_ok, h]
  · intro hunpaired
    have hnone : text.toString? = none := by
      rw [Option.eq_none_iff_forall_ne_some]
      exact fun name hname => hunpaired (JavaText.exists_toString?_iff.1 ⟨name, hname⟩)
    unfold getName
    refine bind_eq_error.2 (.inr ⟨text, h, ?_⟩)
    rw [hnone]

theorem getClassName_ok {name : String} :
    pool.getClassName index = .ok name ↔
      ∃ text, pool.get index = .ok (.classRef text) ∧ pool.getName text = .ok name := by
  unfold getClassName
  rw [bind_eq_ok]
  constructor
  · rintro ⟨constant, hget, h⟩
    split at h
    · exact ⟨_, hget, h⟩
    · cases h
  · rintro ⟨text, hget, h⟩
    exact ⟨_, hget, h⟩

theorem getNameAndType_ok {result : String × String} :
    pool.getNameAndType index = .ok result ↔
      ∃ name descriptor, pool.get index = .ok (.nameAndType name descriptor)
        ∧ pool.getName name = .ok result.1 ∧ pool.getName descriptor = .ok result.2 := by
  unfold getNameAndType
  rw [bind_eq_ok]
  constructor
  · rintro ⟨constant, hget, h⟩
    split at h
    · obtain ⟨first, hfirst, h⟩ := bind_eq_ok.1 h
      obtain ⟨second, hsecond, h⟩ := bind_eq_ok.1 h
      cases h
      exact ⟨_, _, hget, hfirst, hsecond⟩
    · cases h
  · rintro ⟨name, descriptor, hget, hname, hdescriptor⟩
    exact ⟨_, hget, bind_eq_ok.2 ⟨_, hname, bind_eq_ok.2 ⟨_, hdescriptor, rfl⟩⟩⟩

/-! ## Later pools -/

section Later

variable (hle : pool ≤ later)

include hle

theorem getText_mono {text : JavaText} (h : pool.getText index = .ok text) :
    later.getText index = .ok text :=
  getText_ok.2 (hle _ _ (getText_ok.1 h))

theorem getName_mono {name : String} (h : pool.getName index = .ok name) :
    later.getName index = .ok name :=
  getName_ok.2 (hle _ _ (getName_ok.1 h))

theorem getClassName_mono {name : String} (h : pool.getClassName index = .ok name) :
    later.getClassName index = .ok name := by
  obtain ⟨text, hget, hname⟩ := getClassName_ok.1 h
  exact getClassName_ok.2 ⟨text, hle _ _ hget, getName_mono hle hname⟩

theorem getOptionalName_mono {name : Option String} (h : pool.getOptionalName index = .ok name) :
    later.getOptionalName index = .ok name := by
  unfold getOptionalName at h ⊢
  by_cases hindex : index = 0
  · rwa [if_pos hindex] at h ⊢
  · rw [if_neg hindex, map_eq_ok] at h ⊢
    obtain ⟨found, hfound, hname⟩ := h
    exact ⟨found, getName_mono hle hfound, hname⟩

theorem getOptionalClassName_mono {name : Option String}
    (h : pool.getOptionalClassName index = .ok name) :
    later.getOptionalClassName index = .ok name := by
  unfold getOptionalClassName at h ⊢
  by_cases hindex : index = 0
  · rwa [if_pos hindex] at h ⊢
  · rw [if_neg hindex, map_eq_ok] at h ⊢
    obtain ⟨found, hfound, hname⟩ := h
    exact ⟨found, getClassName_mono hle hfound, hname⟩

theorem getNameAndType_mono {result : String × String}
    (h : pool.getNameAndType index = .ok result) : later.getNameAndType index = .ok result := by
  obtain ⟨name, descriptor, hget, hname, hdescriptor⟩ := getNameAndType_ok.1 h
  exact getNameAndType_ok.2
    ⟨name, descriptor, hle _ _ hget, getName_mono hle hname, getName_mono hle hdescriptor⟩

theorem getInteger_mono {value : Int32} (h : pool.getInteger index = .ok value) :
    later.getInteger index = .ok value :=
  getInteger_ok.2 (hle _ _ (getInteger_ok.1 h))

theorem getLong_mono {value : Int64} (h : pool.getLong index = .ok value) :
    later.getLong index = .ok value :=
  getLong_ok.2 (hle _ _ (getLong_ok.1 h))

theorem getFloat_mono {bits : UInt32} (h : pool.getFloat index = .ok bits) :
    later.getFloat index = .ok bits :=
  getFloat_ok.2 (hle _ _ (getFloat_ok.1 h))

theorem getDouble_mono {bits : UInt64} (h : pool.getDouble index = .ok bits) :
    later.getDouble index = .ok bits :=
  getDouble_ok.2 (hle _ _ (getDouble_ok.1 h))

theorem findConstantValue_mono {value : ConstantValue}
    (h : Statement.findConstantValue pool index = .ok value) :
    Statement.findConstantValue later index = .ok value := by
  unfold Statement.findConstantValue at h ⊢
  obtain ⟨constant, hget, h⟩ := bind_eq_ok.1 h
  refine bind_eq_ok.2 ⟨constant, hle _ _ hget, ?_⟩
  split at h
  case h_5 =>
    obtain ⟨text, htext, h⟩ := bind_eq_ok.1 h
    exact bind_eq_ok.2 ⟨text, getText_mono hle htext, h⟩
  all_goals exact h

end Later

end ClassStub.Pool
