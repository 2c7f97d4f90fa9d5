import Mathlib.Data.List.Basic
import ClassStub.Proofs.ModifiedUtf8

/-! # The forms of a unit

Encoded text is a row of forms, of one, two or three bytes each, that stand for one unit each. Many
units have several forms, of which only the shortest is written, so bytes are what is written for
the text that they decode to exactly when they consist of shortest forms. -/

namespace ClassStub

/-- Pieces that are no longer than others one by one are so together, and as long only if each piece
is as long as the other. -/
theorem length_flatMap_le {α β : Type} {first second : α → List β} {items : List α}
    (h : ∀ item ∈ items, (first item).length ≤ (second item).length) :
    (items.flatMap first).length ≤ (items.flatMap second).length
      ∧ ((items.flatMap first).length = (items.flatMap second).length →
          ∀ item ∈ items, (first item).length = (second item).length) := by
  induction items with
  | nil => exact ⟨Nat.le_refl 0, fun _ => nofun⟩
  | cons item items ih =>
    obtain ⟨hitem, hitems⟩ := List.forall_mem_cons.1 h
    obtain ⟨hle, hsame⟩ := ih hitems
    simp only [List.flatMap_cons, List.length_append]
    refine ⟨Nat.add_le_add hitem hle, fun hlength => List.forall_mem_cons.2 ⟨by omega, ?_⟩⟩
    exact hsame (by omega)

/-- Bytes that stand for one unit. -/
inductive UnitForm where
  | one (first : UInt8)
  | two (first second : UInt8)
  | three (first second third : UInt8)

namespace UnitForm

/-- The bytes of a form. -/
def bytes : UnitForm → Bytes
  | one first => [first]
  | two first second => [first, second]
  | three first second third => [first, second, third]

/-- The bits of the bytes that do not belong to the unit are those of the form, and the form is no
zero byte. -/
def IsMarked : UnitForm → Prop
  | one first => 0x01 ≤ first.toNat ∧ first.toNat ≤ 0x7F
  | two first second =>
    (0xC0 ≤ first.toNat ∧ first.toNat ≤ 0xDF) ∧ 0x80 ≤ second.toNat ∧ second.toNat ≤ 0xBF
  | three first second third =>
    (0xE0 ≤ first.toNat ∧ first.toNat ≤ 0xEF) ∧ (0x80 ≤ second.toNat ∧ second.toNat ≤ 0xBF)
      ∧ 0x80 ≤ third.toNat ∧ third.toNat ≤ 0xBF

/-- The number of the unit. -/
def value : UnitForm → Nat
  | one first => first.toNat
  | two first second => first.toNat % 32 * 64 + second.toNat % 64
  | three first second third =>
    first.toNat % 16 * 4096 + second.toNat % 64 * 64 + third.toNat % 64

/-- The unit that the form stands for. -/
def unit (form : UnitForm) : UInt16 :=
  form.value.toUInt16

/-- How many bytes are needed for a unit. -/
def needed (unit : UInt16) : Nat :=
  if 0x01 ≤ unit.toNat ∧ unit.toNat ≤ 0x7F then 1 else if unit.toNat ≤ 0x7FF then 2 else 3

/-- The form has no more bytes than its unit needs. -/
def IsShortest (form : UnitForm) : Prop :=
  form.bytes.length = needed form.unit

variable {form other : UnitForm}

theorem toNat_unit (form : UnitForm) : form.unit.toNat = form.value := by
  have hvalue : form.value < 65536 := by
    cases form with
    | one first =>
      have := first.toNat_lt
      simp only [value]
      omega
    | two first second =>
      simp only [value]
      omega
    | three first second third =>
      simp only [value]
      omega
  rw [unit, Nat.toUInt16_eq, UInt16.toNat_ofNat']
  exact Nat.mod_eq_of_lt hvalue

/-- No form is shorter than what its unit needs. -/
theorem needed_unit_le (h : form.IsMarked) : needed form.unit ≤ form.bytes.length := by
  have hunit := form.toNat_unit
  unfold needed
  cases form with
  | one first =>
    simp only [IsMarked, value] at h hunit
    rw [if_pos (by omega)]
    exact Nat.le_refl 1
  | two first second =>
    simp only [value] at hunit
    split
    · exact Nat.le_succ 1
    · rw [if_pos (by omega)]
      exact Nat.le_refl 2
  | three first second third =>
    split
    · exact Nat.le_add_right 1 2
    · split
      · exact Nat.le_succ 2
      · exact Nat.le_refl 3

/-- A form is determined by its unit and the number of its bytes. -/
theorem eq_of_unit_eq (h : form.IsMarked) (hother : other.IsMarked)
    (hlength : form.bytes.length = other.bytes.length) (hunit : form.unit = other.unit) :
    form = other := by
  have hvalue : form.value = other.value := by
    rw [← toNat_unit, ← toNat_unit, hunit]
  cases form <;> cases other <;> cases hlength
  all_goals
    simp only [IsMarked, value] at h hother hvalue
    simp only [one.injEq, two.injEq, three.injEq, ← UInt8.toNat_inj]
    omega

end UnitForm

namespace JavaText

open UnitForm (needed)

/-! ## Decoding forms -/

theorem decodeUnits_form {form : UnitForm} (h : form.IsMarked) (reversed : List UInt16)
    (rest : Bytes) :
    decodeUnits reversed (form.bytes ++ rest) = decodeUnits (form.unit :: reversed) rest := by
  have hunit := form.toNat_unit
  cases form with
  | one first =>
    have hzero : first ≠ 0 := by
      rintro rfl
      exact absurd h.1 (by decide)
    have hfirst : first.toUInt16 = (UnitForm.one first).unit := by
      rw [← UInt16.toNat_inj, hunit, UInt8.toNat_toUInt16, UnitForm.value]
    rw [← hfirst]
    exact decodeUnits_short hzero (Nat.lt_succ_of_le h.2) reversed rest
  | two first second =>
    obtain ⟨hfirst, hsecond⟩ := h
    have hdecode := decodeUnits_two ⟨hfirst.1, Nat.lt_succ_of_le hfirst.2⟩
      (isContinuation_iff.2 ⟨hsecond.1, Nat.lt_succ_of_le hsecond.2⟩) reversed rest
    rwa [UInt16.toNat_inj.1 ((toNat_unitOfTwo first second).trans hunit.symm)] at hdecode
  | three first second third =>
    obtain ⟨hfirst, hsecond, hthird⟩ := h
    have hdecode := decodeUnits_three ⟨hfirst.1, Nat.lt_succ_of_le hfirst.2⟩
      (isContinuation_iff.2 ⟨hsecond.1, Nat.lt_succ_of_le hsecond.2⟩)
      (isContinuation_iff.2 ⟨hthird.1, Nat.lt_succ_of_le hthird.2⟩) reversed rest
    rwa [UInt16.toNat_inj.1 ((toNat_unitOfThree first second third).trans hunit.symm)] at hdecode

theorem decodeUnits_forms {forms : List UnitForm} (h : ∀ form ∈ forms, form.IsMarked)
    (reversed : List UInt16) :
    decodeUnits reversed (forms.flatMap UnitForm.bytes) =
      some (reversed.reverse ++ forms.map UnitForm.unit) := by
  induction forms generalizing reversed with
  | nil => rw [List.flatMap_nil, decodeUnits, List.map_nil, List.append_nil]
  | cons form forms ih =>
    obtain ⟨hform, hforms⟩ := List.forall_mem_cons.1 h
    rw [List.flatMap_cons, decodeUnits_form hform, ih hforms, List.reverse_cons, List.append_assoc,
      List.singleton_append, List.map_cons]

/-- Whatever is decoded consists of forms. -/
theorem exists_forms {reversed units : List UInt16} {bytes : Bytes}
    (h : decodeUnits reversed bytes = some units) :
    ∃ forms : List UnitForm, (∀ form ∈ forms, form.IsMarked) ∧
      bytes = forms.flatMap UnitForm.bytes := by
  fun_induction decodeUnits reversed bytes with
  | case1 => exact ⟨[], List.forall_mem_nil _, rfl⟩
  | case2 | case5 | case6 | case8 | case9 | case10 => cases h
  | case3 reversed first rest hshort hzero ih =>
    obtain ⟨forms, hforms, rfl⟩ := ih h
    have hpos : first.toNat ≠ 0 := fun h0 => hzero (beq_iff_eq.2 (UInt8.toNat_inj.1 h0))
    have hfirst := isShort_iff.1 hshort
    refine ⟨.one first :: forms, List.forall_mem_cons.2 ⟨?_, hforms⟩, rfl⟩
    exact ⟨Nat.one_le_iff_ne_zero.2 hpos, Nat.le_of_lt_succ hfirst⟩
  | case4 reversed first hshort htwo second rest hsecond unit ih =>
    obtain ⟨forms, hforms, rfl⟩ := ih h
    have hfirst := isLeadOfTwo_iff.1 htwo
    have hsecond := isContinuation_iff.1 hsecond
    refine ⟨.two first second :: forms, List.forall_mem_cons.2 ⟨?_, hforms⟩, rfl⟩
    exact ⟨⟨hfirst.1, Nat.le_of_lt_succ hfirst.2⟩, hsecond.1, Nat.le_of_lt_succ hsecond.2⟩
  | case7 reversed first hshort htwo hthree second third rest hcontinued unit ih =>
    obtain ⟨forms, hforms, rfl⟩ := ih h
    rw [Bool.and_eq_true] at hcontinued
    have hfirst := isLeadOfThree_iff.1 hthree
    have hsecond := isContinuation_iff.1 hcontinued.1
    have hthird := isContinuation_iff.1 hcontinued.2
    refine ⟨.three first second third :: forms, List.forall_mem_cons.2 ⟨?_, hforms⟩, rfl⟩
    exact ⟨⟨hfirst.1, Nat.le_of_lt_succ hfirst.2⟩, ⟨hsecond.1, Nat.le_of_lt_succ hsecond.2⟩,
      hthird.1, Nat.le_of_lt_succ hthird.2⟩

/-- Bytes decode to a text when they consist of forms of its units. -/
theorem decode?_eq_some {bytes : Bytes} {text : JavaText} :
    decode? bytes = some text ↔ ∃ forms : List UnitForm, (∀ form ∈ forms, form.IsMarked)
      ∧ bytes = forms.flatMap UnitForm.bytes ∧ text.units = forms.map UnitForm.unit := by
  unfold decode?
  rw [Option.map_eq_some_iff]
  constructor
  · rintro ⟨units, hunits, rfl⟩
    obtain ⟨forms, hforms, rfl⟩ := exists_forms hunits
    rw [decodeUnits_forms hforms] at hunits
    exact ⟨forms, hforms, rfl, (Option.some.inj hunits).symm⟩
  · rintro ⟨forms, hforms, rfl, hunits⟩
    refine ⟨text.units, ?_, rfl⟩
    rw [decodeUnits_forms hforms, hunits]
    rfl

/-! ## Shortest forms -/

theorem length_encodeUnit (unit : UInt16) : (encodeUnit unit).length = needed unit := by
  have hshort : (unit != 0 && unit < 0x80) = true ↔ 0x01 ≤ unit.toNat ∧ unit.toNat ≤ 0x7F := by
    rw [Bool.and_eq_true, bne_iff_ne, decide_eq_true_eq, UInt16.lt_iff_toNat_lt, ne_eq,
      ← UInt16.toNat_inj]
    change ¬unit.toNat = 0 ∧ unit.toNat < 128 ↔ _
    omega
  have htwo : unit < 0x800 ↔ unit.toNat ≤ 0x7FF := by
    rw [UInt16.lt_iff_toNat_lt]
    exact Nat.lt_succ_iff
  unfold encodeUnit needed
  simp only [hshort, htwo]
  split
  · rfl
  · split
    · rfl
    · rfl

theorem exists_form_encodeUnit (unit : UInt16) :
    ∃ form : UnitForm, form.IsMarked ∧ form.bytes = encodeUnit unit ∧ form.unit = unit := by
  have hdecode := decode?_encode ⟨[unit]⟩
  obtain ⟨forms, hforms, hbytes, hunits⟩ := decode?_eq_some.1 hdecode
  obtain ⟨form, rfl, hform⟩ := List.map_eq_singleton_iff.1 hunits.symm
  rw [encode, List.flatMap_singleton, List.flatMap_singleton] at hbytes
  exact ⟨form, hforms form List.mem_cons_self, hbytes.symm, hform⟩

/-- The shortest form of a unit is the one that is written. -/
theorem encodeUnit_unit {form : UnitForm} (h : form.IsMarked) :
    encodeUnit form.unit = form.bytes ↔ form.IsShortest := by
  constructor
  · intro hbytes
    rw [UnitForm.IsShortest, ← hbytes, length_encodeUnit]
  · intro hshortest
    obtain ⟨written, hwritten, hbytes, hunit⟩ := exists_form_encodeUnit form.unit
    have hlength : written.bytes.length = form.bytes.length := by
      rw [hbytes, length_encodeUnit, hshortest]
    rw [← hbytes, UnitForm.eq_of_unit_eq hwritten h hlength hunit]

/-- Bytes that consist of shortest forms. -/
def IsShortest (bytes : Bytes) : Prop :=
  ∃ forms : List UnitForm, (∀ form ∈ forms, form.IsMarked ∧ form.IsShortest)
    ∧ bytes = forms.flatMap UnitForm.bytes

variable {payload : Bytes} {text : JavaText}

theorem isShortest_of_length (h : decode? payload = some text)
    (hlength : text.encode.length = payload.length) : IsShortest payload := by
  obtain ⟨forms, hforms, rfl, hunits⟩ := decode?_eq_some.1 h
  have hle : ∀ form ∈ forms, (encodeUnit form.unit).length ≤ form.bytes.length := by
    intro form hform
    rw [length_encodeUnit]
    exact UnitForm.needed_unit_le (hforms form hform)
  rw [encode, hunits, List.flatMap_map] at hlength
  refine ⟨forms, fun form hform => ⟨hforms form hform, ?_⟩, rfl⟩
  rw [UnitForm.IsShortest, ← length_encodeUnit]
  exact ((length_flatMap_le hle).2 hlength form hform).symm

/-- A text is written as it was read if it was read from shortest forms. -/
theorem encode_eq_iff (h : decode? payload = some text) :
    text.encode = payload ↔ IsShortest payload := by
  refine ⟨fun hpayload => isShortest_of_length h (congrArg List.length hpayload), ?_⟩
  rintro ⟨forms, hforms, rfl⟩
  have hunits := decodeUnits_forms (fun form hform => (hforms form hform).1) []
  obtain ⟨units, hdecode, rfl⟩ := Option.map_eq_some_iff.1 h
  rw [hdecode] at hunits
  cases hunits
  rw [encode, List.reverse_nil, List.nil_append, List.flatMap_map]
  exact List.flatMap_congr fun form hform =>
    (encodeUnit_unit (hforms form hform).1).2 (hforms form hform).2

end JavaText

end ClassStub
