import ClassStub.Proofs.JavaText
import ClassStub.Text.ModifiedUtf8

/-! # Modified UTF-8 is read back

Every text is decoded from its encoding, and no encoded text is longer than any other bytes that
decode to the same text. -/

namespace ClassStub.JavaText

theorem and_mask_byte (byte mask value : UInt8) (low width : Nat)
    (hmask : mask.toNat = (2 ^ width - 1) * 2 ^ low) :
    (byte &&& mask == value) = true ↔ byte.toNat / 2 ^ low % 2 ^ width * 2 ^ low = value.toNat := by
  rw [beq_iff_eq, ← UInt8.toNat_inj, UInt8.toNat_and, hmask, and_mask]

theorem isShort_iff {byte : UInt8} : (byte &&& 0x80 == 0) = true ↔ byte.toNat < 0x80 := by
  have hlt := byte.toNat_lt
  rw [and_mask_byte byte 0x80 0 7 1 rfl]
  change byte.toNat / 128 % 2 * 128 = 0 ↔ _
  omega

theorem isLeadOfTwo_iff {byte : UInt8} :
    (byte &&& 0xE0 == 0xC0) = true ↔ 0xC0 ≤ byte.toNat ∧ byte.toNat < 0xE0 := by
  have hlt := byte.toNat_lt
  rw [and_mask_byte byte 0xE0 0xC0 5 3 rfl]
  change byte.toNat / 32 % 8 * 32 = 0xC0 ↔ _
  omega

theorem isLeadOfThree_iff {byte : UInt8} :
    (byte &&& 0xF0 == 0xE0) = true ↔ 0xE0 ≤ byte.toNat ∧ byte.toNat < 0xF0 := by
  have hlt := byte.toNat_lt
  rw [and_mask_byte byte 0xF0 0xE0 4 4 rfl]
  change byte.toNat / 16 % 16 * 16 = 0xE0 ↔ _
  omega

theorem isContinuation_iff {byte : UInt8} :
    isContinuation byte = true ↔ 0x80 ≤ byte.toNat ∧ byte.toNat < 0xC0 := by
  have hlt := byte.toNat_lt
  rw [isContinuation, and_mask_byte byte 0xC0 0x80 6 2 rfl]
  change byte.toNat / 64 % 4 * 64 = 0x80 ↔ _
  omega

/-- Bits that do not overlap are added. -/
theorem or_eq_add (high low width : Nat) (hlow : low < 2 ^ width) (hhigh : 2 ^ width ∣ high) :
    high ||| low = high + low := by
  obtain ⟨rest, rfl⟩ := hhigh
  exact (Nat.two_pow_add_eq_or_of_lt hlow rest).symm

theorem toNat_continuationBits (byte : UInt8) :
    (continuationBits byte).toNat = byte.toNat % 64 := by
  rw [continuationBits, UInt8.toNat_toUInt16, UInt8.toNat_and]
  exact Nat.and_two_pow_sub_one_eq_mod _ 6

theorem toNat_unitOfTwo (first second : UInt8) :
    (((first &&& 0x1F).toUInt16 <<< 6) ||| continuationBits second).toNat
      = first.toNat % 32 * 64 + second.toNat % 64 := by
  have hfirst : (first &&& 0x1F).toNat = first.toNat % 32 := by
    rw [UInt8.toNat_and]
    exact Nat.and_two_pow_sub_one_eq_mod _ 5
  have hshift : (((first &&& 0x1F).toUInt16 <<< 6) : UInt16).toNat = first.toNat % 32 * 64 := by
    rw [UInt16.toNat_shiftLeft, UInt8.toNat_toUInt16, hfirst, Nat.shiftLeft_eq]
    change first.toNat % 32 * 2 ^ 6 % 2 ^ 16 = _
    omega
  rw [UInt16.toNat_or, hshift, toNat_continuationBits]
  exact or_eq_add _ _ 6 (by omega) (Nat.dvd_mul_left _ _)

theorem toNat_unitOfThree (first second third : UInt8) :
    (((first &&& 0x0F).toUInt16 <<< 12) ||| (continuationBits second <<< 6)
        ||| continuationBits third).toNat
      = first.toNat % 16 * 4096 + second.toNat % 64 * 64 + third.toNat % 64 := by
  have hfirst : (first &&& 0x0F).toNat = first.toNat % 16 := by
    rw [UInt8.toNat_and]
    exact Nat.and_two_pow_sub_one_eq_mod _ 4
  have hhigh : (((first &&& 0x0F).toUInt16 <<< 12) : UInt16).toNat = first.toNat % 16 * 4096 := by
    rw [UInt16.toNat_shiftLeft, UInt8.toNat_toUInt16, hfirst, Nat.shiftLeft_eq]
    change first.toNat % 16 * 2 ^ 12 % 2 ^ 16 = _
    omega
  have hmiddle : (continuationBits second <<< 6 : UInt16).toNat = second.toNat % 64 * 64 := by
    rw [UInt16.toNat_shiftLeft, toNat_continuationBits, Nat.shiftLeft_eq]
    change second.toNat % 64 * 2 ^ 6 % 2 ^ 16 = _
    omega
  have hlead := or_eq_add (first.toNat % 16 * 4096) (second.toNat % 64 * 64) 12
    (by omega) (Nat.dvd_mul_left _ _)
  rw [UInt16.toNat_or, UInt16.toNat_or, hhigh, hmiddle, toNat_continuationBits, hlead]
  exact or_eq_add _ _ 6 (by omega) (by omega)

/-! ## Decoding one unit -/

theorem decodeUnits_short {byte : UInt8} (hzero : byte ≠ 0) (hshort : byte.toNat < 0x80)
    (reversed : List UInt16) (rest : Bytes) :
    decodeUnits reversed (byte :: rest) = decodeUnits (byte.toUInt16 :: reversed) rest := by
  rw [decodeUnits.eq_def]
  dsimp only
  rw [if_pos (isShort_iff.2 hshort), if_neg (by rwa [beq_iff_eq])]

theorem decodeUnits_two {first second : UInt8} (hfirst : 0xC0 ≤ first.toNat ∧ first.toNat < 0xE0)
    (hsecond : isContinuation second = true) (reversed : List UInt16) (rest : Bytes) :
    decodeUnits reversed (first :: second :: rest)
      = decodeUnits ((((first &&& 0x1F).toUInt16 <<< 6) ||| continuationBits second) :: reversed)
          rest := by
  rw [decodeUnits, if_neg (by rw [isShort_iff]; omega), if_pos (isLeadOfTwo_iff.2 hfirst)]
  exact if_pos hsecond

theorem decodeUnits_three {first second third : UInt8}
    (hfirst : 0xE0 ≤ first.toNat ∧ first.toNat < 0xF0) (hsecond : isContinuation second = true)
    (hthird : isContinuation third = true) (reversed : List UInt16) (rest : Bytes) :
    decodeUnits reversed (first :: second :: third :: rest)
      = decodeUnits ((((first &&& 0x0F).toUInt16 <<< 12) ||| (continuationBits second <<< 6)
          ||| continuationBits third) :: reversed) rest := by
  rw [decodeUnits, if_neg (by rw [isShort_iff]; omega), if_neg (by rw [isLeadOfTwo_iff]; omega),
    if_pos (isLeadOfThree_iff.2 hfirst)]
  exact if_pos (by rw [hsecond, hthird]; rfl)

/-! ## Encoding one unit -/

theorem toNat_continuation (unit : UInt16) :
    ((unit &&& 0x3F).toUInt8 ||| 0x80).toNat = unit.toNat % 64 + 128 := by
  have hbits : (unit &&& 0x3F).toUInt8.toNat = unit.toNat % 64 := by
    rw [UInt16.toNat_toUInt8, UInt16.toNat_and]
    have := Nat.and_two_pow_sub_one_eq_mod unit.toNat 6
    change (unit.toNat &&& 2 ^ 6 - 1) % 2 ^ 8 = _
    omega
  rw [UInt8.toNat_or, hbits, Nat.or_comm]
  have h := or_eq_add 128 (unit.toNat % 64) 7 (by omega) (Nat.dvd_refl _)
  change 128 ||| unit.toNat % 64 = _
  omega

theorem isContinuation_continuation (unit : UInt16) :
    isContinuation ((unit &&& 0x3F).toUInt8 ||| 0x80) = true := by
  rw [isContinuation_iff, toNat_continuation]
  omega

theorem toNat_shift (unit : UInt16) (places : UInt16) (hplaces : places.toNat < 16) :
    (unit >>> places).toNat = unit.toNat / 2 ^ places.toNat := by
  rw [UInt16.toNat_shiftRight, Nat.mod_eq_of_lt hplaces, Nat.shiftRight_eq_div_pow]

theorem toNat_leadOfTwo {unit : UInt16} (h : unit.toNat < 0x800) :
    ((unit >>> 6).toUInt8 ||| 0xC0).toNat = unit.toNat / 64 + 192 := by
  have hbits : (unit >>> 6).toUInt8.toNat = unit.toNat / 64 := by
    rw [UInt16.toNat_toUInt8, toNat_shift unit 6 (by decide)]
    change unit.toNat / 64 % 256 = _
    omega
  rw [UInt8.toNat_or, hbits, Nat.or_comm]
  have h := or_eq_add 192 (unit.toNat / 64) 5 (by omega) (by decide)
  change 192 ||| unit.toNat / 64 = _
  omega

theorem toNat_leadOfThree (unit : UInt16) :
    ((unit >>> 12).toUInt8 ||| 0xE0).toNat = unit.toNat / 4096 + 224 := by
  have hlt := unit.toNat_lt
  have hbits : (unit >>> 12).toUInt8.toNat = unit.toNat / 4096 := by
    rw [UInt16.toNat_toUInt8, toNat_shift unit 12 (by decide)]
    change unit.toNat / 4096 % 256 = _
    omega
  rw [UInt8.toNat_or, hbits, Nat.or_comm]
  have h := or_eq_add 224 (unit.toNat / 4096) 4 (by omega) (by decide)
  change 224 ||| unit.toNat / 4096 = _
  omega

/-- A unit is decoded from its shortest form. -/
theorem decodeUnits_encodeUnit (unit : UInt16) (reversed : List UInt16) (rest : Bytes) :
    decodeUnits reversed (encodeUnit unit ++ rest) = decodeUnits (unit :: reversed) rest := by
  have hlt := unit.toNat_lt
  unfold encodeUnit
  by_cases hshort : (unit != 0 && unit < 0x80) = true
  · rw [if_pos hshort]
    rw [Bool.and_eq_true, bne_iff_ne, decide_eq_true_eq, UInt16.lt_iff_toNat_lt] at hshort
    have hbyte : unit.toUInt8.toNat = unit.toNat := by
      have := hshort.2
      change unit.toNat < 128 at this
      rw [UInt16.toNat_toUInt8]
      omega
    have hunit : unit.toUInt8.toUInt16 = unit := by
      rw [← UInt16.toNat_inj, UInt8.toNat_toUInt16, hbyte]
    have hzero : unit.toUInt8 ≠ 0 := by
      intro h
      apply hshort.1
      rw [← hunit, h]
      rfl
    rw [List.singleton_append, decodeUnits_short hzero (hbyte ▸ hshort.2), hunit]
  · rw [if_neg hshort]
    by_cases htwo : unit < 0x800
    · rw [if_pos htwo]
      have htwo : unit.toNat < 0x800 := htwo
      have hlead := toNat_leadOfTwo htwo
      rw [List.cons_append, List.singleton_append,
        decodeUnits_two (by omega) (isContinuation_continuation unit)]
      congr 2
      rw [← UInt16.toNat_inj, toNat_unitOfTwo, hlead, toNat_continuation]
      omega
    · rw [if_neg htwo]
      have hmiddle := toNat_continuation (unit >>> 6)
      have hlead := toNat_leadOfThree unit
      rw [toNat_shift unit 6 (by decide)] at hmiddle
      change _ = unit.toNat / 64 % 64 + 128 at hmiddle
      rw [List.cons_append, List.cons_append, List.singleton_append,
        decodeUnits_three (by omega) (isContinuation_continuation _)
          (isContinuation_continuation unit)]
      congr 2
      rw [← UInt16.toNat_inj, toNat_unitOfThree, hlead, hmiddle, toNat_continuation]
      omega

theorem decodeUnits_flatMap_encodeUnit (units reversed : List UInt16) :
    decodeUnits reversed (units.flatMap encodeUnit) = some (reversed.reverse ++ units) := by
  induction units generalizing reversed with
  | nil => rw [List.flatMap_nil, decodeUnits, List.append_nil]
  | cons unit units ih =>
    rw [List.flatMap_cons, decodeUnits_encodeUnit, ih, List.reverse_cons, List.append_assoc,
      List.singleton_append]

/-- A text is decoded from its encoding. -/
theorem decode?_encode (text : JavaText) : decode? text.encode = some text := by
  rw [decode?, encode, decodeUnits_flatMap_encodeUnit]
  rfl

/-! ## Lengths -/

theorem length_encodeUnit_le (unit : UInt16) : (encodeUnit unit).length ≤ 3 := by
  unfold encodeUnit
  split
  · simp
  · split <;> simp

theorem length_encodeUnit_pos (unit : UInt16) : 1 ≤ (encodeUnit unit).length := by
  unfold encodeUnit
  split
  · simp
  · split <;> simp

theorem length_encodeUnit_short (unit : UInt16) (hzero : unit ≠ 0) (h : unit.toNat < 0x80) :
    (encodeUnit unit).length = 1 := by
  have hshort : (unit != 0 && unit < 0x80) = true := by
    rw [Bool.and_eq_true, bne_iff_ne, decide_eq_true_eq]
    exact ⟨hzero, h⟩
  rw [encodeUnit, if_pos hshort]
  rfl

theorem length_encodeUnit_le_two (unit : UInt16) (h : unit.toNat < 0x800) :
    (encodeUnit unit).length ≤ 2 := by
  have htwo : unit < 0x800 := h
  unfold encodeUnit
  rw [if_pos htwo]
  split <;> simp

/-- Each unit was decoded from at least as many bytes as its shortest form has. -/
theorem length_decodeUnits {reversed units : List UInt16} {bytes : Bytes}
    (h : decodeUnits reversed bytes = some units) :
    (units.flatMap encodeUnit).length
      ≤ (reversed.reverse.flatMap encodeUnit).length + bytes.length := by
  fun_induction decodeUnits reversed bytes with
  | case1 reversed =>
    cases h
    exact Nat.le_add_right _ _
  | case2 | case5 | case6 | case8 | case9 | case10 => cases h
  | case3 reversed first rest hshort hzero ih =>
    have hunit := length_encodeUnit_short first.toUInt16 (by
      intro h0
      apply hzero
      rw [beq_iff_eq, ← UInt8.toNat_inj, ← UInt8.toNat_toUInt16, h0]
      rfl) (by rw [UInt8.toNat_toUInt16]; exact isShort_iff.1 hshort)
    have hrest := ih h
    simp only [List.reverse_cons, List.flatMap_append, List.flatMap_singleton, List.length_append,
      List.length_cons] at *
    omega
  | case4 reversed first hshort htwo second rest hsecond unit ih =>
    have hunit := length_encodeUnit_le_two unit (by
      rw [toNat_unitOfTwo]
      omega)
    have hrest := ih h
    simp only [List.reverse_cons, List.flatMap_append, List.flatMap_singleton, List.length_append,
      List.length_cons] at *
    omega
  | case7 reversed first hshort htwo hthree second third rest hcontinued unit ih =>
    have hunit := length_encodeUnit_le unit
    have hrest := ih h
    simp only [List.reverse_cons, List.flatMap_append, List.flatMap_singleton, List.length_append,
      List.length_cons] at *
    omega

/-- An encoding is no longer than any other bytes that decode to the same text. -/
theorem length_encode_le {bytes : Bytes} {text : JavaText} (h : decode? bytes = some text) :
    text.encode.length ≤ bytes.length := by
  obtain ⟨units, hunits, rfl⟩ := Option.map_eq_some_iff.1 h
  simpa [encode] using length_decodeUnits hunits

theorem length_units_le_encode (text : JavaText) : text.units.length ≤ text.encode.length := by
  unfold encode
  induction text.units with
  | nil => exact Nat.le_refl _
  | cons unit units ih =>
    have := length_encodeUnit_pos unit
    rw [List.flatMap_cons, List.length_append, List.length_cons]
    omega

end ClassStub.JavaText
