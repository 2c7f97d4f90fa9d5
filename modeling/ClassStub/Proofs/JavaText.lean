import ClassStub.Text
import Mathlib.Data.Nat.Bitwise

/-! # Java text and strings

A text is put together again from its pieces, so the texts that spell strings are those without
unpaired surrogates, and each of them spells one string. -/

namespace ClassStub

/-- The part of a number that a mask of `width` bits above `low` others keeps. -/
theorem and_mask (number low width : Nat) :
    number &&& (2 ^ width - 1) * 2 ^ low = number / 2 ^ low % 2 ^ width * 2 ^ low := by
  apply Nat.eq_of_testBit_eq
  intro position
  rw [Nat.testBit_and, Nat.testBit_mul_two_pow, Nat.testBit_mul_two_pow,
    Nat.testBit_two_pow_sub_one, Nat.testBit_mod_two_pow, Nat.testBit_div_two_pow]
  by_cases h : low ≤ position
  · rw [Nat.sub_add_cancel h, decide_eq_true h, Bool.true_and, Bool.and_comm]
    simp
  · simp [h]

/-- The units of a piece. -/
def TextPiece.units : TextPiece → List UInt16
  | .scalar char => JavaText.unitsOfChar char
  | .unpaired unit => [unit]

namespace JavaText

theorem isHighSurrogate_iff {unit : UInt16} :
    isHighSurrogate unit = true ↔ 0xD800 ≤ unit.toNat ∧ unit.toNat < 0xDC00 := by
  have h := and_mask unit.toNat 10 6
  have hlt := unit.toNat_lt
  rw [isHighSurrogate, beq_iff_eq, ← UInt16.toNat_inj, UInt16.toNat_and]
  change unit.toNat &&& (2 ^ 6 - 1) * 2 ^ 10 = 0xD800 ↔ _
  omega

theorem isLowSurrogate_iff {unit : UInt16} :
    isLowSurrogate unit = true ↔ 0xDC00 ≤ unit.toNat ∧ unit.toNat < 0xE000 := by
  have h := and_mask unit.toNat 10 6
  have hlt := unit.toNat_lt
  rw [isLowSurrogate, beq_iff_eq, ← UInt16.toNat_inj, UInt16.toNat_and]
  change unit.toNat &&& (2 ^ 6 - 1) * 2 ^ 10 = 0xDC00 ↔ _
  omega

theorem not_isHighSurrogate_of_low {unit : UInt16} (h : isLowSurrogate unit = true) :
    isHighSurrogate unit ≠ true := by
  rw [isLowSurrogate_iff] at h
  rw [ne_eq, isHighSurrogate_iff]
  omega

theorem consUnit_plain {unit : UInt16} (hhigh : isHighSurrogate unit ≠ true)
    (hlow : isLowSurrogate unit ≠ true) (rest : List TextPiece) :
    consUnit unit rest = .scalar (Char.ofNat unit.toNat) :: rest := by
  unfold consUnit
  rw [if_neg hhigh, if_neg hlow]

theorem consUnit_low {unit : UInt16} (h : isLowSurrogate unit = true) (rest : List TextPiece) :
    consUnit unit rest = .unpaired unit :: rest := by
  unfold consUnit
  rw [if_neg (not_isHighSurrogate_of_low h), if_pos h]

theorem consUnit_pair {high low : UInt16} (hhigh : isHighSurrogate high = true)
    (hlow : isLowSurrogate low = true) (rest : List TextPiece) :
    consUnit high (.unpaired low :: rest) = .scalar (pairScalar high low) :: rest := by
  unfold consUnit
  rw [if_pos hhigh]
  exact if_pos hlow

theorem toNat_ofNat_char {number : Nat} (h : number.isValidChar) :
    (Char.ofNat number).toNat = number := by
  rw [Char.ofNat, dif_pos h]
  rfl

theorem toNat_pairScalar {high low : UInt16} (hhigh : isHighSurrogate high = true)
    (hlow : isLowSurrogate low = true) :
    (pairScalar high low).toNat =
      0x10000 + (high.toNat - 0xD800) * 0x400 + (low.toNat - 0xDC00) := by
  have hhigh := isHighSurrogate_iff.1 hhigh
  have hlow := isLowSurrogate_iff.1 hlow
  exact toNat_ofNat_char (.inr (by omega))

theorem unitsOfChar_pairScalar {high low : UInt16} (hhigh : isHighSurrogate high = true)
    (hlow : isLowSurrogate low = true) : unitsOfChar (pairScalar high low) = [high, low] := by
  have hscalar := toNat_pairScalar hhigh hlow
  have hhigh := isHighSurrogate_iff.1 hhigh
  have hlow := isLowSurrogate_iff.1 hlow
  have hhighUnit : (0xD800 + ((pairScalar high low).toNat - 0x10000) / 0x400).toUInt16 = high := by
    apply UInt16.toNat_inj.1
    rw [Nat.toUInt16_eq, UInt16.toNat_ofNat']
    omega
  have hlowUnit : (0xDC00 + ((pairScalar high low).toNat - 0x10000) % 0x400).toUInt16 = low := by
    apply UInt16.toNat_inj.1
    rw [Nat.toUInt16_eq, UInt16.toNat_ofNat']
    omega
  unfold unitsOfChar
  rw [if_neg (by omega)]
  dsimp only
  rw [hhighUnit, hlowUnit]

theorem unitsOfChar_ofNat {unit : UInt16} (hhigh : isHighSurrogate unit ≠ true)
    (hlow : isLowSurrogate unit ≠ true) : unitsOfChar (Char.ofNat unit.toNat) = [unit] := by
  rw [ne_eq, isHighSurrogate_iff] at hhigh
  rw [ne_eq, isLowSurrogate_iff] at hlow
  have hlt := unit.toNat_lt
  have hvalid : unit.toNat.isValidChar := by
    unfold Nat.isValidChar
    omega
  unfold unitsOfChar
  rw [toNat_ofNat_char hvalid, if_pos hlt, Nat.toUInt16_eq, UInt16.ofNat_toNat]

theorem units_consUnit (unit : UInt16) (rest : List TextPiece) :
    (consUnit unit rest).flatMap TextPiece.units = unit :: rest.flatMap TextPiece.units := by
  unfold consUnit
  by_cases hhigh : isHighSurrogate unit = true
  · rw [if_pos hhigh]
    split
    · rename_i low more
      by_cases hlow : isLowSurrogate low = true
      · rw [if_pos hlow, List.flatMap_cons, TextPiece.units, unitsOfChar_pairScalar hhigh hlow]
        rfl
      · rw [if_neg hlow]
        rfl
    · rfl
  · by_cases hlow : isLowSurrogate unit = true
    · rw [if_neg hhigh, if_pos hlow]
      rfl
    · rw [if_neg hhigh, if_neg hlow, List.flatMap_cons, TextPiece.units,
        unitsOfChar_ofNat hhigh hlow]
      rfl

/-- The pieces of a text spell it. -/
@[simp]
theorem units_pieces (text : JavaText) : text.pieces.flatMap TextPiece.units = text.units := by
  unfold pieces
  induction text.units with
  | nil => rfl
  | cons unit units ih => rw [List.foldr_cons, units_consUnit, ih]

theorem consUnit_ofChar {char : Char} (hsmall : char.toNat < 0x10000) (rest : List TextPiece) :
    consUnit char.toNat.toUInt16 rest = .scalar char :: rest := by
  have hvalid := char.valid
  change char.toNat.isValidChar at hvalid
  unfold Nat.isValidChar at hvalid
  have hunit : char.toNat.toUInt16.toNat = char.toNat := UInt16.toNat_ofNat_of_lt' hsmall
  have hhigh : isHighSurrogate char.toNat.toUInt16 ≠ true := by
    rw [ne_eq, isHighSurrogate_iff, hunit]
    omega
  have hlow : isLowSurrogate char.toNat.toUInt16 ≠ true := by
    rw [ne_eq, isLowSurrogate_iff, hunit]
    omega
  rw [consUnit_plain hhigh hlow, hunit, Char.ofNat_toNat]

theorem consUnit_pairOfChar {char : Char} (hlarge : ¬char.toNat < 0x10000)
    (rest : List TextPiece) :
    consUnit (0xD800 + (char.toNat - 0x10000) / 0x400).toUInt16
      (consUnit (0xDC00 + (char.toNat - 0x10000) % 0x400).toUInt16 rest) =
        .scalar char :: rest := by
  have hvalid := char.valid
  change char.toNat.isValidChar at hvalid
  unfold Nat.isValidChar at hvalid
  have hhighUnit : (0xD800 + (char.toNat - 0x10000) / 0x400).toUInt16.toNat = _ :=
    UInt16.toNat_ofNat_of_lt' (by change _ < 65536; omega)
  have hlowUnit : (0xDC00 + (char.toNat - 0x10000) % 0x400).toUInt16.toNat = _ :=
    UInt16.toNat_ofNat_of_lt' (by change _ < 65536; omega)
  have hhigh : isHighSurrogate (0xD800 + (char.toNat - 0x10000) / 0x400).toUInt16 = true := by
    rw [isHighSurrogate_iff, hhighUnit]
    omega
  have hlow : isLowSurrogate (0xDC00 + (char.toNat - 0x10000) % 0x400).toUInt16 = true := by
    rw [isLowSurrogate_iff, hlowUnit]
    omega
  have hpair := toNat_pairScalar hhigh hlow
  rw [hhighUnit, hlowUnit] at hpair
  have hchar : pairScalar (0xD800 + (char.toNat - 0x10000) / 0x400).toUInt16
      (0xDC00 + (char.toNat - 0x10000) % 0x400).toUInt16 = char := by
    apply Char.toNat_inj.1
    omega
  rw [consUnit_low hlow, consUnit_pair hhigh hlow, hchar]

/-- The units of a character are joined to the character. -/
theorem foldr_consUnit_unitsOfChar (char : Char) (rest : List TextPiece) :
    (unitsOfChar char).foldr consUnit rest = .scalar char :: rest := by
  unfold unitsOfChar
  by_cases hsmall : char.toNat < 0x10000
  · rw [if_pos hsmall, List.foldr_cons, List.foldr_nil, consUnit_ofChar hsmall]
  · rw [if_neg hsmall, List.foldr_cons, List.foldr_cons, List.foldr_nil,
      consUnit_pairOfChar hsmall]

@[simp] theorem pieces_ofString (value : String) :
    (ofString value).pieces = value.toList.map TextPiece.scalar := by
  unfold pieces ofString
  induction value.toList with
  | nil => rfl
  | cons char chars ih =>
    rw [List.flatMap_cons, List.foldr_append, ih, foldr_consUnit_unitsOfChar, List.map_cons]

theorem mapM_scalar?_eq_some {pieces : List TextPiece} {chars : List Char} :
    pieces.mapM TextPiece.scalar? = some chars ↔ pieces = chars.map TextPiece.scalar := by
  induction pieces generalizing chars with
  | nil => cases chars <;> simp
  | cons piece pieces ih =>
    rw [List.mapM_cons, Option.bind_eq_bind, Option.bind_eq_some_iff]
    cases piece with
    | unpaired unit => cases chars <;> simp [TextPiece.scalar?]
    | scalar char => cases chars <;> simp [TextPiece.scalar?, Option.bind_eq_some_iff, ih, and_comm]

/-- A string is read back from the text that spells it. -/
@[simp] theorem toString?_ofString (value : String) : (ofString value).toString? = some value := by
  rw [toString?, mapM_scalar?_eq_some.2 (pieces_ofString value), Option.map_some,
    String.ofList_toList]

/-- A text that spells a string is the only one that does. -/
theorem ofString_of_toString? {text : JavaText} {value : String}
    (h : text.toString? = some value) : ofString value = text := by
  obtain ⟨chars, hchars, rfl⟩ := Option.map_eq_some_iff.1 h
  have hunits := units_pieces text
  rw [mapM_scalar?_eq_some.1 hchars, List.flatMap_map] at hunits
  unfold ofString
  rw [String.toList_ofList]
  exact congrArg JavaText.mk hunits

/-! ## Paired surrogates -/

/-- Units in which every surrogate is one half of a pair. -/
inductive IsPaired : List UInt16 → Prop where
  | nil : IsPaired []
  | plain {unit : UInt16} {rest : List UInt16} (h : unit.toNat < 0xD800 ∨ 0xE000 ≤ unit.toNat)
    (hrest : IsPaired rest) : IsPaired (unit :: rest)
  | pair {high low : UInt16} {rest : List UInt16}
    (hhigh : 0xD800 ≤ high.toNat ∧ high.toNat < 0xDC00)
    (hlow : 0xDC00 ≤ low.toNat ∧ low.toNat < 0xE000) (hrest : IsPaired rest) :
    IsPaired (high :: low :: rest)

theorem IsPaired.pieces {units : List UInt16} (h : IsPaired units) :
    ∃ chars : List Char, (JavaText.mk units).pieces = chars.map TextPiece.scalar := by
  unfold JavaText.pieces
  induction h with
  | nil => exact ⟨[], rfl⟩
  | @plain unit rest hplain _ ih =>
    obtain ⟨chars, hchars⟩ := ih
    have hhigh : isHighSurrogate unit ≠ true := by
      rw [ne_eq, isHighSurrogate_iff]
      omega
    have hlow : isLowSurrogate unit ≠ true := by
      rw [ne_eq, isLowSurrogate_iff]
      omega
    refine ⟨Char.ofNat unit.toNat :: chars, ?_⟩
    rw [List.foldr_cons, hchars, consUnit_plain hhigh hlow]
    rfl
  | @pair high low rest hhigh hlow _ ih =>
    obtain ⟨chars, hchars⟩ := ih
    have hhigh := isHighSurrogate_iff.2 hhigh
    have hlow := isLowSurrogate_iff.2 hlow
    refine ⟨pairScalar high low :: chars, ?_⟩
    rw [List.foldr_cons, List.foldr_cons, hchars, consUnit_low hlow, consUnit_pair hhigh hlow]
    rfl

theorem isPaired_unitsOfChar (char : Char) {rest : List UInt16} (hrest : IsPaired rest) :
    IsPaired (unitsOfChar char ++ rest) := by
  have hvalid := char.valid
  change char.toNat.isValidChar at hvalid
  unfold Nat.isValidChar at hvalid
  unfold unitsOfChar
  by_cases hsmall : char.toNat < 0x10000
  · have hunit : char.toNat.toUInt16.toNat = char.toNat := UInt16.toNat_ofNat_of_lt' hsmall
    rw [if_pos hsmall]
    exact .plain (by omega) hrest
  · have hhigh : (0xD800 + (char.toNat - 0x10000) / 0x400).toUInt16.toNat = _ :=
      UInt16.toNat_ofNat_of_lt' (by change _ < 65536; omega)
    have hlow : (0xDC00 + (char.toNat - 0x10000) % 0x400).toUInt16.toNat = _ :=
      UInt16.toNat_ofNat_of_lt' (by change _ < 65536; omega)
    rw [if_neg hsmall]
    exact .pair (by omega) (by omega) hrest

theorem isPaired_ofString (value : String) : IsPaired (ofString value).units := by
  unfold ofString
  induction value.toList with
  | nil => exact .nil
  | cons char chars ih =>
    rw [List.flatMap_cons]
    exact isPaired_unitsOfChar char ih

/-- The texts that spell strings are those whose surrogates are paired. -/
theorem exists_toString?_iff {text : JavaText} :
    (∃ value, text.toString? = some value) ↔ IsPaired text.units := by
  constructor
  · rintro ⟨value, hvalue⟩
    rw [← ofString_of_toString? hvalue]
    exact isPaired_ofString value
  · intro h
    obtain ⟨chars, hchars⟩ := h.pieces
    exact ⟨String.ofList chars, Option.map_eq_some_iff.2
      ⟨chars, mapM_scalar?_eq_some.2 hchars, rfl⟩⟩

end JavaText

end ClassStub
