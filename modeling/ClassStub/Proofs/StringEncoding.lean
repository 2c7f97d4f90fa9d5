import ClassStub.Proofs.ShortestForms

/-! # The encoding of strings

A string is encoded character by character: each character of the basic plane takes one, two or
three bytes, every other one the six bytes of its two surrogates. Together with the laws of forms
this makes modified UTF-8 a code: texts are read back, no other bytes for a text are as short as
those that are written, and the strings are found again among the texts. -/

namespace ClassStub

namespace UnitForm

/-- The shortest form of the unit with the given number. -/
def shortest (number : Nat) : UnitForm :=
  if 0x01 ≤ number ∧ number ≤ 0x7F then one number.toUInt8
  else if number ≤ 0x7FF then two (0xC0 + number / 64).toUInt8 (0x80 + number % 64).toUInt8
  else
    three (0xE0 + number / 4096).toUInt8 (0x80 + number / 64 % 64).toUInt8
      (0x80 + number % 64).toUInt8

/-- The shortest form has the marks of a form and stands for its number. -/
theorem isMarked_shortest {number : Nat} (h : number < 65536) :
    (shortest number).IsMarked ∧ (shortest number).value = number := by
  have hbyte : ∀ byte < 256, byte.toUInt8.toNat = byte := fun _ => UInt8.toNat_ofNat_of_lt'
  unfold shortest
  by_cases hone : 0x01 ≤ number ∧ number ≤ 0x7F
  · have hfirst := hbyte number (by omega)
    simp only [if_pos hone, IsMarked, value, hfirst]
    exact ⟨hone, trivial⟩
  · by_cases htwo : number ≤ 0x7FF
    · have hfirst := hbyte (0xC0 + number / 64) (by omega)
      have hsecond := hbyte (0x80 + number % 64) (by omega)
      simp only [if_neg hone, if_pos htwo, IsMarked, value, hfirst, hsecond]
      omega
    · have hfirst := hbyte (0xE0 + number / 4096) (by omega)
      have hsecond := hbyte (0x80 + number / 64 % 64) (by omega)
      have hthird := hbyte (0x80 + number % 64) (by omega)
      simp only [if_neg hone, if_neg htwo, IsMarked, value, hfirst, hsecond, hthird]
      omega

theorem length_shortest (unit : UInt16) : (shortest unit.toNat).bytes.length = needed unit := by
  unfold shortest needed
  by_cases hone : 0x01 ≤ unit.toNat ∧ unit.toNat ≤ 0x7F
  · simp [hone, bytes]
  · by_cases htwo : unit.toNat ≤ 0x7FF
    · simp [hone, htwo, bytes]
    · simp [hone, htwo, bytes]

end UnitForm

namespace JavaText

/-- A unit is written in the shortest form of its number. -/
theorem encodeUnit_eq (unit : UInt16) : encodeUnit unit = (UnitForm.shortest unit.toNat).bytes := by
  obtain ⟨hmarked, hvalue⟩ := UnitForm.isMarked_shortest unit.toNat_lt
  have hunit : (UnitForm.shortest unit.toNat).unit = unit := by
    rw [← UInt16.toNat_inj, UnitForm.toNat_unit, hvalue]
  have hshortest : (UnitForm.shortest unit.toNat).IsShortest := by
    rw [UnitForm.IsShortest, hunit]
    exact UnitForm.length_shortest unit
  have hwritten := (encodeUnit_unit hmarked).2 hshortest
  rwa [hunit] at hwritten

/-- The forms in which a character is written: one for the character itself, or one for each of its
two surrogates. -/
def formsOfChar (char : Char) : List UnitForm :=
  if char.toNat < 0x10000 then [.shortest char.toNat]
  else
    [.shortest (0xD800 + (char.toNat - 0x10000) / 0x400),
      .shortest (0xDC00 + (char.toNat - 0x10000) % 0x400)]

/-- The bytes of a string, one character after the other. -/
def bytesOfString (value : String) : Bytes :=
  (value.toList.flatMap formsOfChar).flatMap UnitForm.bytes

theorem encodeUnit_of_lt {number : Nat} (h : number < 65536) :
    encodeUnit number.toUInt16 = (UnitForm.shortest number).bytes := by
  have hnumber : number.toUInt16.toNat = number := UInt16.toNat_ofNat_of_lt' h
  rw [encodeUnit_eq, hnumber]

theorem flatMap_encodeUnit_unitsOfChar (char : Char) :
    (unitsOfChar char).flatMap encodeUnit = (formsOfChar char).flatMap UnitForm.bytes := by
  have hvalid := char.valid
  change char.toNat.isValidChar at hvalid
  unfold Nat.isValidChar at hvalid
  unfold unitsOfChar formsOfChar
  by_cases hsmall : char.toNat < 0x10000
  · simp only [if_pos hsmall, List.flatMap_cons, List.flatMap_nil]
    rw [encodeUnit_of_lt hsmall]
  · have hhigh : 0xD800 + (char.toNat - 0x10000) / 0x400 < 65536 := by omega
    have hlow : 0xDC00 + (char.toNat - 0x10000) % 0x400 < 65536 := by omega
    simp only [if_neg hsmall, List.flatMap_cons, List.flatMap_nil]
    rw [encodeUnit_of_lt hhigh, encodeUnit_of_lt hlow]

/-- The text of a string is written as the string itself is. -/
theorem encode_ofString (value : String) : (ofString value).encode = bytesOfString value := by
  unfold encode ofString bytesOfString
  simp only [List.flatMap_assoc, flatMap_encodeUnit_unitsOfChar]

/-- Bytes are a text if they consist of forms. -/
theorem isSome_decode?_iff {bytes : Bytes} :
    (decode? bytes).isSome ↔ ∃ forms : List UnitForm, (∀ form ∈ forms, form.IsMarked)
      ∧ bytes = forms.flatMap UnitForm.bytes := by
  rw [Option.isSome_iff_exists]
  constructor
  · intro h
    obtain ⟨text, htext⟩ := h
    obtain ⟨forms, hforms, hbytes, -⟩ := decode?_eq_some.1 htext
    exact ⟨forms, hforms, hbytes⟩
  · intro h
    obtain ⟨forms, hforms, hbytes⟩ := h
    exact ⟨⟨forms.map UnitForm.unit⟩, decode?_eq_some.2 ⟨forms, hforms, hbytes, rfl⟩⟩

/-- A text is written in fewer bytes than it was read from, unless it is written as it was read. -/
theorem length_encode_eq_iff {bytes : Bytes} {text : JavaText} (h : decode? bytes = some text) :
    text.encode.length = bytes.length ↔ text.encode = bytes := by
  constructor
  · intro hlength
    exact (encode_eq_iff h).2 (isShortest_of_length h hlength)
  · intro hbytes
    rw [hbytes]

/-- Modified UTF-8 is a code for texts: every text is read back from what is written for it; bytes
that are read are at least as many as are written for the same text, and as many only if they are
the same; the bytes that are read are the rows of forms of one, two and three bytes; a string is
written character by character and comes back as a string; and a text is taken for a string only if
it is the text of that string. -/
theorem modifiedUtf8_isCode :
    (∀ text : JavaText, decode? text.encode = some text)
      ∧ (∀ (bytes : Bytes) (text : JavaText), decode? bytes = some text →
          text.encode.length ≤ bytes.length
            ∧ (text.encode.length = bytes.length ↔ text.encode = bytes))
      ∧ (∀ bytes : Bytes, (decode? bytes).isSome ↔
          ∃ forms : List UnitForm, (∀ form ∈ forms, form.IsMarked)
            ∧ bytes = forms.flatMap UnitForm.bytes)
      ∧ (∀ value : String, bytesOfString value = (ofString value).encode
          ∧ (decode? (bytesOfString value)).bind toString? = some value)
      ∧ ∀ (text : JavaText) (value : String),
          text.toString? = some value ↔ ofString value = text := by
  refine ⟨decode?_encode, ?_, fun bytes => isSome_decode?_iff, ?_, ?_⟩
  · intro bytes text h
    exact ⟨length_encode_le h, length_encode_eq_iff h⟩
  · intro value
    have hwritten := encode_ofString value
    refine ⟨hwritten.symm, ?_⟩
    rw [← hwritten, decode?_encode, Option.bind_some, toString?_ofString]
  · intro text value
    constructor
    · exact ofString_of_toString?
    · intro h
      rw [← h, toString?_ofString]

/-- A letter that was read from two bytes is written in one. -/
theorem modifiedUtf8_isCode_overlong :
    decode? [0xC1, 0x81] = some ⟨[0x41]⟩
      ∧ (JavaText.mk [0x41]).encode.length ≤ [0xC1, 0x81].length
      ∧ (JavaText.mk [0x41]).encode ≠ [0xC1, 0x81] := by
  have hdecode : decode? [0xC1, 0x81] = some ⟨[0x41]⟩ := by decide
  obtain ⟨hle, hsame⟩ := modifiedUtf8_isCode.2.1 [0xC1, 0x81] ⟨[0x41]⟩ hdecode
  have hlength : (JavaText.mk [0x41]).encode.length ≠ [0xC1, 0x81].length := by decide
  exact ⟨hdecode, hle, fun hbytes => hlength (hsame.2 hbytes)⟩

end JavaText

end ClassStub
