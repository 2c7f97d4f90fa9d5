import ClassStub.Proofs.AnnotationWriting
import ClassStub.Proofs.ModifiedUtf8

/-! # Canonical keys of annotations

As long as every name, text and list is shorter than `2 ^ 32`, the canonical key of a value can be
split off the front of any bytes, and so annotations with equal keys are equal. -/

namespace ClassStub

/-! ## Bytes that can be split off -/

/-- Nothing else starts with the written form of an item, and where it starts the rest is known. -/
def SplitsOff {α : Type} (valid : α → Prop) (write : α → Bytes) (item : α) : Prop :=
  ∀ other, valid other → ∀ rest rest',
    write item ++ rest = write other ++ rest' → item = other ∧ rest = rest'

/-- What is read back splits off. -/
theorem Decoder.Reads.splitsOff {α : Type} {decoder : Decoder α} {written written' : Bytes}
    {value value' : α} (h : decoder.Reads written value) (h' : decoder.Reads written' value')
    {rest rest' : Bytes} (heq : written ++ rest = written' ++ rest') :
    value = value' ∧ rest = rest' := by
  have hread := h rest 0
  rw [heq, h' rest' 0] at hread
  obtain ⟨hvalue, hcursor⟩ := Prod.mk.inj (Except.ok.inj hread)
  exact ⟨hvalue.symm, (congrArg Cursor.rest hcursor).symm⟩

theorem ofUInt16_splitsOff {word word' : UInt16} {rest rest' : Bytes}
    (h : Bytes.ofUInt16 word ++ rest = Bytes.ofUInt16 word' ++ rest') :
    word = word' ∧ rest = rest' :=
  (Decoder.reads_u2 word).splitsOff (Decoder.reads_u2 word') h

theorem ofUInt32_splitsOff {word word' : UInt32} {rest rest' : Bytes}
    (h : Bytes.ofUInt32 word ++ rest = Bytes.ofUInt32 word' ++ rest') :
    word = word' ∧ rest = rest' :=
  (Decoder.reads_u4 word).splitsOff (Decoder.reads_u4 word') h

theorem ofUInt64_splitsOff {word word' : UInt64} {rest rest' : Bytes}
    (h : Bytes.ofUInt64 word ++ rest = Bytes.ofUInt64 word' ++ rest') :
    word = word' ∧ rest = rest' :=
  (Decoder.reads_u8 word).splitsOff (Decoder.reads_u8 word') h

/-- Items that split off one by one do so as a list of known length. -/
theorem flatten_splitsOff {α : Type} {valid : α → Prop} {write : α → Bytes} {items others : List α}
    (hitems : ∀ item ∈ items, SplitsOff valid write item) (hothers : ∀ other ∈ others, valid other)
    (hlength : items.length = others.length) {rest rest' : Bytes}
    (h : (items.map write).flatten ++ rest = (others.map write).flatten ++ rest') :
    items = others ∧ rest = rest' := by
  induction items generalizing others with
  | nil =>
    cases others with
    | nil => exact ⟨rfl, h⟩
    | cons other others => cases hlength
  | cons item items ih =>
    cases others with
    | nil => cases hlength
    | cons other others =>
      obtain ⟨hfirst, hlater⟩ := List.forall_mem_cons.1 hitems
      obtain ⟨hvalid, hvalids⟩ := List.forall_mem_cons.1 hothers
      simp only [List.map_cons, List.flatten_cons, List.append_assoc] at h
      obtain ⟨hhead, htail⟩ := hfirst other hvalid _ _ h
      obtain ⟨hsame, hrest⟩ := ih hlater hvalids (Nat.succ.inj hlength) htail
      exact ⟨congrArg₂ List.cons hhead hsame, hrest⟩

/-- The limits of canonical keys: lengths are written in 32 bits. -/
def Limits.keyed : Limits where
  name name := name.utf8ByteSize < 2 ^ 32
  text text := text.units.length < 2 ^ 32
  count count := count < 2 ^ 32

namespace ElementValue

/-! ## Names and texts -/

theorem lengthKey_splitsOff {length length' : Nat} (h : length < 2 ^ 32) (h' : length' < 2 ^ 32)
    {rest rest' : Bytes} (heq : lengthKey length ++ rest = lengthKey length' ++ rest') :
    length = length' ∧ rest = rest' := by
  obtain ⟨hword, hrest⟩ := ofUInt32_splitsOff heq
  refine ⟨?_, hrest⟩
  rw [← toNat_toUInt32 h, hword, toNat_toUInt32 h']

theorem ofString_injective {name name' : String} (h : Bytes.ofString name = Bytes.ofString name') :
    name = name' := by
  apply String.toByteArray_inj.1
  apply ByteArray.ext
  exact Array.toList_inj.1 h

theorem nameKey_splitsOff {name name' : String} (h : name.utf8ByteSize < 2 ^ 32)
    (h' : name'.utf8ByteSize < 2 ^ 32) {rest rest' : Bytes}
    (heq : nameKey name ++ rest = nameKey name' ++ rest') : name = name' ∧ rest = rest' := by
  unfold nameKey at heq
  rw [List.append_assoc, List.append_assoc] at heq
  obtain ⟨hlength, heq⟩ := lengthKey_splitsOff h h' heq
  obtain ⟨hname, hrest⟩ := List.append_inj heq hlength
  exact ⟨ofString_injective hname, hrest⟩

theorem textKey_splitsOff {text text' : JavaText} (h : text.units.length < 2 ^ 32)
    (h' : text'.units.length < 2 ^ 32) {rest rest' : Bytes}
    (heq : textKey text ++ rest = textKey text' ++ rest') : text = text' ∧ rest = rest' := by
  unfold textKey at heq
  rw [List.append_assoc, List.append_assoc] at heq
  obtain ⟨hlength, heq⟩ := lengthKey_splitsOff h h' heq
  have hunit : ∀ unit ∈ text.units, SplitsOff (fun _ => True) Bytes.ofUInt16 unit :=
    fun unit _ other _ _ _ h => (Decoder.reads_u2 unit).splitsOff (Decoder.reads_u2 other) h
  obtain ⟨hunits, hrest⟩ := flatten_splitsOff hunit (fun _ _ => trivial) hlength heq
  exact ⟨congrArg JavaText.mk hunits, hrest⟩

/-! ## Values -/

/-- The canonical form of a named value. -/
def pairKey (pair : ElementPair) : Bytes :=
  nameKey pair.1 ++ pair.2.key

theorem pairsKeyOnto_eq (reversed : List Bytes) (elements : List ElementPair) :
    pairsKeyOnto reversed elements =
      reversed.reverse.flatten ++ (elements.map pairKey).flatten := by
  induction elements generalizing reversed with
  | nil => simp [pairsKeyOnto]
  | cons pair elements ih => simp [pairsKeyOnto, ih, pairKey]

theorem valuesKeyOnto_eq (reversed : List Bytes) (values : List ElementValue) :
    valuesKeyOnto reversed values = reversed.reverse.flatten ++ (values.map key).flatten := by
  induction values generalizing reversed with
  | nil => simp [valuesKeyOnto]
  | cons value values ih => simp [valuesKeyOnto, ih]

theorem elementsKey_eq (elements : List ElementPair) :
    elementsKey elements = lengthKey elements.length ++ (elements.map pairKey).flatten := by
  rw [elementsKey, pairsKeyOnto_eq]
  rfl

/-- The form of a value behind its tag. -/
def contentKey (value : ElementValue) : Bytes :=
  value.key.tail

theorem key_eq (value : ElementValue) : value.key = value.tag :: value.contentKey := by
  cases value <;> rw [contentKey, key] <;> rfl

/-- Values with one tag are of one kind. -/
theorem ctorIdx_of_tag {value other : ElementValue} (h : value.tag = other.tag) :
    value.ctorIdx = other.ctorIdx := by
  revert h
  cases value <;> cases other
  all_goals first
    | exact fun _ => rfl
    | exact fun h => absurd h (of_decide_eq_false rfl)

theorem contentKey_string (text : JavaText) : (string text).contentKey = textKey text := by
  rw [contentKey, key, List.tail_cons]

theorem contentKey_enumConstant (typeDescriptor constantName : String) :
    (enumConstant typeDescriptor constantName).contentKey =
      nameKey typeDescriptor ++ nameKey constantName := by
  rw [contentKey, key, List.tail_cons]

theorem contentKey_classInfo (descriptor : String) :
    (classInfo descriptor).contentKey = nameKey descriptor := by
  rw [contentKey, key, List.tail_cons]

theorem contentKey_nested (descriptor : String) (elements : List ElementPair) :
    (nested descriptor elements).contentKey = nameKey descriptor ++ elementsKey elements := by
  rw [contentKey, key, List.tail_cons, elementsKey]

theorem contentKey_array (values : List ElementValue) :
    (array values).contentKey = lengthKey values.length ++ (values.map key).flatten := by
  rw [contentKey, key, List.tail_cons, valuesKeyOnto_eq]
  rfl

/-- A value splits off if its content does among values of its kind. -/
theorem key_splitsOff_of_content {value : ElementValue}
    (h : ∀ other, other.Within .keyed → value.ctorIdx = other.ctorIdx → ∀ rest rest',
      value.contentKey ++ rest = other.contentKey ++ rest' → value = other ∧ rest = rest') :
    SplitsOff (fun other => other.Within .keyed) key value := by
  intro other hother rest rest' heq
  rw [key_eq, key_eq, List.cons_append, List.cons_append] at heq
  obtain ⟨htag, hcontent⟩ := List.cons.inj heq
  exact h other hother (ctorIdx_of_tag htag) rest rest' hcontent

/-! ## Keys tell values apart -/

theorem wordOfInt8_injective : Function.Injective fun value : Int8 => value.toInt32.toUInt32 :=
  Function.LeftInverse.injective
    (g := fun word : UInt32 => word.toInt32.toInt8) Int8.toInt8_toInt32

theorem wordOfInt16_injective : Function.Injective fun value : Int16 => value.toInt32.toUInt32 :=
  Function.LeftInverse.injective
    (g := fun word : UInt32 => word.toInt32.toInt16) Int16.toInt16_toInt32

theorem wordOfInt32_injective : Function.Injective Int32.toUInt32 :=
  Function.LeftInverse.injective (g := UInt32.toInt32) Int32.toInt32_toUInt32

theorem wordOfBool_injective : Function.Injective fun value => (intOfBool value).toUInt32 := by
  intro a b h
  revert a b
  decide

theorem wordOfInt64_injective : Function.Injective Int64.toUInt64 :=
  Function.LeftInverse.injective (g := UInt64.toInt64) Int64.toInt64_toUInt64

/-- Numbers that are written as different words split off. -/
theorem wordKey_splitsOff {α : Type} {word : α → UInt32} (hword : Function.Injective word)
    {value other : α} {rest rest' : Bytes}
    (h : Bytes.ofUInt32 (word value) ++ rest = Bytes.ofUInt32 (word other) ++ rest') :
    value = other ∧ rest = rest' := by
  obtain ⟨hsame, hrest⟩ := ofUInt32_splitsOff h
  exact ⟨hword hsame, hrest⟩

/-- The limits on a named value. -/
def PairWithin (limits : Limits) (pair : ElementPair) : Prop :=
  limits.name pair.1 ∧ pair.2.Within limits

theorem pairKey_splitsOff {pair : ElementPair} (hname : Limits.keyed.name pair.1)
    (hvalue : SplitsOff (fun other => other.Within .keyed) key pair.2) :
    SplitsOff (PairWithin .keyed) pairKey pair := by
  intro other hother rest rest' heq
  simp only [pairKey, List.append_assoc] at heq
  obtain ⟨hnames, heq⟩ := nameKey_splitsOff hname hother.1 heq
  obtain ⟨hvalues, hrest⟩ := hvalue other.2 hother.2 _ _ heq
  exact ⟨Prod.ext hnames hvalues, hrest⟩

theorem elementsKey_splitsOff {elements others : List ElementPair}
    (hcount : elements.length < 2 ^ 32) (hcount' : others.length < 2 ^ 32)
    (helements : ∀ pair ∈ elements, SplitsOff (PairWithin .keyed) pairKey pair)
    (hothers : ∀ pair ∈ others, PairWithin .keyed pair) {rest rest' : Bytes}
    (heq : elementsKey elements ++ rest = elementsKey others ++ rest') :
    elements = others ∧ rest = rest' := by
  simp only [elementsKey_eq, List.append_assoc] at heq
  obtain ⟨hlength, heq⟩ := lengthKey_splitsOff hcount hcount' heq
  exact flatten_splitsOff helements hothers hlength heq

/-- The key of a value splits off. -/
theorem key_splitsOff {value : ElementValue} (h : value.Within .keyed) :
    SplitsOff (fun other => other.Within .keyed) key value := by
  induction h with
  | byte number =>
    refine key_splitsOff_of_content fun other hother hkind rest rest' heq => ?_
    cases hother <;> try cases hkind
    obtain ⟨hsame, hrest⟩ := wordKey_splitsOff wordOfInt8_injective heq
    exact ⟨congrArg byte hsame, hrest⟩
  | char unit =>
    refine key_splitsOff_of_content fun other hother hkind rest rest' heq => ?_
    cases hother <;> try cases hkind
    obtain ⟨hsame, hrest⟩ := wordKey_splitsOff (fun _ _ => UInt16.toUInt32_inj.1) heq
    exact ⟨congrArg char hsame, hrest⟩
  | double bits =>
    refine key_splitsOff_of_content fun other hother hkind rest rest' heq => ?_
    cases hother <;> try cases hkind
    obtain ⟨hsame, hrest⟩ := ofUInt64_splitsOff heq
    exact ⟨congrArg double hsame, hrest⟩
  | float bits =>
    refine key_splitsOff_of_content fun other hother hkind rest rest' heq => ?_
    cases hother <;> try cases hkind
    obtain ⟨hsame, hrest⟩ := ofUInt32_splitsOff heq
    exact ⟨congrArg float hsame, hrest⟩
  | int number =>
    refine key_splitsOff_of_content fun other hother hkind rest rest' heq => ?_
    cases hother <;> try cases hkind
    obtain ⟨hsame, hrest⟩ := wordKey_splitsOff wordOfInt32_injective heq
    exact ⟨congrArg int hsame, hrest⟩
  | long number =>
    refine key_splitsOff_of_content fun other hother hkind rest rest' heq => ?_
    cases hother <;> try cases hkind
    obtain ⟨hsame, hrest⟩ := ofUInt64_splitsOff heq
    exact ⟨congrArg long (wordOfInt64_injective hsame), hrest⟩
  | short number =>
    refine key_splitsOff_of_content fun other hother hkind rest rest' heq => ?_
    cases hother <;> try cases hkind
    obtain ⟨hsame, hrest⟩ := wordKey_splitsOff wordOfInt16_injective heq
    exact ⟨congrArg short hsame, hrest⟩
  | boolean truth =>
    refine key_splitsOff_of_content fun other hother hkind rest rest' heq => ?_
    cases hother <;> try cases hkind
    obtain ⟨hsame, hrest⟩ := wordKey_splitsOff wordOfBool_injective heq
    exact ⟨congrArg boolean hsame, hrest⟩
  | string htext =>
    refine key_splitsOff_of_content fun other hother hkind rest rest' heq => ?_
    cases hother with
    | string htext' =>
      rw [contentKey_string, contentKey_string] at heq
      obtain ⟨hsame, hrest⟩ := textKey_splitsOff htext htext' heq
      exact ⟨congrArg string hsame, hrest⟩
    | _ => cases hkind
  | enumConstant htype hconstant =>
    refine key_splitsOff_of_content fun other hother hkind rest rest' heq => ?_
    cases hother with
    | enumConstant htype' hconstant' =>
      simp only [contentKey_enumConstant, List.append_assoc] at heq
      obtain ⟨htypes, heq⟩ := nameKey_splitsOff htype htype' heq
      obtain ⟨hconstants, hrest⟩ := nameKey_splitsOff hconstant hconstant' heq
      exact ⟨congrArg₂ enumConstant htypes hconstants, hrest⟩
    | _ => cases hkind
  | classInfo hdescriptor =>
    refine key_splitsOff_of_content fun other hother hkind rest rest' heq => ?_
    cases hother with
    | classInfo hdescriptor' =>
      rw [contentKey_classInfo, contentKey_classInfo] at heq
      obtain ⟨hsame, hrest⟩ := nameKey_splitsOff hdescriptor hdescriptor' heq
      exact ⟨congrArg classInfo hsame, hrest⟩
    | _ => cases hkind
  | nested hdescriptor hcount hnames hvalues ih =>
    refine key_splitsOff_of_content fun other hother hkind rest rest' heq => ?_
    cases hother with
    | nested hdescriptor' hcount' hnames' hvalues' =>
      simp only [contentKey_nested, List.append_assoc] at heq
      obtain ⟨hdescriptors, heq⟩ := nameKey_splitsOff hdescriptor hdescriptor' heq
      obtain ⟨helements, hrest⟩ := elementsKey_splitsOff hcount hcount'
        (fun pair hpair => pairKey_splitsOff (hnames pair hpair) (ih pair hpair))
        (fun pair hpair => ⟨hnames' pair hpair, hvalues' pair hpair⟩) heq
      exact ⟨congrArg₂ nested hdescriptors helements, hrest⟩
    | _ => cases hkind
  | array hcount hvalues ih =>
    refine key_splitsOff_of_content fun other hother hkind rest rest' heq => ?_
    cases hother with
    | array hcount' hvalues' =>
      simp only [contentKey_array, List.append_assoc] at heq
      obtain ⟨hlength, heq⟩ := lengthKey_splitsOff hcount hcount' heq
      obtain ⟨hsame, hrest⟩ := flatten_splitsOff ih hvalues' hlength heq
      exact ⟨congrArg array hsame, hrest⟩
    | _ => cases hkind

/-- Elements with one key are equal. -/
theorem eq_of_elementsKey {elements others : List ElementPair}
    (hcount : elements.length < 2 ^ 32) (hcount' : others.length < 2 ^ 32)
    (helements : ∀ pair ∈ elements, PairWithin .keyed pair)
    (hothers : ∀ pair ∈ others, PairWithin .keyed pair)
    (heq : elementsKey elements = elementsKey others) : elements = others := by
  have hpairs : ∀ pair ∈ elements, SplitsOff (PairWithin .keyed) pairKey pair := by
    intro pair hpair
    obtain ⟨hname, hvalue⟩ := helements pair hpair
    exact pairKey_splitsOff hname (key_splitsOff hvalue)
  exact (elementsKey_splitsOff hcount hcount' hpairs hothers (congrArg (· ++ []) heq)).1

end ElementValue

/-! ## Keys tell annotations apart -/

/-- Annotations with one key are equal. -/
theorem Annotation.eq_of_canonicalKey {item other : Annotation} (h : item.Within .keyed)
    (h' : other.Within .keyed) (hkey : item.canonicalKey = other.canonicalKey) : item = other := by
  obtain ⟨hdescriptor, hkey⟩ := Prod.mk.inj hkey
  obtain ⟨hvisible, hkey⟩ := Prod.mk.inj hkey
  have helements : item.elements = other.elements := ElementValue.eq_of_elementsKey h.count h'.count
    (fun pair hpair => ⟨h.names pair hpair, h.values pair hpair⟩)
    (fun pair hpair => ⟨h'.names pair hpair, h'.values pair hpair⟩) hkey
  cases item
  cases other
  simp_all only

theorem TypePath.eq_of_flatMap {steps others : List PathStep}
    (h : (steps.flatMap fun step => [step.kind, step.argumentIndex]) =
      others.flatMap fun step => [step.kind, step.argumentIndex]) : steps = others := by
  induction steps generalizing others with
  | nil =>
    cases others with
    | nil => rfl
    | cons other others => simp at h
  | cons step steps ih =>
    cases others with
    | nil => simp at h
    | cons other others =>
      simp only [List.flatMap_cons, List.cons_append, List.nil_append, List.cons.injEq] at h
      obtain ⟨hkind, hindex, hrest⟩ := h
      have hstep : step = other := by
        cases step
        cases other
        simp_all only
      rw [hstep, ih hrest]

/-- A path is known from its written form, however long it is. -/
theorem TypePath.toBytes_injective {path other : TypePath} (h : path.toBytes = other.toBytes) :
    path = other := by
  -- The count in front of the steps is cut to 8 bits; the steps themselves are all there.
  obtain ⟨-, hsteps⟩ := List.cons.inj h
  cases path
  cases other
  exact congrArg mk (eq_of_flatMap hsteps)

theorem TypeAnnotation.siteBytes_eq_iff {item other : TypeAnnotation}
    (h : item.target.Fits item.targetType) (h' : other.target.Fits other.targetType) :
    item.siteBytes = other.siteBytes ↔
      item.targetType = other.targetType ∧ item.target = other.target ∧ item.path = other.path := by
  constructor
  · intro heq
    obtain ⟨htype, heq⟩ := List.cons.inj heq
    have hfits : other.target.Fits item.targetType := htype ▸ h'
    obtain ⟨htarget, hpath⟩ := (Target.reads_decode h).splitsOff (Target.reads_decode hfits) heq
    exact ⟨htype, htarget, TypePath.toBytes_injective hpath⟩
  · rintro ⟨htype, htarget, hpath⟩
    rw [siteBytes, siteBytes, htype, htarget, hpath]

/-- The target of a type annotation fits its type, and its content is within the limits of
canonical keys. -/
structure TypeAnnotation.IsKeyed (item : TypeAnnotation) : Prop where
  target : item.target.Fits item.targetType
  content : item.content.Within .keyed

theorem TypeAnnotation.Within.isKeyed {item : TypeAnnotation} (h : item.Within .keyed) :
    item.IsKeyed :=
  ⟨h.target, h.content⟩

/-- Type annotations with one key are equal. -/
theorem TypeAnnotation.eq_of_key {item other : TypeAnnotation} (h : item.IsKeyed)
    (h' : other.IsKeyed) (hkey : Keyed.key item = Keyed.key other) : item = other := by
  obtain ⟨hsite, hcontent⟩ := Prod.mk.inj hkey
  obtain ⟨htype, htarget, hpath⟩ := (siteBytes_eq_iff h.target h'.target).1 hsite
  have hcontents := Annotation.eq_of_canonicalKey h.content h'.content hcontent
  cases item
  cases other
  simp_all only

/-! ## Class files are within the limits -/

theorem JavaText.length_unitsOfChar_pos (char : Char) : 0 < (unitsOfChar char).length := by
  unfold unitsOfChar
  by_cases hchar : char.toNat < 0x10000
  · simp [hchar]
  · simp [hchar]

theorem JavaText.utf8ByteSize_le (name : String) :
    name.utf8ByteSize ≤ 4 * (ofString name).units.length := by
  have hchars : ∀ chars : List Char,
      (String.ofList chars).utf8ByteSize ≤ 4 * (chars.flatMap unitsOfChar).length := by
    intro chars
    induction chars with
    | nil => exact Nat.le_refl 0
    | cons char chars ih =>
      have hsize := char.utf8Size_le_four
      have hunits := length_unitsOfChar_pos char
      rw [String.ofList_cons, String.utf8ByteSize_append, String.utf8ByteSize_singleton]
      rw [List.flatMap_cons, List.length_append]
      omega
  have hname := hchars name.toList
  rwa [String.ofList_toList] at hname

/-- What can be written to a class file has a key that tells it apart. -/
theorem Limits.classFile_stricter : Limits.classFile.Stricter .keyed where
  name name h := by
    have hsize := JavaText.utf8ByteSize_le name
    have hunits := JavaText.length_units_le_encode (.ofString name)
    change _ ≤ 65535 at h
    change _ < 2 ^ 32
    omega
  text text h := by
    have hunits := JavaText.length_units_le_encode text
    change _ ≤ 65535 at h
    change _ < 2 ^ 32
    omega
  count count h := by
    change _ ≤ 65535 at h
    change _ < 2 ^ 32
    omega

end ClassStub
