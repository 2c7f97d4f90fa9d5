import Mathlib.Algebra.Order.BigOperators.Group.List
import Mathlib.Algebra.Order.Group.Nat
import ClassStub.Proofs.CanonicalSets
import ClassStub.Proofs.Decoding
import ClassStub.Proofs.Interning
import ClassStub.Proofs.Limits

/-! # Annotations that were written

Everything that is within the limits of the format is read back from its written form, against the
pool that was written along with it and against every later pool. `Writes` combines the judgement
about interning with the one about reading and keeps count of the bytes, which bounds the levels of
nesting that a reader has to allow. -/

namespace ClassStub

/-- What `action` writes takes `size` bytes, from which `decoder` reads `value` in all later
pools. -/
def Writes {α : Type} (texts : JavaText → Prop) (action : PoolM Bytes) (size : Nat)
    (decoder : Pool → Decoder α) (value : α) : Prop :=
  Interns texts action fun later bytes => bytes.length = size ∧ (decoder later).Reads bytes value

section Rules

variable {α β γ : Type} {texts : JavaText → Prop}

theorem writes_indexBytes {action : PoolM UInt16} {find : Pool → UInt16 → Except PoolError α}
    {value : α} (h : Interns texts action fun later index => find later index = .ok value) :
    Writes texts (ElementValue.indexBytes action) 2
      (fun pool => ElementValue.decodeIndexed (find pool)) value := by
  refine h.map fun later index hindex => ⟨rfl, ?_⟩
  exact (Decoder.reads_u2 index).last (Decoder.reads_lookup hindex)

theorem Writes.append {first second : PoolM Bytes} {m n : Nat} {decodeFirst : Pool → Decoder α}
    {decodeSecond : Pool → Decoder β} {value : α} {value' : β}
    (hfirst : Writes texts first m decodeFirst value)
    (hsecond : Writes texts second n decodeSecond value') (f : α → β → γ) :
    Writes texts (do return (← first) ++ (← second)) (m + n)
      (fun pool => do return f (← decodeFirst pool) (← decodeSecond pool)) (f value value') := by
  refine hfirst.bind fun bytes => hsecond.bind fun bytes' => interns_pure ?_
  intro later hsecond hfirst
  obtain ⟨hlength', hreads'⟩ := hsecond
  obtain ⟨hlength, hreads⟩ := hfirst
  refine ⟨by rw [List.length_append, hlength, hlength'], ?_⟩
  exact hreads.bind (hreads'.map (f value))

theorem interns_mapM_writes {encode : α → PoolM Bytes} {size : α → Nat}
    {decoder : Pool → Decoder α} {items : List α}
    (h : ∀ item ∈ items, Writes texts (encode item) (size item) decoder item) :
    Interns texts (items.mapM encode) fun later parts =>
      parts.flatten.length = (items.map size).sum
        ∧ List.Forall₂ (decoder later).Reads parts items := by
  refine (interns_mapM h).mono fun later parts hparts => ⟨?_, ?_⟩
  · have hlengths : parts.map List.length = items.map size := by
      rw [← List.forall₂_eq_eq_eq, List.forall₂_map_left_iff, List.forall₂_map_right_iff]
      exact hparts.flip.imp fun _ _ h => h.1
    rw [List.length_flatten, hlengths]
  · exact hparts.flip.imp fun _ _ h => h.2

theorem Writes.encodeList {encode : α → PoolM Bytes} {size : α → Nat} {decoder : Pool → Decoder α}
    {items : List α} (hcount : items.length ≤ 65535)
    (h : ∀ item ∈ items, Writes texts (encode item) (size item) decoder item) :
    Writes texts (encodeList encode items) (listSize size items)
      (fun pool => Decoder.counted (decoder pool)) items := by
  refine (interns_mapM_writes h).bind fun parts => interns_pure ?_
  intro later hwritten
  obtain ⟨hlength, hreads⟩ := hwritten
  refine ⟨?_, Decoder.reads_counted hreads hcount⟩
  rw [List.length_append, hlength]
  rfl

/-- The size of an item in a list is at most the size of the list. -/
theorem size_le_of_mem (size : α → Nat) {items : List α} {item : α} (hitem : item ∈ items) :
    size item ≤ (items.map size).sum :=
  List.single_le_sum (fun _ _ => Nat.zero_le _) _ (List.mem_map_of_mem hitem)

/-- The length of a body bounds the levels of nesting in the items that it was written for. -/
theorem interns_leveledBody {encode : α → PoolM Bytes} {size : α → Nat}
    {decoder : Pool → Nat → Decoder α} {items : List α} (hcount : items.length ≤ 65535)
    (h : ∀ item ∈ items, ∀ levels, size item ≤ levels →
      Writes texts (encode item) (size item) (fun pool => decoder pool levels) item) :
    Interns texts (encodeList encode items) fun later body =>
      body.length = listSize size items
        ∧ (Decoder.counted (decoder later (ElementValue.levelBound body))).decode body
          = .ok items := by
  have hwrites : Writes texts (encodeList encode items) (listSize size items)
      (fun pool => Decoder.counted (decoder pool (listSize size items + 1))) items :=
    Writes.encodeList hcount fun item hitem => h item hitem _ (by
      have hsize := size_le_of_mem size hitem
      unfold listSize
      omega)
  refine hwrites.mono fun later body hbody => ⟨hbody.1, ?_⟩
  rw [ElementValue.levelBound, hbody.1]
  exact hbody.2.decode

end Rules

namespace ElementValue

/-- The written form of a named value. -/
def encodePair (pair : ElementPair) : PoolM Bytes := do
  return (← indexBytes (Pool.addName pair.1)) ++ (← pair.2.encode)

theorem encodePairsOnto_eq (reversed : List Bytes) (elements : List ElementPair) :
    encodePairsOnto reversed elements =
      (fun parts => (reversed.reverse ++ parts).flatten) <$> elements.mapM encodePair := by
  induction elements generalizing reversed with
  | nil => simp [encodePairsOnto]
  | cons pair elements ih =>
    simp only [encodePairsOnto, encodePair, ih, map_eq_pure_bind, List.mapM_cons, bind_assoc,
      pure_bind, List.reverse_cons, List.append_assoc, List.singleton_append]

theorem encodeValuesOnto_eq (reversed : List Bytes) (values : List ElementValue) :
    encodeValuesOnto reversed values =
      (fun parts => (reversed.reverse ++ parts).flatten) <$> values.mapM encode := by
  induction values generalizing reversed with
  | nil => simp [encodeValuesOnto]
  | cons value values ih =>
    simp only [encodeValuesOnto, ih, map_eq_pure_bind, List.mapM_cons, bind_assoc, pure_bind,
      List.reverse_cons, List.append_assoc, List.singleton_append]

theorem bind_encodePairs {β : Type} (elements : List ElementPair) (next : Bytes → PoolM β) :
    (encodePairsOnto [] elements >>= fun written =>
      next (Bytes.ofLength elements.length ++ written)) =
        encodeList encodePair elements >>= next := by
  simp only [encodePairsOnto_eq, encodeList, map_eq_pure_bind, bind_assoc, pure_bind,
    List.reverse_nil, List.nil_append]

theorem encode_nested (descriptor : String) (elements : List ElementPair) :
    (nested descriptor elements).encode = List.cons (nested descriptor elements).tag <$> do
      return (← indexBytes (Pool.addName descriptor)) ++ (← encodeList encodePair elements) := by
  rw [encode]
  exact congrArg _ (bind_congr fun written => bind_encodePairs elements fun pairs =>
    pure (written ++ pairs))

theorem encode_array (values : List ElementValue) :
    (array values).encode = List.cons (array values).tag <$> encodeList encode values := by
  rw [encode, encodeValuesOnto_eq]
  simp only [encodeList, map_eq_pure_bind, bind_assoc, pure_bind, List.reverse_nil, List.nil_append]

variable {texts : JavaText → Prop}

theorem writes_pairs {elements : List ElementPair} {levels : Nat} (hcount : elements.length ≤ 65535)
    (hnames : ∀ pair ∈ elements, texts (.ofString pair.1))
    (hvalues : ∀ pair ∈ elements, Writes texts pair.2.encode pair.2.writtenSize
      (fun pool => decodeWithin pool levels) pair.2) :
    Writes texts (encodeList encodePair elements) (listSize pairSize elements)
      (fun pool => decodePairs pool (decodeWithin pool levels)) elements := by
  refine Writes.encodeList hcount fun pair hpair => ?_
  have hname := writes_indexBytes (Pool.interns_addName (hnames pair hpair))
  exact hname.append (hvalues pair hpair) Prod.mk

theorem toBool_intOfBool (value : Bool) : (intOfBool value != 0) = value := by
  cases value <;> rfl

/-- A value is read back when its content is read back behind the tag. -/
theorem writes_tagged {α : Type} {content : PoolM Bytes} {size levels : Nat}
    {decoder : Pool → Decoder α} {found : α} {value : ElementValue}
    (hcontent : Writes texts content size decoder found)
    (hreads : ∀ pool written, (decoder pool).Reads written found →
      (decodeWithin pool levels).Reads (value.tag :: written) value) :
    Writes texts (List.cons value.tag <$> content) (size + 1)
      (fun pool => decodeWithin pool levels) value :=
  hcontent.map fun later written hwritten =>
    ⟨congrArg Nat.succ hwritten.1, hreads later written hwritten.2⟩

/-- A value that is within limits is read back, at any bound on the levels that exceeds its
size. -/
theorem writes_encode {value : ElementValue} (h : value.Within (.counted texts)) {levels : Nat}
    (hlevels : value.writtenSize ≤ levels) :
    Writes texts value.encode value.writtenSize (fun pool => decodeWithin pool (levels + 1))
      value := by
  induction h generalizing levels with
  | byte value =>
    rw [encode]
    refine writes_tagged (writes_indexBytes (Pool.interns_addInteger value.toInt32))
      fun pool written hwritten => ?_
    have hvalue := hwritten.map fun number => byte number.toInt8
    rw [Int8.toInt8_toInt32] at hvalue
    exact (Decoder.reads_u1 _).bind hvalue
  | char unit =>
    rw [encode]
    refine writes_tagged (writes_indexBytes (Pool.interns_addInteger unit.toUInt32.toInt32))
      fun pool written hwritten => ?_
    have hvalue := hwritten.map fun number => char number.toUInt32.toUInt16
    rw [UInt32.toUInt32_toInt32, UInt16.toUInt16_toUInt32] at hvalue
    exact (Decoder.reads_u1 _).bind hvalue
  | double bits =>
    rw [encode]
    exact writes_tagged (writes_indexBytes (Pool.interns_addDouble bits))
      fun pool written hwritten => (Decoder.reads_u1 _).bind (hwritten.map double)
  | float bits =>
    rw [encode]
    exact writes_tagged (writes_indexBytes (Pool.interns_addFloat bits))
      fun pool written hwritten => (Decoder.reads_u1 _).bind (hwritten.map float)
  | int value =>
    rw [encode]
    exact writes_tagged (writes_indexBytes (Pool.interns_addInteger value))
      fun pool written hwritten => (Decoder.reads_u1 _).bind (hwritten.map int)
  | long value =>
    rw [encode]
    exact writes_tagged (writes_indexBytes (Pool.interns_addLong value))
      fun pool written hwritten => (Decoder.reads_u1 _).bind (hwritten.map long)
  | short value =>
    rw [encode]
    refine writes_tagged (writes_indexBytes (Pool.interns_addInteger value.toInt32))
      fun pool written hwritten => ?_
    have hvalue := hwritten.map fun number => short number.toInt16
    rw [Int16.toInt16_toInt32] at hvalue
    exact (Decoder.reads_u1 _).bind hvalue
  | boolean value =>
    rw [encode]
    refine writes_tagged (writes_indexBytes (Pool.interns_addInteger (intOfBool value)))
      fun pool written hwritten => ?_
    have hvalue := hwritten.map fun number => boolean (number != 0)
    rw [toBool_intOfBool] at hvalue
    exact (Decoder.reads_u1 _).bind hvalue
  | string htext =>
    rw [encode]
    have hindex := writes_indexBytes (Pool.interns_addText htext)
    exact writes_tagged hindex fun pool written hwritten =>
      (Decoder.reads_u1 _).bind (hwritten.map string)
  | enumConstant htype hconstant =>
    rw [encode]
    have hnames := (writes_indexBytes (Pool.interns_addName htype)).append
      (writes_indexBytes (Pool.interns_addName hconstant)) enumConstant
    exact writes_tagged hnames fun pool written hwritten =>
      (Decoder.reads_u1 _).bind hwritten
  | classInfo hdescriptor =>
    rw [encode]
    have hindex := writes_indexBytes (Pool.interns_addName hdescriptor)
    exact writes_tagged hindex fun pool written hwritten =>
      (Decoder.reads_u1 _).bind (hwritten.map classInfo)
  | @nested descriptor elements hdescriptor hcount hnames _ ih =>
    rw [writtenSize, pairsSize_eq_sum] at hlevels ⊢
    obtain ⟨levels, rfl⟩ : ∃ fewer, levels = fewer + 1 := ⟨levels - 1, by omega⟩
    have helements := writes_pairs hcount hnames fun pair hpair => by
      have hsize := size_le_of_mem pairSize hpair
      have hvalue : pair.2.writtenSize ≤ levels := by
        unfold pairSize at hsize hlevels
        omega
      exact ih pair hpair hvalue
    have hcontent := (writes_indexBytes (Pool.interns_addName hdescriptor)).append helements nested
    rw [encode_nested, show 5 + (elements.map pairSize).sum = 2 + listSize pairSize elements + 1 by
      unfold listSize
      omega]
    exact writes_tagged hcontent fun pool written hwritten => (Decoder.reads_u1 _).bind hwritten
  | @array values hcount _ ih =>
    rw [writtenSize, valuesSize_eq_sum] at hlevels ⊢
    obtain ⟨levels, rfl⟩ : ∃ fewer, levels = fewer + 1 := ⟨levels - 1, by omega⟩
    have hvalues : Writes texts (encodeList encode values) (listSize writtenSize values)
        (fun pool => Decoder.counted (decodeWithin pool (levels + 1))) values :=
      Writes.encodeList hcount fun value hvalue => ih value hvalue (by
        have hsize := size_le_of_mem writtenSize hvalue
        omega)
    rw [encode_array, show 3 + (values.map writtenSize).sum = listSize writtenSize values + 1 by
      unfold listSize
      omega]
    exact writes_tagged hvalues fun pool written hwritten =>
      (Decoder.reads_u1 _).bind (hwritten.map array)

end ElementValue

namespace Annotation

variable {texts : JavaText → Prop}

theorem writes_encode {item : Annotation} (h : item.Within (.counted texts)) {levels : Nat}
    (hlevels : item.writtenSize ≤ levels) :
    Writes texts item.encode item.writtenSize
      (fun pool => decodeWithin pool item.visible levels) item := by
  unfold writtenSize listSize at hlevels
  obtain ⟨levels, rfl⟩ : ∃ fewer, levels = fewer + 1 := ⟨levels - 1, by omega⟩
  have helements := ElementValue.writes_pairs h.count h.names fun pair hpair => by
    have hsize := size_le_of_mem ElementValue.pairSize hpair
    have hvalue : pair.2.writtenSize ≤ levels := by
      unfold ElementValue.pairSize at hsize hlevels
      omega
    exact ElementValue.writes_encode (h.values pair hpair) hvalue
  have hdescriptor := writes_indexBytes (Pool.interns_addName h.descriptor)
  have hencode : item.encode = do
      return (← ElementValue.indexBytes (Pool.addName item.descriptor))
        ++ (← encodeList ElementValue.encodePair item.elements) :=
    bind_congr fun written => ElementValue.bind_encodePairs item.elements fun pairs =>
      pure (written ++ pairs)
  rw [hencode]
  exact hdescriptor.append helements fun descriptor elements =>
    Annotation.mk descriptor item.visible elements

/-- The body of an annotation attribute gives back the annotations it was written for. -/
theorem interns_body {items : List Annotation} (visible : Bool) (hcount : items.length ≤ 65535)
    (hvisible : ∀ item ∈ items, item.visible = visible)
    (h : ∀ item ∈ items, item.Within (.counted texts)) :
    Interns texts (encodeList encode items) fun later body =>
      body.length = listSize writtenSize items ∧ decodeBody later visible body = .ok items := by
  refine interns_leveledBody hcount fun item hitem levels hlevels => ?_
  rw [← hvisible item hitem]
  exact writes_encode (h item hitem) hlevels

end Annotation

theorem Target.reads_decode {targetType : UInt8} {target : Target} (h : target.Fits targetType) :
    (Target.decode targetType).Reads target.toBytes target := by
  cases target with
  | typeParameter index =>
    rcases h with rfl | rfl
    all_goals exact (Decoder.reads_u1 index).map typeParameter
  | supertype index =>
    cases h
    exact (Decoder.reads_u2 index).map supertype
  | typeParameterBound parameter bound =>
    rcases h with rfl | rfl
    all_goals
      exact (Decoder.reads_u1 parameter).bind
        ((Decoder.reads_u1 bound).map (typeParameterBound parameter))
  | empty =>
    rcases h with rfl | rfl | rfl
    all_goals exact Decoder.reads_pure empty
  | formalParameter index =>
    cases h
    exact (Decoder.reads_u1 index).map formalParameter
  | throws index =>
    cases h
    exact (Decoder.reads_u2 index).map throws

theorem TypePath.reads_decode {path : TypePath} (h : path.steps.length ≤ 255) :
    TypePath.decode.Reads path.toBytes path := by
  have hsteps : List.Forall₂ (Decoder.Reads do return ⟨← Decoder.u1, ← Decoder.u1⟩)
      (path.steps.map fun step => [step.kind, step.argumentIndex]) path.steps := by
    rw [List.forall₂_map_left_iff]
    exact List.forall₂_same.2 fun step _ => (Decoder.reads_u1 step.kind).bind
      ((Decoder.reads_u1 step.argumentIndex).map (PathStep.mk step.kind))
  refine (Decoder.reads_u1 _).bind ?_
  rw [toNat_toUInt8 h]
  exact (Decoder.reads_replicate hsteps).map TypePath.mk

namespace TypeAnnotation

variable {texts : JavaText → Prop}

theorem writes_encode {item : TypeAnnotation} (h : item.Within (.counted texts)) {levels : Nat}
    (hlevels : item.writtenSize ≤ levels) :
    Writes texts item.encode item.writtenSize
      (fun pool => decodeWithin pool item.visible levels) item := by
  have hcontent := Annotation.writes_encode h.content (Nat.le_trans (Nat.le_add_left ..) hlevels)
  refine hcontent.bind fun written => interns_pure ?_
  intro later hwritten
  obtain ⟨hlength, hreads⟩ := hwritten
  refine ⟨by rw [List.length_append, hlength, writtenSize], ?_⟩
  rw [siteBytes, List.cons_append, List.append_assoc]
  exact (Decoder.reads_u1 _).bind ((Target.reads_decode h.target).bind
    ((TypePath.reads_decode h.path).bind
      (hreads.map fun content =>
        TypeAnnotation.mk item.targetType item.target item.path content)))

/-- The body of a type annotation attribute gives back the annotations it was written for. -/
theorem interns_body {items : List TypeAnnotation} (visible : Bool)
    (hcount : items.length ≤ 65535) (hvisible : ∀ item ∈ items, item.visible = visible)
    (h : ∀ item ∈ items, item.Within (.counted texts)) :
    Interns texts (encodeList encode items) fun later body =>
      body.length = listSize writtenSize items ∧ decodeBody later visible body = .ok items := by
  refine interns_leveledBody hcount fun item hitem levels hlevels => ?_
  rw [← hvisible item hitem]
  exact writes_encode (h item hitem) hlevels

end TypeAnnotation

/-- The body of a default value gives back the value that it was written for. -/
theorem ElementValue.interns_body {texts : JavaText → Prop} {value : ElementValue}
    (h : value.Within (.counted texts)) :
    Interns texts value.encode fun later body =>
      body.length = value.writtenSize ∧ decodeBody later body = .ok value := by
  refine (writes_encode h (Nat.le_refl _)).mono fun later body hbody => ⟨hbody.1, ?_⟩
  unfold decodeBody levelBound
  rw [hbody.1]
  exact hbody.2.decode

/-- The body of a parameter table gives back the table that it was written for. -/
theorem ParameterTable.interns_body {texts : JavaText → Prop} {table : ParameterTable}
    {visible : Bool} (h : table.Within (.counted texts) visible) :
    Interns texts table.encode fun later body =>
      body.length = table.writtenSize ∧ decodeBody later visible body = .ok table := by
  have hparameter : ∀ set ∈ table.parameters, Writes texts
      (encodeList Annotation.encode set.toList) (parameterSize set)
      (fun pool => decodeParameter pool visible
        (ElementValue.decodeWithin pool (table.writtenSize + 1))) set := by
    intro set hset
    have hset' : Writes texts (encodeList Annotation.encode set.toList) (parameterSize set)
        (fun pool => Decoder.counted <|
          Annotation.decodeWithin pool visible (table.writtenSize + 1))
        set.toList :=
      Writes.encodeList (h.count set hset) fun item hitem => by
        have hsize := size_le_of_mem Annotation.writtenSize hitem
        have hsizes := size_le_of_mem parameterSize hset
        rw [← h.visible set hset item hitem]
        refine Annotation.writes_encode (h.items set hset item hitem) ?_
        change 2 + (set.toList.map Annotation.writtenSize).sum ≤ _ at hsizes
        unfold writtenSize
        omega
    refine hset'.mono fun later written hwritten => ⟨hwritten.1, ?_⟩
    have hreads := hwritten.2.map CanonicalSet.ofList
    rwa [CanonicalSet.ofList_eq_of_mem fun _ => Iff.rfl] at hreads
  refine (interns_mapM_writes hparameter).bind fun parts => interns_pure ?_
  intro later hwritten
  obtain ⟨hlength, hreads⟩ := hwritten
  have hsize : (table.parameters.length.toUInt8 :: parts.flatten).length = table.writtenSize := by
    rw [List.length_cons, hlength, writtenSize, Nat.add_comm]
  refine ⟨hsize, ?_⟩
  unfold decodeBody ElementValue.levelBound
  rw [hsize]
  refine Decoder.Reads.decode ((Decoder.reads_u1 _).bind ?_)
  rw [toNat_toUInt8 h.parameters]
  exact (Decoder.reads_replicate hreads).map ParameterTable.mk

end ClassStub
