import ClassStub.Proofs.AnnotationWriting
import ClassStub.Proofs.Statements

/-! # Attributes that were written

Every attribute that an assembly writes says at its place what it was written for. `Says` is about
the attributes of a class or member as a whole: the digest of their statements, and the lengths of
their bodies. -/

namespace ClassStub

/-- One attribute makes a statement, with a body of a given size. -/
def Attribute.States (pool : Pool) (place : AttributePlace) (statement : Statement) (size : Nat)
    (item : Attribute) : Prop :=
  Statement.decode pool place item = .ok statement ∧ item.body.length = size

/-- Attributes say what a digest holds, with bodies of given sizes. -/
structure Says (pool : Pool) (place : AttributePlace) (digest : Digest) (sizes : List Nat)
    (attributes : List Attribute) : Prop where
  decode : ∃ statements : Statements, Statement.decodeAll pool place attributes = .ok statements
    ∧ statements.digest = digest
  sizes : attributes.map (·.body.length) = sizes

section Rules

variable {texts : JavaText → Prop} {pool : Pool} {place : AttributePlace}

theorem says_nil : Says pool place {} [] [] :=
  ⟨⟨[], rfl, rfl⟩, rfl⟩

theorem says_singleton {item : Attribute} {statement : Statement} {size : Nat}
    (h : item.States pool place statement size) :
    Says pool place (Statements.digest [statement]) [size] [item] where
  decode := ⟨[statement], mapM_eq_ok.2 (.cons h.1 .nil), rfl⟩
  sizes := congrArg (fun size => [size]) h.2

theorem Says.append {first second : Digest} {sizes sizes' : List Nat}
    {attributes attributes' : List Attribute} (hfirst : Says pool place first sizes attributes)
    (hsecond : Says pool place second sizes' attributes') :
    Says pool place (first ++ second) (sizes ++ sizes') (attributes ++ attributes') := by
  obtain ⟨statements, hdecode, rfl⟩ := hfirst.decode
  obtain ⟨statements', hdecode', rfl⟩ := hsecond.decode
  refine ⟨⟨statements ++ statements', ?_, Statements.digest_append ..⟩, ?_⟩
  · exact mapM_eq_ok.2 (List.rel_append (mapM_eq_ok.1 hdecode) (mapM_eq_ok.1 hdecode'))
  · rw [List.map_append, hfirst.sizes, hsecond.sizes]

end Rules

/-! ## Links -/

section Links

variable {texts : JavaText → Prop}

/-- What is read of an enclosing link behind the index of its method. -/
def enclosingMethod (pool : Pool) (owner : String) (method : UInt16) : Decoder EnclosingLink :=
  if method = 0 then return { owner }
  else do
    let (name, descriptor) ← Decoder.lookup (pool.getNameAndType method)
    return { owner, methodName := some name, methodDescriptor := some descriptor }

theorem interns_enclosingMethod {link : EnclosingLink} (h : link.Within texts) :
    Interns texts
      (match link.methodName, link.methodDescriptor with
        | some name, some descriptor => Pool.addNameAndType name descriptor
        | _, _ => pure 0)
      fun later index => (enclosingMethod later link.owner index).Reads [] link := by
  obtain ⟨-, hname, hdescriptor, hpaired⟩ := h
  obtain ⟨owner, methodName, methodDescriptor⟩ := link
  cases methodName with
  | none =>
    cases methodDescriptor with
    | some descriptor => cases hpaired
    | none =>
      apply interns_pure
      intro later
      exact Decoder.reads_pure _
  | some name =>
    cases methodDescriptor with
    | none => cases hpaired
    | some descriptor =>
      refine (Pool.interns_addNameAndType (hname name rfl) (hdescriptor descriptor rfl)).mono ?_
      rintro later index ⟨hindex, hfound⟩
      unfold enclosingMethod
      rw [if_neg hindex]
      exact (Decoder.reads_lookup hfound).map fun pair =>
        EnclosingLink.mk owner (some pair.1) (some pair.2)

theorem interns_enclosingBody {link : EnclosingLink} (h : link.Within texts) :
    Interns texts
      (do
        let owner ← ElementValue.indexBytes (Pool.addClass link.owner)
        let method ← ElementValue.indexBytes <|
          match link.methodName, link.methodDescriptor with
          | some name, some descriptor => Pool.addNameAndType name descriptor
          | _, _ => pure 0
        return owner ++ method)
      fun later body =>
        body.length = 4 ∧ (Statement.decodeEnclosing later).decode body = .ok link := by
  have howner := writes_indexBytes ((Pool.interns_addClass h.owner).mono fun _ _ hindex => hindex.2)
  have hmethod : Writes texts
      (ElementValue.indexBytes <|
        match link.methodName, link.methodDescriptor with
        | some name, some descriptor => Pool.addNameAndType name descriptor
        | _, _ => pure 0)
      2 (fun pool => Decoder.u2 >>= enclosingMethod pool link.owner) link :=
    (interns_enclosingMethod h).map fun later index hindex =>
      ⟨rfl, (Decoder.reads_u2 index).last hindex⟩
  refine howner.bind fun first => hmethod.bind fun second => interns_pure ?_
  intro later hsecond hfirst
  obtain ⟨hlength', hreads'⟩ := hsecond
  obtain ⟨hlength, hreads⟩ := hfirst
  refine ⟨by rw [List.length_append, hlength, hlength'], ?_⟩
  exact (hreads.bind hreads').decode

theorem writes_nestedLink {link : NestedLink} (h : link.Within texts) :
    Writes texts link.encode 8 Statement.decodeNested link := by
  have hlink := writes_indexBytes ((Pool.interns_addClass h.name).mono fun _ _ hindex => hindex.2)
  have houter := writes_indexBytes (Pool.interns_addOptionalClass h.outerName)
  have hsimple := writes_indexBytes (Pool.interns_addOptionalName h.simpleName)
  refine hlink.bind fun name => houter.bind fun outer => hsimple.bind fun simple => ?_
  apply interns_pure
  intro later hsimpleName houterName hclassName
  obtain ⟨hsimple, hreadsSimple⟩ := hsimpleName
  obtain ⟨houter, hreadsOuter⟩ := houterName
  obtain ⟨hname, hreadsName⟩ := hclassName
  refine ⟨?_, ?_⟩
  · simp only [List.length_append, hsimple, houter, hname, Bytes.length_ofUInt16]
  · exact hreadsName.bind (hreadsOuter.bind (hreadsSimple.bind
      ((Decoder.reads_u2 link.access.bits).map fun access =>
        NestedLink.mk link.name link.outerName link.simpleName ⟨access⟩)))

end Links

namespace Attribute

variable {texts : JavaText → Prop} {place : AttributePlace} {α : Type}

/-- Attributes that `action` writes say what a digest holds. -/
def Describes (texts : JavaText → Prop) (place : AttributePlace) (action : PoolM (List Attribute))
    (digest : Digest) (sizes : List Nat) : Prop :=
  Interns texts action fun later attributes => Says later place digest sizes attributes

theorem interns_named (hname : ∀ kind : AttributeKind, texts (.ofString kind.name))
    (kind : AttributeKind) (body : Bytes) :
    Interns texts (named kind body) fun later item =>
      item.body = body ∧ ∀ place statement,
        Statement.decodeKind later body place kind = .ok statement →
          item.States later place statement body.length := by
  refine (Pool.interns_addName (hname kind)).map fun later index hindex => ⟨rfl, ?_⟩
  refine fun place statement hstatement => ⟨?_, rfl⟩
  unfold Statement.decode Statement.resolve
  refine bind_eq_ok.2 ⟨kind.name, mapError_eq_ok.2 hindex, ?_⟩
  rw [AttributeKind.ofName?_name]
  exact hstatement

/-- An attribute states what its body was written for. -/
theorem interns_ofEncoded (hname : ∀ kind : AttributeKind, texts (.ofString kind.name))
    (place : AttributePlace) (kind : AttributeKind) (statement : Statement) {body : PoolM Bytes}
    {size : Nat}
    (hbody : Interns texts body fun later written =>
      written.length = size ∧ Statement.decodeKind later written place kind = .ok statement) :
    Interns texts (ofEncoded kind body) fun later item =>
      item.States later place statement size := by
  refine hbody.bind fun written => (interns_named hname kind written).mono ?_
  rintro later item ⟨-, hitem⟩ ⟨rfl, hstatement⟩
  exact hitem place statement hstatement

theorem writes_optional (value : Option α) {make : α → PoolM Attribute}
    (statement : α → Statement) (size : α → Nat)
    (h : ∀ found ∈ value, Interns texts (make found) fun later item =>
      item.States later place (statement found) (size found)) :
    Describes texts place (optional value make)
      (Statements.digest (value.toList.map statement)) (value.toList.map size) := by
  cases value with
  | none =>
    apply interns_pure
    intro later
    exact says_nil
  | some value =>
    exact (h value rfl).map (f := fun item => [item]) fun later item hitem => says_singleton hitem

theorem writes_unlessEmpty (make : List α → PoolM Attribute) {items : List α}
    {statement : Statement} {digest : Digest} {size : α → Nat}
    (hnone : items = [] → digest = {})
    (hsome : items ≠ [] → Statements.digest [statement] = digest)
    (h : Interns texts (make items) fun later item =>
      item.States later place statement (listSize size items)) :
    Describes texts place (unlessEmpty items make) digest (listSizes size items) := by
  unfold unlessEmpty listSizes
  by_cases hitems : items.isEmpty
  · rw [if_pos hitems, if_pos hitems]
    apply interns_pure
    intro later
    rw [hnone (List.isEmpty_iff.1 hitems)]
    exact says_nil
  · rw [if_neg hitems, if_neg hitems, ← hsome (mt List.isEmpty_iff.2 hitems)]
    exact h.map (f := fun item => [item]) fun later item hitem => says_singleton hitem

theorem soleIndex_ofUInt16 (kind : AttributeKind) (index : UInt16) :
    Statement.soleIndex kind (Bytes.ofUInt16 index) = .ok index := by
  unfold Statement.soleIndex
  rw [if_pos (Bytes.length_ofUInt16 index), Bytes.toNat_ofUInt16, Nat.toUInt16_eq,
    UInt16.ofNat_toNat]

theorem decodeKind_annotations (place : AttributePlace) {pool : Pool} {visible : Bool}
    {body : Bytes} {items : List Annotation}
    (h : Annotation.decodeBody pool visible body = .ok items) :
    Statement.decodeKind pool body place (.annotations visible) = .ok (.annotations items) := by
  have hshared : Statement.annotations <$> Annotation.decodeBody pool visible body =
      .ok (.annotations items) :=
    map_eq_ok.2 ⟨_, h, rfl⟩
  cases place <;> cases visible <;> exact hshared

theorem decodeKind_typeAnnotations (place : AttributePlace) {pool : Pool} {visible : Bool}
    {body : Bytes} {items : List TypeAnnotation}
    (h : TypeAnnotation.decodeBody pool visible body = .ok items) :
    Statement.decodeKind pool body place (.typeAnnotations visible) =
      .ok (.typeAnnotations items) := by
  have hshared : Statement.typeAnnotations <$> TypeAnnotation.decodeBody pool visible body =
      .ok (.typeAnnotations items) :=
    map_eq_ok.2 ⟨_, h, rfl⟩
  cases place <;> cases visible <;> exact hshared

section Named

variable (hname : ∀ kind : AttributeKind, texts (.ofString kind.name))

include hname

theorem interns_ofIndex (place : AttributePlace) (kind : AttributeKind) {index : PoolM UInt16}
    {statement : Statement}
    (hindex : Interns texts index fun later index =>
      Statement.decodeKind later (Bytes.ofUInt16 index) place kind = .ok statement) :
    Interns texts (do ofIndex kind (← index)) fun later item =>
      item.States later place statement 2 := by
  refine hindex.bind fun index => (interns_named hname kind _).mono ?_
  rintro later item ⟨-, hitem⟩ hstatement
  exact hitem place statement hstatement

theorem writes_markerIf (place : AttributePlace) (wanted : Bool) (kind : AttributeKind)
    (statement : Statement)
    (h : ∀ pool, Statement.decodeKind pool [] place kind = .ok statement) :
    Describes texts place (markerIf wanted kind)
      (Statements.digest (if wanted then [statement] else [])) (if wanted then [0] else []) := by
  unfold markerIf
  cases wanted with
  | false =>
    apply interns_pure
    intro later
    exact says_nil
  | true =>
    exact (interns_named hname kind []).map (f := fun item => [item]) fun later item hitem =>
      says_singleton (hitem.2 place statement (h later))

theorem interns_signature (place : AttributePlace) {value : String} (h : texts (.ofString value)) :
    Interns texts (do ofIndex .signature (← Pool.addName value)) fun later item =>
      item.States later place (.signature value) 2 := by
  refine interns_ofIndex hname place .signature
    ((Pool.interns_addName h).mono fun later index hindex => ?_)
  have hshared : Statement.decodeShared later (Bytes.ofUInt16 index) .signature =
      .ok (.signature value) :=
    bind_eq_ok.2 ⟨index, soleIndex_ofUInt16 _ _,
      bind_eq_ok.2 ⟨value, mapError_eq_ok.2 hindex, rfl⟩⟩
  cases place <;> exact hshared

theorem writes_common (place : AttributePlace) {signature : Option String}
    (deprecated synthetic : Bool) (h : ∀ value ∈ signature, texts (.ofString value)) :
    Describes texts place (common signature deprecated synthetic)
      { signature, deprecated, synthetic } (commonSizes signature deprecated synthetic) := by
  have hsignature := writes_optional signature .signature (fun _ => 2) fun value hvalue =>
    interns_signature hname place (h value hvalue)
  have hdeprecated := writes_markerIf hname place deprecated .deprecated .deprecated
    fun _ => by cases place <;> rfl
  have hsynthetic := writes_markerIf hname place synthetic .synthetic .synthetic
    fun _ => by cases place <;> rfl
  refine hsignature.bind fun first => hdeprecated.bind fun second => hsynthetic.bind fun third => ?_
  apply interns_pure
  intro later hthird hsecond hfirst
  have hall := (hfirst.append hsecond).append hthird
  cases signature <;> cases deprecated <;> cases synthetic <;> exact hall

theorem writes_annotationsOf (place : AttributePlace) (visible : Bool) {items : List Annotation}
    (h : Annotation.ListWithin texts items) :
    Describes texts place (annotationsOf visible items)
      { annotations := items.filter (·.visible == visible) }
      (listSizes Annotation.writtenSize (items.filter (·.visible == visible))) := by
  have hbody := Annotation.interns_body visible (h.count visible)
    (fun item hitem => beq_iff_eq.1 (List.mem_filter.1 hitem).2)
    fun item hitem => h.items item (List.mem_filter.1 hitem).1
  have hattribute := interns_ofEncoded hname place (.annotations visible)
    (.annotations (items.filter (·.visible == visible)))
      (hbody.mono fun later body hbody => ⟨hbody.1, decodeKind_annotations place hbody.2⟩)
  exact writes_unlessEmpty _ (fun hnone => by rw [hnone])
    (fun _ => Statements.digest_annotations _) hattribute

theorem writes_annotations (place : AttributePlace) {items : List Annotation}
    (h : Annotation.ListWithin texts items) :
    Describes texts place (annotations items)
      { annotations := visibleFirst Annotation.visible items }
      (visibilitySizes Annotation.visible Annotation.writtenSize items) := by
  refine (writes_annotationsOf hname place true h).bind fun first => ?_
  refine (writes_annotationsOf hname place false h).bind fun second => ?_
  apply interns_pure
  intro later hsecond hfirst
  exact hfirst.append hsecond

theorem writes_typeAnnotationsOf (place : AttributePlace) (visible : Bool)
    {items : List TypeAnnotation}
    (h : TypeAnnotation.ListWithin texts items) :
    Describes texts place (typeAnnotationsOf visible items)
      { typeAnnotations := items.filter (·.visible == visible) }
      (listSizes TypeAnnotation.writtenSize (items.filter (·.visible == visible))) := by
  have hbody := TypeAnnotation.interns_body visible (h.count visible)
    (fun item hitem => beq_iff_eq.1 (List.mem_filter.1 hitem).2)
    fun item hitem => h.items item (List.mem_filter.1 hitem).1
  have hattribute := interns_ofEncoded hname place (.typeAnnotations visible)
    (.typeAnnotations (items.filter (·.visible == visible)))
      (hbody.mono fun later body hbody => ⟨hbody.1, decodeKind_typeAnnotations place hbody.2⟩)
  exact writes_unlessEmpty _ (fun hnone => by rw [hnone])
    (fun _ => Statements.digest_typeAnnotations _) hattribute

theorem writes_typeAnnotations (place : AttributePlace) {items : List TypeAnnotation}
    (h : TypeAnnotation.ListWithin texts items) :
    Describes texts place (typeAnnotations items)
      { typeAnnotations := visibleFirst TypeAnnotation.visible items }
      (visibilitySizes TypeAnnotation.visible TypeAnnotation.writtenSize items) := by
  refine (writes_typeAnnotationsOf hname place true h).bind fun first => ?_
  refine (writes_typeAnnotationsOf hname place false h).bind fun second => ?_
  apply interns_pure
  intro later hsecond hfirst
  exact hfirst.append hsecond

/-! ## Attributes of fields and methods -/

theorem writes_constantValue {value : Option ConstantValue}
    (h : ∀ found ∈ value, found.Within texts) :
    Describes texts .onField
      (optional value fun value => do ofIndex .constantValue (← value.add))
      { constantValue := value } (value.toList.map fun _ => 2) := by
  have hvalue := writes_optional value .constantValue (fun _ => 2) fun found hfound =>
    interns_ofIndex hname .onField .constantValue
      ((Pool.interns_addConstantValue (h found hfound)).mono fun later index hindex =>
        bind_eq_ok.2 ⟨index, soleIndex_ofUInt16 .constantValue _,
          bind_eq_ok.2 ⟨found, mapError_eq_ok.2 hindex, rfl⟩⟩)
  cases value <;> exact hvalue

theorem writes_exceptions {names : List String} (hcount : names.length ≤ 65535)
    (h : ∀ name ∈ names, NameWithin texts name) :
    Describes texts .onMethod (unlessEmpty names ofExceptions) { exceptions := names }
      (listSizes (fun _ => 2) names) := by
  have hbody := Writes.encodeList hcount fun name hmem =>
    writes_indexBytes ((Pool.interns_addClass (h name hmem)).mono fun _ _ hindex => hindex.2)
  have hattribute := interns_ofEncoded hname .onMethod .exceptions
    (.exceptions names) (hbody.mono fun later body hbody =>
      ⟨hbody.1, map_eq_ok.2 ⟨names, hbody.2.decode, rfl⟩⟩)
  exact writes_unlessEmpty _ (fun hnone => by rw [hnone])
    (fun _ => Statements.digest_exceptions _) hattribute

theorem writes_defaultValue {value : Option ElementValue}
    (h : ∀ found ∈ value, found.Within (.counted texts)) :
    Describes texts .onMethod
      (optional value fun value => ofEncoded .annotationDefault value.encode)
      { defaultValue := value } (value.toList.map ElementValue.writtenSize) := by
  have hvalue := writes_optional value .defaultValue ElementValue.writtenSize fun found hfound =>
    interns_ofEncoded hname .onMethod .annotationDefault (.defaultValue found)
      ((ElementValue.interns_body (h found hfound)).mono fun later body hbody =>
        ⟨hbody.1, map_eq_ok.2 ⟨found, hbody.2, rfl⟩⟩)
  cases value <;> exact hvalue

theorem writes_visibleParameters {table : Option ParameterTable}
    (h : ∀ found ∈ table, found.Within (.counted texts) true) :
    Describes texts .onMethod (parameterTable true table) { visibleParameters := table }
      (table.toList.map ParameterTable.writtenSize) := by
  have htable := writes_optional table .visibleParameters ParameterTable.writtenSize
    fun found hfound => interns_ofEncoded hname .onMethod (.parameterAnnotations true)
      (.visibleParameters found)
      ((ParameterTable.interns_body (h found hfound)).mono
        fun later body hbody => ⟨hbody.1, map_eq_ok.2 ⟨found, hbody.2, rfl⟩⟩)
  cases table <;> exact htable

theorem writes_invisibleParameters {table : Option ParameterTable}
    (h : ∀ found ∈ table, found.Within (.counted texts) false) :
    Describes texts .onMethod (parameterTable false table) { invisibleParameters := table }
      (table.toList.map ParameterTable.writtenSize) := by
  have htable := writes_optional table .invisibleParameters ParameterTable.writtenSize
    fun found hfound => interns_ofEncoded hname .onMethod (.parameterAnnotations false)
      (.invisibleParameters found)
      ((ParameterTable.interns_body (h found hfound)).mono
        fun later body hbody => ⟨hbody.1, map_eq_ok.2 ⟨found, hbody.2, rfl⟩⟩)
  cases table <;> exact htable

/-- A body is skipped when the class is read. -/
theorem writes_code (code : Option Code) :
    Describes texts .onMethod (optional code fun code => named .code code.toBytes) {}
      (code.toList.map fun code => code.toBytes.length) := by
  have hcode := writes_optional code (fun _ => .skipped) (fun code => code.toBytes.length)
    fun found _ => (interns_named hname .code found.toBytes).mono fun later item hitem =>
      hitem.2 .onMethod .skipped rfl
  cases code <;> exact hcode

/-! ## Attributes of classes -/

theorem writes_enclosing {link : Option EnclosingLink} (h : ∀ found ∈ link, found.Within texts) :
    Describes texts .onClass (optional link enclosing) { enclosing := link }
      (link.toList.map fun _ => 4) := by
  have hlink := writes_optional link .enclosing (fun _ => 4) fun found hfound =>
    interns_ofEncoded hname .onClass .enclosingMethod (.enclosing found)
      ((interns_enclosingBody (h found hfound)).mono
        fun later body hbody => ⟨hbody.1, map_eq_ok.2 ⟨found, hbody.2, rfl⟩⟩)
  cases link <;> exact hlink

theorem writes_nested {links : List NestedLink} (hcount : links.length ≤ 65535)
    (h : ∀ link ∈ links, link.Within texts) :
    Describes texts .onClass (unlessEmpty links nested)
      { nested := if links.isEmpty then none else some links } (listSizes (fun _ => 8) links) := by
  have hbody := Writes.encodeList hcount fun link hlink => writes_nestedLink (h link hlink)
  have hattribute := interns_ofEncoded hname .onClass .innerClasses
    (.nested links) (hbody.mono fun later body hbody =>
      ⟨hbody.1, map_eq_ok.2 ⟨links, hbody.2.decode, rfl⟩⟩)
  refine writes_unlessEmpty _ (fun hnone => ?_) (fun hsome => ?_) hattribute
  · rw [hnone]
    rfl
  · rw [if_neg (mt List.isEmpty_iff.1 hsome)]
    rfl

end Named

end Attribute

end ClassStub
