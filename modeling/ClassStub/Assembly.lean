import ClassStub.Annotation.Encode
import ClassStub.ClassFile
import ClassStub.Code
import ClassStub.Event

/-! # Assembling class files

An `Assembly` is a consumer of class events that builds a class file. Members and links are written
in the order in which they arrive, and constants are added to the pool when they are first needed,
so equal streams of events give equal bytes. The attributes of the class itself are written when
the closing event arrives.

An event that fails keeps what it had already done: constants stay in the pool, and a header that
fails keeps its version, its access flags, the class indexes that it found and the interfaces that
it listed. -/

namespace ClassStub

/-- The written form of a nested link; index 0 stands for an absent name. -/
def NestedLink.encode (link : NestedLink) : PoolM Bytes := do
  let name ← ElementValue.indexBytes (Pool.addClass link.name)
  let outer ← ElementValue.indexBytes (Pool.addOptionalClass link.outerName)
  let simple ← ElementValue.indexBytes (Pool.addOptionalName link.simpleName)
  return name ++ (outer ++ (simple ++ Bytes.ofUInt16 link.access.bits))

namespace Attribute

/-- An attribute of a known kind; its name is added to the pool. -/
def named (kind : AttributeKind) (body : Bytes) : PoolM Attribute := do
  return { name := ← Pool.addName kind.name, body }

/-- An attribute whose body is one index. -/
def ofIndex (kind : AttributeKind) (index : UInt16) : PoolM Attribute :=
  named kind (Bytes.ofUInt16 index)

/-- An attribute with a body that is written against the pool before its name is added. -/
def ofEncoded (kind : AttributeKind) (body : PoolM Bytes) : PoolM Attribute := do
  named kind (← body)

/-- An attribute without a body. -/
def marker (kind : AttributeKind) : PoolM Attribute :=
  named kind []

/-- The declared exceptions of a method. -/
def ofExceptions (names : List String) : PoolM Attribute :=
  ofEncoded .exceptions <|
    encodeList (fun name => ElementValue.indexBytes (Pool.addClass name)) names

/-- The attribute for a value, if there is one. -/
def optional {α : Type} (value : Option α) (make : α → PoolM Attribute) :
    PoolM (List Attribute) :=
  match value with
  | some value => return [← make value]
  | none => return []

/-- The attribute for items, if there are any. -/
def unlessEmpty {α : Type} (items : List α) (make : List α → PoolM Attribute) :
    PoolM (List Attribute) :=
  if items.isEmpty then return [] else return [← make items]

/-- A marker, if it is wanted. -/
def markerIf (wanted : Bool) (kind : AttributeKind) : PoolM (List Attribute) :=
  if wanted then return [← marker kind] else return []

/-- Signature and markers, which classes, fields and methods have alike. -/
def common (signature : Option String) (deprecated synthetic : Bool) :
    PoolM (List Attribute) := do
  let signature ← optional signature fun text => do ofIndex .signature (← Pool.addName text)
  let deprecated ← markerIf deprecated .deprecated
  let synthetic ← markerIf synthetic .synthetic
  return signature ++ deprecated ++ synthetic

/-- The annotations of one visibility. -/
def annotationsOf (visible : Bool) (items : List Annotation) : PoolM (List Attribute) :=
  unlessEmpty (items.filter (·.visible == visible)) fun items =>
    ofEncoded (.annotations visible) (encodeList Annotation.encode items)

/-- Annotations, the visible ones first. -/
def annotations (items : List Annotation) : PoolM (List Attribute) := do
  let visible ← annotationsOf true items
  return visible ++ (← annotationsOf false items)

/-- The type annotations of one visibility. -/
def typeAnnotationsOf (visible : Bool) (items : List TypeAnnotation) :
    PoolM (List Attribute) :=
  unlessEmpty (items.filter (·.visible == visible)) fun items =>
    ofEncoded (.typeAnnotations visible) (encodeList TypeAnnotation.encode items)

/-- Type annotations, the visible ones first. -/
def typeAnnotations (items : List TypeAnnotation) : PoolM (List Attribute) := do
  let visible ← typeAnnotationsOf true items
  return visible ++ (← typeAnnotationsOf false items)

/-- The parameter annotations of one visibility. -/
def parameterTable (visible : Bool) (table : Option ParameterTable) : PoolM (List Attribute) :=
  optional table fun table => ofEncoded (.parameterAnnotations visible) table.encode

/-- The enclosing class, and its method if both its name and its descriptor are given. -/
def enclosing (link : EnclosingLink) : PoolM Attribute :=
  ofEncoded .enclosingMethod do
    let owner ← ElementValue.indexBytes (Pool.addClass link.owner)
    let method ← ElementValue.indexBytes <|
      match link.methodName, link.methodDescriptor with
      | some name, some descriptor => Pool.addNameAndType name descriptor
      | _, _ => pure 0
    return owner ++ method

/-- The nested links of a class. -/
def nested (links : List NestedLink) : PoolM Attribute :=
  ofEncoded .innerClasses (encodeList NestedLink.encode links)

end Attribute

/-- Add the constant that initialises a field. -/
def ConstantValue.add : ConstantValue → PoolM UInt16
  | int value => Pool.addInteger value
  | float bits => Pool.addFloat bits
  | long value => Pool.addLong value
  | double bits => Pool.addDouble bits
  | string text => Pool.addString text

/-- A field in terms of the pool. -/
def Field.encode (field : Field) : PoolM Member := do
  let name ← Pool.addName field.name
  let descriptor ← Pool.addName field.descriptor
  let value ← Attribute.optional field.value fun value => do
    Attribute.ofIndex .constantValue (← value.add)
  let common ← Attribute.common field.signature field.deprecated field.synthetic
  let annotations ← Attribute.annotations field.annotations.toList
  let typeAnnotations ← Attribute.typeAnnotations field.typeAnnotations.toList
  return {
    access := field.access
    name
    descriptor
    attributes := value ++ common ++ annotations ++ typeAnnotations }

/-- A method in terms of the pool, with the body that stubs of the given style have. -/
def Method.encode (method : Method) (style : BodyStyle) : PoolM Member := do
  let name ← Pool.addName method.name
  let descriptor ← Pool.addName method.descriptor
  let code ← Attribute.optional (method.stubCode style) fun code =>
    Attribute.named .code code.toBytes
  let exceptions ← Attribute.unlessEmpty method.exceptions Attribute.ofExceptions
  let common ← Attribute.common method.signature method.deprecated method.synthetic
  let default ← Attribute.optional method.defaultValue fun value =>
    Attribute.ofEncoded .annotationDefault value.encode
  let annotations ← Attribute.annotations method.annotations.toList
  let visible ← Attribute.parameterTable true method.visibleParameters
  let invisible ← Attribute.parameterTable false method.invisibleParameters
  let typeAnnotations ← Attribute.typeAnnotations method.typeAnnotations.toList
  return {
    access := method.access
    name
    descriptor
    attributes := code ++ exceptions ++ common ++ default ++ annotations ++ visible ++ invisible
      ++ typeAnnotations }

/-- A class file in the making. -/
structure Assembly where
  bodies : BodyStyle
  pool : Pool := .empty
  version : ClassVersion := .java8
  access : AccessFlags := ⟨0⟩
  thisClass : UInt16 := 0
  superClass : UInt16 := 0
  interfaces : Array UInt16 := #[]
  fields : Array Member := #[]
  methods : Array Member := #[]
  attributes : List Attribute := []
  /-- The header, once it was accepted. -/
  header : Option ClassHeader := none
  enclosing : Option EnclosingLink := none
  annotations : Array Annotation := #[]
  typeAnnotations : Array TypeAnnotation := #[]
  nested : Array NestedLink := #[]
  /-- Whether the closing event was accepted. -/
  finished : Bool := false

namespace Assembly

/-- Add constants to the pool of the assembly. The pool is taken out for as long as that lasts, so
that it is changed in place. -/
def interning {α : Type} (action : PoolM α) : Run Assembly α := fun assembly =>
  let pool := assembly.pool
  let rest := { assembly with pool := .empty }
  match action pool with
  | .ok value pool => .ok value { rest with pool }
  | .error cause pool => .error (.generation (.pool cause)) { rest with pool }

/-- Every event but the header needs a header before it and no closing event. -/
def requireOpen (kind : EventKind) : Run Assembly Unit := do
  let assembly ← get
  if assembly.header.isNone then Run.refuse (.beforeHeader kind)
  else if assembly.finished then Run.refuse (.afterFinish kind)

/-- Refuse more parts than 16 bits can count. -/
def checkCount (part : CountedPart) (count : Nat) : Except GenerationError Unit :=
  if count > 65535 then .error (.tooMany part count) else .ok ()

/-- Take the header. -/
def visitHeader (header : ClassHeader) : Run Assembly Unit := do
  if (← get).header.isSome then Run.refuse (.secondHeader header.name)
  modify fun assembly => { assembly with version := header.version, access := header.access }
  let thisClass ← interning (Pool.addClass header.name)
  modify fun assembly => { assembly with thisClass }
  let superClass ← interning (Pool.addOptionalClass header.superName)
  modify fun assembly => { assembly with superClass }
  header.interfaces.forM fun name => do
    let index ← interning (Pool.addClass name)
    modify fun assembly => { assembly with interfaces := assembly.interfaces.push index }
  modify fun assembly => { assembly with header := some header }

/-- Take a field. -/
def visitField (field : Field) : Run Assembly Unit := do
  let member ← interning field.encode
  modify fun assembly => { assembly with fields := assembly.fields.push member }

/-- Take a method. -/
def visitMethod (method : Method) : Run Assembly Unit := do
  let member ← interning (method.encode (← get).bodies)
  modify fun assembly => { assembly with methods := assembly.methods.push member }

/-- The signature and the markers of the class. -/
def commonAttributes : Option ClassHeader → PoolM (List Attribute)
  | some header => Attribute.common header.signature header.deprecated header.synthetic
  | none => return []

/-- The nested links of the class, unless there are none or too many of them. -/
def nestedAttribute (links : List NestedLink) : Run Assembly (List Attribute) := do
  match checkCount .innerClasses links.length with
  | .ok () => interning (Attribute.unlessEmpty links Attribute.nested)
  | .error cause => throw (.generation cause)

/-- Take the closing event: write the attributes of the class. -/
def visitFinish : Run Assembly Unit := do
  let common ← interning (commonAttributes (← get).header)
  let enclosing ← interning (Attribute.optional (← get).enclosing Attribute.enclosing)
  let nested ← nestedAttribute (← get).nested.toList
  let annotations ← interning (Attribute.annotations (← get).annotations.toList)
  let typeAnnotations ← interning (Attribute.typeAnnotations (← get).typeAnnotations.toList)
  modify fun assembly => { assembly with
    attributes := common ++ enclosing ++ nested ++ annotations ++ typeAnnotations
    finished := true }

/-- Take one event. -/
def visit : Consumer Assembly
  | .header header => visitHeader header
  | event => do
    requireOpen event.kind
    match event with
    | .header _ => return
    | .enclosing link => modify fun assembly => { assembly with enclosing := some link }
    | .annotated item =>
      modify fun assembly => { assembly with annotations := assembly.annotations.push item }
    | .typeAnnotated item =>
      modify fun assembly =>
        { assembly with typeAnnotations := assembly.typeAnnotations.push item }
    | .nested link => modify fun assembly => { assembly with nested := assembly.nested.push link }
    | .field field => visitField field
    | .method method => visitMethod method
    | .finish => visitFinish

/-- An assembly that has seen no event. -/
def start (bodies : BodyStyle) : Assembly :=
  { bodies }

/-- The parts of an assembly that a class file counts in 16 bits are not too many. -/
def checkCounts (assembly : Assembly) : Except GenerationError Unit := do
  checkCount .interfaces assembly.interfaces.size
  checkCount .fields assembly.fields.size
  checkCount .methods assembly.methods.size
  checkCount .innerClasses assembly.nested.size

/-- The class file as far as it was built. -/
def build (assembly : Assembly) : ClassFile where
  magic := ClassFile.standardMagic
  version := assembly.version
  pool := assembly.pool
  access := assembly.access
  thisClass := assembly.thisClass
  superClass := assembly.superClass
  interfaces := assembly.interfaces.toList
  fields := assembly.fields.toList
  methods := assembly.methods.toList
  attributes := assembly.attributes

/-- The finished class file. -/
def toClassFile (assembly : Assembly) : Except StubError ClassFile := do
  if assembly.header.isNone then throw (.protocol .fileBeforeHeader)
  if !assembly.finished then throw (.protocol .fileBeforeFinish)
  assembly.checkCounts.mapError .generation
  return assembly.build

end Assembly

end ClassStub
