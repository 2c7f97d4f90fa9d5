import ClassStub.Annotation.Decode
import ClassStub.ClassFile
import ClassStub.Event

/-! # What a class file says

The attributes of a class file are decoded against its pool into what they say; the header, the
links, the annotations and the members of the class are then read off. Of the attributes that say
one thing, the last counts; lists of annotations and exceptions add up; attributes that are not
known at their place are skipped. `ClassFile.replay` tells all this to a consumer, and decodes a
member only when its turn comes. -/

namespace ClassStub

/-- What one attribute says. -/
inductive Statement where
  | signature (value : String)
  | deprecated
  | synthetic
  | annotations (items : List Annotation)
  | typeAnnotations (items : List TypeAnnotation)
  | enclosing (link : EnclosingLink)
  | nested (links : List NestedLink)
  | constantValue (value : ConstantValue)
  | exceptions (names : List String)
  | visibleParameters (table : ParameterTable)
  | invisibleParameters (table : ParameterTable)
  | defaultValue (value : ElementValue)
  | skipped

/-- Where an attribute stands. -/
inductive AttributePlace where
  | onClass
  | onField
  | onMethod
  deriving DecidableEq, Repr

namespace Statement

/-- The result of a pool look-up as a result of decoding. -/
def resolve {α : Type} (result : Except PoolError α) : Except FormatError α :=
  result.mapError .pool

/-- The index in a body that consists of nothing else. -/
def soleIndex (kind : AttributeKind) (body : Bytes) : Except FormatError UInt16 :=
  if body.length = 2 then .ok (Bytes.toNat body).toUInt16
  else .error (.indexAttributeSize kind body.length)

/-- The enclosing class, and its method unless the index of that is 0. -/
def decodeEnclosing (pool : Pool) : Decoder EnclosingLink := do
  let owner ← ElementValue.decodeIndexed pool.getClassName
  let method ← Decoder.u2
  if method = 0 then return { owner }
  else
    let (name, descriptor) ← Decoder.lookup (pool.getNameAndType method)
    return { owner, methodName := some name, methodDescriptor := some descriptor }

/-- One nested link. -/
def decodeNested (pool : Pool) : Decoder NestedLink := do
  let name ← ElementValue.decodeIndexed pool.getClassName
  let outerName ← ElementValue.decodeIndexed pool.getOptionalClassName
  let simpleName ← ElementValue.decodeIndexed pool.getOptionalName
  let access ← Decoder.u2
  return { name, outerName, simpleName, access := ⟨access⟩ }

/-- The constant with which a field is initialised. -/
def findConstantValue (pool : Pool) (index : UInt16) : Except PoolError ConstantValue := do
  match ← pool.get index with
  | .integer value => return .int value
  | .float bits => return .float bits
  | .long value => return .long value
  | .double bits => return .double bits
  | .string text => return .string (← pool.getText text)
  | _ => throw (.unexpectedKind index .constantValue)

/-- The attributes that have the same meaning everywhere. -/
def decodeShared (pool : Pool) (body : Bytes) : AttributeKind → Except FormatError Statement
  | .signature => do
    let index ← soleIndex .signature body
    return .signature (← resolve (pool.getName index))
  | .deprecated => .ok .deprecated
  | .synthetic => .ok .synthetic
  | .visibleAnnotations => .annotations <$> Annotation.decodeBody pool true body
  | .invisibleAnnotations => .annotations <$> Annotation.decodeBody pool false body
  | .visibleTypeAnnotations => .typeAnnotations <$> TypeAnnotation.decodeBody pool true body
  | .invisibleTypeAnnotations => .typeAnnotations <$> TypeAnnotation.decodeBody pool false body
  | _ => .ok .skipped

/-- An attribute of a known kind, by its place. -/
def decodeKind (pool : Pool) (body : Bytes) :
    AttributePlace → AttributeKind → Except FormatError Statement
  | .onClass, .enclosingMethod => .enclosing <$> (decodeEnclosing pool).decode body
  | .onClass, .innerClasses => .nested <$> (Decoder.counted (decodeNested pool)).decode body
  | .onField, .constantValue => do
    let index ← soleIndex .constantValue body
    return .constantValue (← resolve (findConstantValue pool index))
  | .onMethod, .exceptions =>
    .exceptions <$>
      (Decoder.counted (ElementValue.decodeIndexed pool.getClassName)).decode body
  | .onMethod, .visibleParameterAnnotations =>
    .visibleParameters <$> ParameterTable.decodeBody pool true body
  | .onMethod, .invisibleParameterAnnotations =>
    .invisibleParameters <$> ParameterTable.decodeBody pool false body
  | .onMethod, .annotationDefault => .defaultValue <$> ElementValue.decodeBody pool body
  | _, kind => decodeShared pool body kind

/-- What an attribute says at its place. -/
def decode (pool : Pool) (place : AttributePlace) (item : Attribute) :
    Except FormatError Statement := do
  match AttributeKind.ofName? (← resolve (pool.getName item.name)) with
  | some kind => decodeKind pool item.body place kind
  | none => .ok .skipped

/-- What a list of attributes says. -/
def decodeAll (pool : Pool) (place : AttributePlace) (attributes : List Attribute) :
    Except FormatError (List Statement) :=
  attributes.mapM (decode pool place)

end Statement

/-- What the attributes of one class or member say. -/
abbrev Statements := List Statement

namespace Statements

/-- The last of the values that `select` finds. -/
def last? {α : Type} (statements : Statements) (select : Statement → Option α) : Option α :=
  (statements.filterMap select).getLast?

/-- The signature, if there is one. -/
def signature (statements : Statements) : Option String :=
  statements.last? fun | .signature value => some value | _ => none

/-- Whether something is deprecated. -/
def deprecated (statements : Statements) : Bool :=
  statements.any fun | .deprecated => true | _ => false

/-- Whether something is synthetic. -/
def synthetic (statements : Statements) : Bool :=
  statements.any fun | .synthetic => true | _ => false

/-- All annotations, in order. -/
def annotations (statements : Statements) : List Annotation :=
  statements.flatMap fun | .annotations items => items | _ => []

/-- All type annotations, in order. -/
def typeAnnotations (statements : Statements) : List TypeAnnotation :=
  statements.flatMap fun | .typeAnnotations items => items | _ => []

/-- The enclosing link, if there is one. -/
def enclosing (statements : Statements) : Option EnclosingLink :=
  statements.last? fun | .enclosing link => some link | _ => none

/-- The nested links. -/
def nested (statements : Statements) : List NestedLink :=
  (statements.last? fun | .nested links => some links | _ => none).getD []

/-- The constant value, if there is one. -/
def constantValue (statements : Statements) : Option ConstantValue :=
  statements.last? fun | .constantValue value => some value | _ => none

/-- All declared exceptions, in order. -/
def exceptions (statements : Statements) : List String :=
  statements.flatMap fun | .exceptions names => names | _ => []

/-- The table of visible parameter annotations, if there is one. -/
def visibleParameters (statements : Statements) : Option ParameterTable :=
  statements.last? fun | .visibleParameters table => some table | _ => none

/-- The table of invisible parameter annotations, if there is one. -/
def invisibleParameters (statements : Statements) : Option ParameterTable :=
  statements.last? fun | .invisibleParameters table => some table | _ => none

/-- The default value, if there is one. -/
def defaultValue (statements : Statements) : Option ElementValue :=
  statements.last? fun | .defaultValue value => some value | _ => none

end Statements

namespace ClassFile

open Statement (resolve)

/-- What the attributes of the class say. -/
def statements (file : ClassFile) : Except FormatError Statements :=
  Statement.decodeAll file.pool .onClass file.attributes

/-- The events for the class itself, which come before those for its members. -/
def frontEvents (file : ClassFile) : Except FormatError (List ClassEvent) := do
  let name ← resolve file.className
  let statements ← file.statements
  let interfaces ← resolve (file.interfaces.mapM file.pool.getClassName)
  let superName ← resolve (file.pool.getOptionalClassName file.superClass)
  let header : ClassHeader :=
    { version := file.version
      access := file.access
      name
      signature := statements.signature
      superName
      interfaces
      deprecated := statements.deprecated
      synthetic := statements.synthetic }
  return .header header :: (statements.enclosing.toList.map .enclosing
    ++ statements.annotations.map .annotated
    ++ statements.typeAnnotations.map .typeAnnotated
    ++ statements.nested.map .nested)

/-- A field of the class. -/
def decodeField (file : ClassFile) (member : Member) : Except FormatError Field := do
  let name ← resolve (file.pool.getName member.name)
  let descriptor ← resolve (file.pool.getName member.descriptor)
  let statements : Statements ← Statement.decodeAll file.pool .onField member.attributes
  return {
    access := member.access
    name
    descriptor
    signature := statements.signature
    value := statements.constantValue
    annotations := .ofList statements.annotations
    typeAnnotations := .ofList statements.typeAnnotations
    deprecated := statements.deprecated
    synthetic := statements.synthetic }

/-- A method of the class. -/
def decodeMethod (file : ClassFile) (member : Member) : Except FormatError Method := do
  let name ← resolve (file.pool.getName member.name)
  let descriptor ← resolve (file.pool.getName member.descriptor)
  let statements : Statements ← Statement.decodeAll file.pool .onMethod member.attributes
  return {
    access := member.access
    name
    descriptor
    signature := statements.signature
    exceptions := statements.exceptions
    annotations := .ofList statements.annotations
    typeAnnotations := .ofList statements.typeAnnotations
    visibleParameters := statements.visibleParameters
    invisibleParameters := statements.invisibleParameters
    defaultValue := statements.defaultValue
    deprecated := statements.deprecated
    synthetic := statements.synthetic }

/-- Tell a consumer about the class: its header, its enclosing link, its annotations, its type
annotations, its nested links, its fields, its methods, and a closing event. -/
def replay {σ : Type} (file : ClassFile) (visit : Consumer σ) : Run σ Unit := do
  (← Run.ofDecoded file.frontEvents).forM visit
  file.fields.forM fun member => do
    visit (.field (← Run.ofDecoded (file.decodeField member)))
  file.methods.forM fun member => do
    visit (.method (← Run.ofDecoded (file.decodeMethod member)))
  visit .finish

end ClassFile

end ClassStub
