import ClassStub.ClassFile
import ClassStub.Verification.Pool

/-! # Verification of attributes

The attributes of the class itself: their names, how often they may appear, and the content of
those that link the class to others. The helpers that look at names serve fields and methods too. -/

namespace ClassStub

namespace Attribute

/-- The name of an attribute, if its index names one. -/
def name? (item : Attribute) (pool : Pool) : Option String :=
  (pool.getName item.name).toOption

/-- The kind of an attribute, if it is a known one. -/
def kind? (item : Attribute) (pool : Pool) : Option AttributeKind :=
  (item.name? pool).bind AttributeKind.ofName?

end Attribute

namespace Verification

/-- The first of `kinds` of which there is more than one attribute. -/
def duplicateKind? (pool : Pool) (kinds : List AttributeKind) (attributes : List Attribute) :
    Option AttributeKind :=
  let present := attributes.filterMap (·.kind? pool)
  kinds.find? fun kind => present.count kind > 1

/-- The 16-bit words in a row of bytes, behind those in `reversed`. -/
def wordsOnto (reversed : List UInt16) : Bytes → List UInt16
  | high :: low :: rest => wordsOnto ((Bytes.toNat [high, low]).toUInt16 :: reversed) rest
  | _ => reversed.reverse

/-- The 16-bit words in a row of bytes, without a byte left over. -/
def words (bytes : Bytes) : List UInt16 :=
  wordsOnto [] bytes

/-- The kinds of attributes that a class has at most once. -/
def uniqueOnClass : List AttributeKind :=
  [.signature, .deprecated, .synthetic, .enclosingMethod, .innerClasses, .visibleAnnotations,
    .invisibleAnnotations, .visibleTypeAnnotations, .invisibleTypeAnnotations]

/-- Nested links in groups of four words: class, outer class, simple name, access flags. -/
def nestedLinksValid (pool : Pool) : List UInt16 → Bool
  | name :: outer :: simple :: _access :: rest =>
    pool.has Constant.isClassRef name && pool.hasOptional Constant.isClassRef outer
      && pool.hasOptional Constant.isUtf8 simple && nestedLinksValid pool rest
  | _ => true

/-- The content of the attribute that lists nested links. -/
def innerClassesValid (pool : Pool) (body : Bytes) : Bool :=
  match words body with
  | count :: links => body.length == 2 + count.toNat * 8 && nestedLinksValid pool links
  | [] => false

/-- The content of the attribute that names the enclosing class and method. -/
def enclosingMethodValid (pool : Pool) (body : Bytes) : Bool :=
  match body.length == 4, words body with
  | true, [owner, method] =>
    pool.has Constant.isClassRef owner && pool.hasOptional Constant.isNameAndType method
  | _, _ => false

/-- One attribute of a class, whose name is known to be valid. -/
def verifyClassAttribute (pool : Pool) (item : Attribute) : Except AttributeFault Unit :=
  match item.kind? pool with
  | some .innerClasses =>
    if innerClassesValid pool item.body then .ok () else .error (.invalidContent .innerClasses)
  | some .enclosingMethod =>
    if enclosingMethodValid pool item.body then .ok ()
    else .error (.invalidContent .enclosingMethod)
  | some .code => .error (.misplaced .code)
  | some .constantValue => .error (.misplaced .constantValue)
  | some .exceptions => .error (.misplaced .exceptions)
  | some .annotationDefault => .error (.misplaced .annotationDefault)
  | _ => .ok ()

/-- The attribute has a name. -/
def verifyAttributeName (pool : Pool) (item : Attribute) : Except AttributeFault Unit :=
  if (item.name? pool).isSome then .ok () else .error (.invalidName item.name)

/-- The attributes of a class: the names of all attributes in the file, then repetitions, then
content. -/
def verifyAttributes (file : ClassFile) : Except AttributeFault Unit := do
  let ofMembers := (file.fields ++ file.methods).flatMap (·.attributes)
  (file.attributes ++ ofMembers).forM (verifyAttributeName file.pool)
  if let some kind := duplicateKind? file.pool uniqueOnClass file.attributes then
    throw (.duplicate kind)
  file.attributes.forM (verifyClassAttribute file.pool)

end Verification

end ClassStub
