import ClassStub.Ieee
import ClassStub.Text

/-! # Element values

The value of an annotation element: a number, a text, a name, or a tree of further values. Numbers
in floating point are bit patterns. Two notions of equality matter: `agrees` compares numbers as
numbers, and `key`, a form that no constant pool enters, tells apart all values that differ. -/

namespace ClassStub

/-- The value of an annotation element. -/
inductive ElementValue where
  | byte (value : Int8)
  | char (unit : UInt16)
  | double (bits : UInt64)
  | float (bits : UInt32)
  | int (value : Int32)
  | long (value : Int64)
  | short (value : Int16)
  | boolean (value : Bool)
  | string (text : JavaText)
  | enumConstant (typeDescriptor constantName : String)
  | classInfo (descriptor : String)
  | nested (descriptor : String) (elements : List (String × ElementValue))
  | array (values : List ElementValue)
  deriving Inhabited

/-- A named element of an annotation. -/
abbrev ElementPair := String × ElementValue

namespace ElementValue

/-- The letter that says which kind of value follows. -/
def tag : ElementValue → UInt8
  | byte _ => 'B'.toUInt8
  | char _ => 'C'.toUInt8
  | double _ => 'D'.toUInt8
  | float _ => 'F'.toUInt8
  | int _ => 'I'.toUInt8
  | long _ => 'J'.toUInt8
  | short _ => 'S'.toUInt8
  | boolean _ => 'Z'.toUInt8
  | string _ => 's'.toUInt8
  | enumConstant .. => 'e'.toUInt8
  | classInfo _ => 'c'.toUInt8
  | nested .. => '@'.toUInt8
  | array _ => '['.toUInt8

/-- The `int` that stands for a truth value. -/
def intOfBool (value : Bool) : Int32 :=
  if value then 1 else 0

/-- A length in 32 bits. -/
def lengthKey (length : Nat) : Bytes :=
  Bytes.ofUInt32 length.toUInt32

/-- A name behind its length in bytes. -/
def nameKey (name : String) : Bytes :=
  lengthKey name.utf8ByteSize ++ Bytes.ofString name

/-- A text behind its length in units. -/
def textKey (text : JavaText) : Bytes :=
  lengthKey text.units.length ++ text.units.flatMap Bytes.ofUInt16

mutual

/-- The canonical form of a value: its tag and its content, with names and texts written out. -/
def key (value : ElementValue) : Bytes :=
  value.tag :: match value with
    | byte value => Bytes.ofUInt32 value.toInt32.toUInt32
    | char unit => Bytes.ofUInt32 unit.toUInt32
    | double bits => Bytes.ofUInt64 bits
    | float bits => Bytes.ofUInt32 bits
    | int value => Bytes.ofUInt32 value.toUInt32
    | long value => Bytes.ofUInt64 value.toUInt64
    | short value => Bytes.ofUInt32 value.toInt32.toUInt32
    | boolean value => Bytes.ofUInt32 (intOfBool value).toUInt32
    | string text => textKey text
    | enumConstant typeDescriptor constantName => nameKey typeDescriptor ++ nameKey constantName
    | classInfo descriptor => nameKey descriptor
    | nested descriptor elements =>
      nameKey descriptor ++ (lengthKey elements.length ++ pairsKeyOnto [] elements)
    | array values => lengthKey values.length ++ valuesKeyOnto [] values

/-- The canonical forms of named values, behind those in `reversed`. -/
def pairsKeyOnto (reversed : List Bytes) : List ElementPair → Bytes
  | [] => reversed.reverse.flatten
  | (name, value) :: rest => pairsKeyOnto ((nameKey name ++ value.key) :: reversed) rest

/-- The canonical forms of values, behind those in `reversed`. -/
def valuesKeyOnto (reversed : List Bytes) : List ElementValue → Bytes
  | [] => reversed.reverse.flatten
  | value :: rest => valuesKeyOnto (value.key :: reversed) rest

end

mutual

/-- Whether two values are equal, with floating point numbers compared as numbers. -/
def agrees : ElementValue → ElementValue → Bool
  | byte a, byte b => a == b
  | char a, char b => a == b
  | double a, double b => Ieee.doubleEqual a b
  | float a, float b => Ieee.singleEqual a b
  | int a, int b => a == b
  | long a, long b => a == b
  | short a, short b => a == b
  | boolean a, boolean b => a == b
  | string a, string b => a == b
  | enumConstant typeA nameA, enumConstant typeB nameB => typeA == typeB && nameA == nameB
  | classInfo a, classInfo b => a == b
  | nested descriptorA elementsA, nested descriptorB elementsB =>
    descriptorA == descriptorB && pairsAgree elementsA elementsB
  | array a, array b => valuesAgree a b
  | _, _ => false

/-- Whether two lists of named values are equal. -/
def pairsAgree : List ElementPair → List ElementPair → Bool
  | [], [] => true
  | (nameA, a) :: restA, (nameB, b) :: restB =>
    nameA == nameB && a.agrees b && pairsAgree restA restB
  | _, _ => false

/-- Whether two lists of values are equal. -/
def valuesAgree : List ElementValue → List ElementValue → Bool
  | [], [] => true
  | a :: restA, b :: restB => a.agrees b && valuesAgree restA restB
  | _, _ => false

end

/-- The canonical form of the elements of an annotation. -/
def elementsKey (elements : List ElementPair) : Bytes :=
  lengthKey elements.length ++ pairsKeyOnto [] elements

end ElementValue

end ClassStub
