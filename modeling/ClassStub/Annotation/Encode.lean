import ClassStub.Annotation
import ClassStub.Pool

/-! # Writing annotations

The bodies of the annotation attributes. Names and constants are added to the pool in the order in
which their indexes are written. Lengths lose the bits that do not fit their field. -/

namespace ClassStub

/-- A length in 16 bits. -/
def Bytes.ofLength (length : Nat) : Bytes :=
  ofUInt16 length.toUInt16

namespace ElementValue

/-- The written form of an index that is yet to be found. -/
def indexBytes (index : PoolM UInt16) : PoolM Bytes :=
  Bytes.ofUInt16 <$> index

mutual

/-- The written form of a value. -/
def encode (value : ElementValue) : PoolM Bytes :=
  List.cons value.tag <$> match value with
    | byte value => indexBytes (Pool.addInteger value.toInt32)
    | char unit => indexBytes (Pool.addInteger unit.toUInt32.toInt32)
    | double bits => indexBytes (Pool.addDouble bits)
    | float bits => indexBytes (Pool.addFloat bits)
    | int value => indexBytes (Pool.addInteger value)
    | long value => indexBytes (Pool.addLong value)
    | short value => indexBytes (Pool.addInteger value.toInt32)
    | boolean value => indexBytes (Pool.addInteger (intOfBool value))
    | string text => indexBytes (Pool.addText text)
    | enumConstant typeDescriptor constantName => do
      let type ← indexBytes (Pool.addName typeDescriptor)
      return type ++ (← indexBytes (Pool.addName constantName))
    | classInfo descriptor => indexBytes (Pool.addName descriptor)
    | nested descriptor elements => do
      let descriptor ← indexBytes (Pool.addName descriptor)
      return descriptor ++ (Bytes.ofLength elements.length ++ (← encodePairsOnto [] elements))
    | array values => do
      return Bytes.ofLength values.length ++ (← encodeValuesOnto [] values)

/-- The written forms of named values, behind those in `reversed`. -/
def encodePairsOnto (reversed : List Bytes) : List ElementPair → PoolM Bytes
  | [] => return reversed.reverse.flatten
  | (name, value) :: rest => do
    let name ← indexBytes (Pool.addName name)
    let value ← value.encode
    encodePairsOnto ((name ++ value) :: reversed) rest

/-- The written forms of values, behind those in `reversed`. -/
def encodeValuesOnto (reversed : List Bytes) : List ElementValue → PoolM Bytes
  | [] => return reversed.reverse.flatten
  | value :: rest => do
    let value ← value.encode
    encodeValuesOnto (value :: reversed) rest

end

end ElementValue

/-- The written forms of items, behind their number in 16 bits. -/
def encodeList {α : Type} (encode : α → PoolM Bytes) (items : List α) : PoolM Bytes := do
  return Bytes.ofLength items.length ++ (← items.mapM encode).flatten

/-- The written form of an annotation, which does not say whether it is visible. -/
def Annotation.encode (item : Annotation) : PoolM Bytes := do
  let descriptor ← ElementValue.indexBytes (Pool.addName item.descriptor)
  return descriptor ++ (Bytes.ofLength item.elements.length
    ++ (← ElementValue.encodePairsOnto [] item.elements))

/-- The written form of a type annotation. -/
def TypeAnnotation.encode (item : TypeAnnotation) : PoolM Bytes := do
  return item.siteBytes ++ (← item.content.encode)

/-- The written form of a parameter table, with the number of parameters in 8 bits. -/
def ParameterTable.encode (table : ParameterTable) : PoolM Bytes := do
  let parameters ← table.parameters.mapM fun set => encodeList Annotation.encode set.toList
  return table.parameters.length.toUInt8 :: parameters.flatten

end ClassStub
