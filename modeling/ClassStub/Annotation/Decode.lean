import ClassStub.Annotation
import ClassStub.Decoder
import ClassStub.Pool

/-! # Reading annotations

The bodies of the annotation attributes, read against a constant pool. Element values nest, so that
every reader is given the one that reads the values inside. Each level of nesting takes three bytes
or more; the reader of values is therefore applied to itself a bounded number of times, and the
body's own length is bound enough. -/

namespace ClassStub

namespace ElementValue

/-- The error for nesting that has used up its bound, which no input reaches. -/
def nestingExhausted : Decoder ElementValue := fun cursor =>
  .error (.truncated cursor.offset 1)

/-- An index, and what is found there. -/
def decodeIndexed {α : Type} (find : UInt16 → Except PoolError α) : Decoder α := do
  Decoder.lookup (find (← Decoder.u2))

/-- Named values, each read by `value`, behind their number. -/
def decodePairs (pool : Pool) (value : Decoder ElementValue) : Decoder (List ElementPair) :=
  Decoder.counted do
    let name ← decodeIndexed pool.getName
    return (name, ← value)

/-- A value, where `inner` reads the values inside of it. -/
def decodeLevel (pool : Pool) (inner : Decoder ElementValue) : Decoder ElementValue := do
  let tag ← Decoder.u1
  match Char.ofNat tag.toNat with
  | 'B' => return .byte (← decodeIndexed pool.getInteger).toInt8
  | 'C' => return .char (← decodeIndexed pool.getInteger).toUInt32.toUInt16
  | 'S' => return .short (← decodeIndexed pool.getInteger).toInt16
  | 'Z' => return .boolean ((← decodeIndexed pool.getInteger) != 0)
  | 'I' => return .int (← decodeIndexed pool.getInteger)
  | 'J' => return .long (← decodeIndexed pool.getLong)
  | 'F' => return .float (← decodeIndexed pool.getFloat)
  | 'D' => return .double (← decodeIndexed pool.getDouble)
  | 's' => return .string (← decodeIndexed pool.getText)
  | 'e' => return .enumConstant (← decodeIndexed pool.getName) (← decodeIndexed pool.getName)
  | 'c' => return .classInfo (← decodeIndexed pool.getName)
  | '@' =>
    let descriptor ← decodeIndexed pool.getName
    return .nested descriptor (← decodePairs pool inner)
  | '[' => return .array (← Decoder.counted inner)
  | _ => Decoder.fail (.invalidElementTag tag)

/-- A value with at most `levels` levels of nesting. -/
def decodeWithin (pool : Pool) : Nat → Decoder ElementValue
  | 0 => nestingExhausted
  | levels + 1 => decodeLevel pool (decodeWithin pool levels)

/-- How many levels a value inside `body` may nest. -/
def levelBound (body : Bytes) : Nat :=
  body.length + 1

/-- The value at the start of `body`. -/
def decodeBody (pool : Pool) (body : Bytes) : Except FormatError ElementValue :=
  (decodeWithin pool (levelBound body)).decode body

end ElementValue

namespace Annotation

/-- An annotation, where `value` reads the values in it. -/
def decodeBy (pool : Pool) (visible : Bool) (value : Decoder ElementValue) :
    Decoder Annotation := do
  let descriptor ← ElementValue.decodeIndexed pool.getName
  let elements ← ElementValue.decodePairs pool value
  return { descriptor, visible, elements }

/-- An annotation whose values nest at most `levels` deep. -/
def decodeWithin (pool : Pool) (visible : Bool) (levels : Nat) : Decoder Annotation :=
  decodeBy pool visible (ElementValue.decodeWithin pool levels)

/-- The annotations in the body of an attribute. -/
def decodeBody (pool : Pool) (visible : Bool) (body : Bytes) :
    Except FormatError (List Annotation) :=
  (Decoder.counted (decodeWithin pool visible (ElementValue.levelBound body))).decode body

end Annotation

namespace ParameterTable

/-- The annotations of one parameter, where `value` reads the values in them. -/
def decodeParameter (pool : Pool) (visible : Bool) (value : Decoder ElementValue) :
    Decoder (CanonicalSet Annotation) := do
  return CanonicalSet.ofList (← Decoder.counted <| Annotation.decodeBy pool visible value)

/-- A table of parameter annotations, with the number of parameters in 8 bits. -/
def decodeBy (pool : Pool) (visible : Bool) (value : Decoder ElementValue) :
    Decoder ParameterTable := do
  let count ← Decoder.u1
  return ⟨← Decoder.replicate count.toNat (decodeParameter pool visible value)⟩

/-- The table in the body of an attribute. -/
def decodeBody (pool : Pool) (visible : Bool) (body : Bytes) :
    Except FormatError ParameterTable :=
  let value := ElementValue.decodeWithin pool (ElementValue.levelBound body)
  (decodeBy pool visible value).decode body

end ParameterTable

namespace Target

/-- The target that belongs to a target type. Targets inside of method bodies are refused. -/
def decode (targetType : UInt8) : Decoder Target :=
  match targetType with
  | 0x00 | 0x01 => return .typeParameter (← Decoder.u1)
  | 0x10 => return .supertype (← Decoder.u2)
  | 0x11 | 0x12 => return .typeParameterBound (← Decoder.u1) (← Decoder.u1)
  | 0x13 | 0x14 | 0x15 => return .empty
  | 0x16 => return .formalParameter (← Decoder.u1)
  | 0x17 => return .throws (← Decoder.u2)
  | _ => Decoder.fail (.invalidTargetType targetType)

end Target

/-- A path, with the number of steps in 8 bits. -/
def TypePath.decode : Decoder TypePath := do
  let length ← Decoder.u1
  return ⟨← Decoder.replicate length.toNat do return ⟨← Decoder.u1, ← Decoder.u1⟩⟩

namespace TypeAnnotation

/-- A type annotation, where `value` reads the values in it. -/
def decodeBy (pool : Pool) (visible : Bool) (value : Decoder ElementValue) :
    Decoder TypeAnnotation := do
  let targetType ← Decoder.u1
  let target ← Target.decode targetType
  let path ← TypePath.decode
  let content ← Annotation.decodeBy pool visible value
  return { targetType, target, path, content }

/-- A type annotation whose values nest at most `levels` deep. -/
def decodeWithin (pool : Pool) (visible : Bool) (levels : Nat) : Decoder TypeAnnotation :=
  decodeBy pool visible (ElementValue.decodeWithin pool levels)

/-- The type annotations in the body of an attribute. -/
def decodeBody (pool : Pool) (visible : Bool) (body : Bytes) :
    Except FormatError (List TypeAnnotation) :=
  (Decoder.counted (decodeWithin pool visible (ElementValue.levelBound body))).decode body

end TypeAnnotation

end ClassStub
