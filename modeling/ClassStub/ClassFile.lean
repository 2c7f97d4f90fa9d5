import ClassStub.Access
import ClassStub.Member
import ClassStub.Pool.Codec

/-! # Class files

The container format: a constant pool and, in terms of its indexes, the class, its members and
their attributes. Attribute bodies are left as bytes. `toBytes` writes a class file and `parse`
reads one; a class file that was read has an unshared pool, and nothing may follow it. -/

namespace ClassStub

/-- An attribute: the index of its name, and its body. -/
structure Attribute where
  name : UInt16
  body : Bytes
  deriving DecidableEq, Repr, Inhabited

/-- A field or a method as it stands in a class file. -/
structure Member where
  access : AccessFlags
  name : UInt16
  descriptor : UInt16
  attributes : List Attribute
  deriving DecidableEq, Repr, Inhabited

/-- A class file. -/
structure ClassFile where
  magic : UInt32
  version : ClassVersion
  pool : Pool
  access : AccessFlags
  thisClass : UInt16
  superClass : UInt16
  interfaces : List UInt16
  fields : List Member
  methods : List Member
  attributes : List Attribute
  deriving Inhabited

namespace Bytes

/-- A list behind its length in 16 bits. -/
def ofList {α : Type} (write : α → Bytes) (items : List α) : Bytes :=
  ofUInt16 items.length.toUInt16 ++ items.flatMap write

end Bytes

namespace Attribute

/-- The written form of an attribute: its name, the length of its body in 32 bits, and the body. -/
def toBytes (item : Attribute) : Bytes :=
  Bytes.ofUInt16 item.name ++ (Bytes.ofUInt32 item.body.length.toUInt32 ++ item.body)

/-- Read an attribute. -/
def decode : Decoder Attribute := do
  let name ← Decoder.u2
  let length ← Decoder.u4
  let body ← Decoder.bytes length.toNat
  return { name, body }

end Attribute

namespace Member

/-- The written form of a member. -/
def toBytes (member : Member) : Bytes :=
  Bytes.ofUInt16 member.access.bits
    ++ (Bytes.ofUInt16 member.name
      ++ (Bytes.ofUInt16 member.descriptor ++ Bytes.ofList Attribute.toBytes member.attributes))

/-- Read a member. -/
def decode : Decoder Member := do
  let access ← Decoder.u2
  let name ← Decoder.u2
  let descriptor ← Decoder.u2
  let attributes ← Decoder.counted Attribute.decode
  return { access := ⟨access⟩, name, descriptor, attributes }

end Member

namespace ClassFile

/-- The word with which every class file begins. -/
def standardMagic : UInt32 := 0xCAFEBABE

/-- The written form of a class file. -/
def toBytes (file : ClassFile) : Bytes :=
  Bytes.ofUInt32 file.magic
    ++ (Bytes.ofUInt16 file.version.minor
      ++ (Bytes.ofUInt16 file.version.major
        ++ (file.pool.toBytes
          ++ (Bytes.ofUInt16 file.access.bits
            ++ (Bytes.ofUInt16 file.thisClass
              ++ (Bytes.ofUInt16 file.superClass
                ++ (Bytes.ofList Bytes.ofUInt16 file.interfaces
                  ++ (Bytes.ofList Member.toBytes file.fields
                    ++ (Bytes.ofList Member.toBytes file.methods
                      ++ Bytes.ofList Attribute.toBytes file.attributes)))))))))

/-- Read the magic word. -/
def decodeMagic : Decoder UInt32 := do
  let magic ← Decoder.u4
  if magic = standardMagic then return magic else Decoder.fail (.badMagic magic)

/-- Read a class file. -/
def decode : Decoder ClassFile := do
  let magic ← decodeMagic
  let minor ← Decoder.u2
  let major ← Decoder.u2
  let pool ← Pool.decode
  let access ← Decoder.u2
  let thisClass ← Decoder.u2
  let superClass ← Decoder.u2
  let interfaces ← Decoder.counted Decoder.u2
  let fields ← Decoder.counted Member.decode
  let methods ← Decoder.counted Member.decode
  let attributes ← Decoder.counted Attribute.decode
  return {
    magic
    version := ⟨major, minor⟩
    pool
    access := ⟨access⟩
    thisClass
    superClass
    interfaces
    fields
    methods
    attributes }

/-- The class file that `bytes` hold, without anything behind it. -/
def parse (bytes : Bytes) : Except FormatError ClassFile := do
  let (file, final) ← decode (.start bytes)
  match final.rest with
  | [] => return file
  | rest => throw (.trailingBytes rest.length)

/-- The name of the class. -/
def className (file : ClassFile) : Except PoolError String :=
  file.pool.getClassName file.thisClass

end ClassFile

end ClassStub
