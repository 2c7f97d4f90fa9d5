import ClassStub.Bytes
import ClassStub.Config
import ClassStub.Descriptor
import ClassStub.Member

/-! # Method bodies -/

namespace ClassStub

/-- A method body without exception handlers and without attributes of its own. -/
structure Code where
  maxStack : UInt16
  maxLocals : UInt16
  instructions : Bytes
  deriving DecidableEq, Repr, Inhabited

namespace Code

/-- The instructions `aconst_null` and `athrow`. They have no branch, so the body needs no stack
map. -/
def throwNull (maxLocals : UInt16) : Code :=
  { maxStack := 1, maxLocals, instructions := [0x01, 0xBF] }

/-- The body of a `Code` attribute. -/
def toBytes (code : Code) : Bytes :=
  Bytes.ofUInt16 code.maxStack
    ++ (Bytes.ofUInt16 code.maxLocals
      ++ (Bytes.ofUInt32 code.instructions.length.toUInt32
        ++ (code.instructions ++ (Bytes.ofUInt16 0 ++ Bytes.ofUInt16 0))))

end Code

/-- The local variables that the arguments of a method take, its receiver included. A receiver for
which there is no room in 16 bits is not counted. -/
def Method.argumentSlots (method : Method) : UInt16 :=
  let receiver := if method.access.isStatic then 0 else 1
  (min (Descriptor.argumentSlots method.descriptor + receiver) 65535).toUInt16

/-- The body that a stub gives a method. -/
def Method.stubCode (method : Method) (style : BodyStyle) : Option Code :=
  if method.access.isBodiless then none
  else
    match style with
    | .omit => none
    | .throwNull => some (.throwNull method.argumentSlots)

end ClassStub
