import Std.Data.HashMap
import ClassStub.Error.Pool
import ClassStub.Pool.Constant

/-! # The constant pool

A pool is a row of slots that are numbered from 1. A `long` or `double` fills its own slot and the
one behind it, which no index may name. Constants that are added through `Pool.add` are shared:
`known` remembers where each of them stands, and `slots` alone is the meaning of the pool. -/

namespace ClassStub

/-- One slot of a pool: a constant, or the second half of the wide constant before it. -/
inductive Slot where
  | entry (constant : Constant)
  | upperHalf
  deriving DecidableEq, Repr

/-- A constant pool: its slots, and the index of every constant that was added to it. -/
structure Pool where
  slots : Array Slot := #[]
  known : Std.HashMap Constant UInt16 := ∅

/-- A computation that adds constants to a pool. What was added before a failure stays. -/
abbrev PoolM := EStateM PoolError Pool

namespace Pool

/-- The pool without constants. -/
def empty : Pool := {}

instance : Inhabited Pool := ⟨empty⟩

/-- The highest number of slots that can be addressed and counted in 16 bits. -/
def maxSlots : Nat := 65534

/-- The number written in front of the entries: one more than there are slots, in 16 bits. -/
def count (pool : Pool) : UInt16 :=
  (pool.slots.size + 1).toUInt16

/-- The constant at an index. -/
def get (pool : Pool) (index : UInt16) : Except PoolError Constant :=
  if index = 0 then .error (.invalidIndex index)
  else
    match pool.slots[index.toNat - 1]? with
    | some (.entry constant) => .ok constant
    | _ => .error (.invalidIndex index)

/-- The text at an index, unpaired surrogates included. -/
def getText (pool : Pool) (index : UInt16) : Except PoolError JavaText := do
  match ← pool.get index with
  | .utf8 text => .ok text
  | _ => .error (.unexpectedKind index .utf8)

/-- The text at an index as a name, which may not hold unpaired surrogates. -/
def getName (pool : Pool) (index : UInt16) : Except PoolError String := do
  match (← pool.getText index).toString? with
  | some name => .ok name
  | none => .error (.unpairedSurrogate index)

/-- The name at an index, where index 0 stands for no name. -/
def getOptionalName (pool : Pool) (index : UInt16) : Except PoolError (Option String) :=
  if index = 0 then .ok none else some <$> pool.getName index

/-- The name of the class at an index. -/
def getClassName (pool : Pool) (index : UInt16) : Except PoolError String := do
  match ← pool.get index with
  | .classRef name => pool.getName name
  | _ => .error (.unexpectedKind index .classRef)

/-- The name of the class at an index, where index 0 stands for no class. -/
def getOptionalClassName (pool : Pool) (index : UInt16) : Except PoolError (Option String) :=
  if index = 0 then .ok none else some <$> pool.getClassName index

/-- The name and the descriptor at an index. -/
def getNameAndType (pool : Pool) (index : UInt16) : Except PoolError (String × String) := do
  match ← pool.get index with
  | .nameAndType name descriptor => return (← pool.getName name, ← pool.getName descriptor)
  | _ => .error (.unexpectedKind index .nameAndType)

/-- The `int` at an index. -/
def getInteger (pool : Pool) (index : UInt16) : Except PoolError Int32 := do
  match ← pool.get index with
  | .integer value => .ok value
  | _ => .error (.unexpectedKind index .integer)

/-- The `long` at an index. -/
def getLong (pool : Pool) (index : UInt16) : Except PoolError Int64 := do
  match ← pool.get index with
  | .long value => .ok value
  | _ => .error (.unexpectedKind index .long)

/-- The bits of the `float` at an index. -/
def getFloat (pool : Pool) (index : UInt16) : Except PoolError UInt32 := do
  match ← pool.get index with
  | .float bits => .ok bits
  | _ => .error (.unexpectedKind index .float)

/-- The bits of the `double` at an index. -/
def getDouble (pool : Pool) (index : UInt16) : Except PoolError UInt64 := do
  match ← pool.get index with
  | .double bits => .ok bits
  | _ => .error (.unexpectedKind index .double)

/-- The slots that a constant fills. -/
def slotsOf (constant : Constant) : List Slot :=
  if constant.isWide then [.entry constant, .upperHalf] else [.entry constant]

/-- The index of `constant`, which is added behind the last slot unless it was added before. -/
def add (constant : Constant) : PoolM UInt16 := fun ⟨slots, known⟩ =>
  match known[constant]? with
  | some index => .ok index ⟨slots, known⟩
  | none =>
    if slots.size + constant.width > maxSlots then .error .outOfSpace ⟨slots, known⟩
    else
      let index := (slots.size + 1).toUInt16
      .ok index ⟨slots ++ slotsOf constant, known.insert constant index⟩

/-- Add a text. -/
def addText (text : JavaText) : PoolM UInt16 :=
  add (.utf8 text)

/-- Add a name. -/
def addName (name : String) : PoolM UInt16 :=
  addText (.ofString name)

/-- Add a class reference, behind its name. -/
def addClass (name : String) : PoolM UInt16 := do
  add (.classRef (← addName name))

/-- Add a class reference if there is one; index 0 stands for none. -/
def addOptionalClass : Option String → PoolM UInt16
  | some name => addClass name
  | none => pure 0

/-- Add a name if there is one; index 0 stands for none. -/
def addOptionalName : Option String → PoolM UInt16
  | some name => addName name
  | none => pure 0

/-- Add a name with a descriptor, behind the two. -/
def addNameAndType (name descriptor : String) : PoolM UInt16 := do
  let name ← addName name
  let descriptor ← addName descriptor
  add (.nameAndType name descriptor)

/-- Add a string literal, behind its text. -/
def addString (text : JavaText) : PoolM UInt16 := do
  add (.string (← addText text))

/-- Add an `int`. -/
def addInteger (value : Int32) : PoolM UInt16 :=
  add (.integer value)

/-- Add a `float`, given by its bits. -/
def addFloat (bits : UInt32) : PoolM UInt16 :=
  add (.float bits)

/-- Add a `long`. -/
def addLong (value : Int64) : PoolM UInt16 :=
  add (.long value)

/-- Add a `double`, given by its bits. -/
def addDouble (bits : UInt64) : PoolM UInt16 :=
  add (.double bits)

end Pool

end ClassStub
