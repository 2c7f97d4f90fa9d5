import ClassStub.Error.Verification
import ClassStub.Pool

/-! # Verification of constant pools

Every wide constant is followed by its second half and nothing else is, and every reference names
a constant of the kind it needs. -/

namespace ClassStub

/-- What is found at an index where a certain kind of constant is needed. -/
inductive IndexCheck where
  | valid
  | missing
  | wrongKind
  deriving DecidableEq, Repr

namespace Pool

/-- Look for a constant of the kind `accepts`. -/
def check (pool : Pool) (accepts : Constant → Bool) (index : UInt16) : IndexCheck :=
  match pool.get index with
  | .ok constant => if accepts constant then .valid else .wrongKind
  | .error _ => .missing

/-- Whether there is a constant of the kind `accepts`. -/
def has (pool : Pool) (accepts : Constant → Bool) (index : UInt16) : Bool :=
  pool.check accepts index = .valid

/-- Whether an index is 0 or there is a constant of the kind `accepts`. -/
def hasOptional (pool : Pool) (accepts : Constant → Bool) (index : UInt16) : Bool :=
  index == 0 || pool.has accepts index

end Pool

namespace Constant

/-- The references of a constant, each with the kind of constant that it needs, in the order in
which they are checked. -/
def references : Constant → List (UInt16 × (Constant → Bool))
  | classRef name | moduleRef name | packageRef name => [(name, isUtf8)]
  | string text => [(text, isUtf8)]
  | methodType descriptor => [(descriptor, isUtf8)]
  | fieldRef owner pair | methodRef owner pair | interfaceMethodRef owner pair =>
    [(owner, isClassRef), (pair, isNameAndType)]
  | nameAndType name descriptor => [(name, isUtf8), (descriptor, isUtf8)]
  | methodHandle _ reference => [(reference, isMemberRef)]
  | dynamic _ pair | invokeDynamic _ pair => [(pair, isNameAndType)]
  | utf8 _ | integer _ | float _ | long _ | double _ => []

end Constant

namespace Verification

/-- The slots behind `position` others, of which the last was wide if `owed` says so. -/
def verifySlots (owed : Bool) (position : Nat) : List Slot → Except PoolFault Unit
  | [] => .ok ()
  | .upperHalf :: rest =>
    if owed then verifySlots false (position + 1) rest
    else .error (.misplacedUpperHalf (position + 1).toUInt16)
  | .entry constant :: rest =>
    if owed then .error (.misplacedUpperHalf (position + 1).toUInt16)
    else verifySlots constant.isWide (position + 1) rest

/-- One reference of the constant at index `owner`. -/
def verifyReference (pool : Pool) (owner : UInt16) (reference : UInt16 × (Constant → Bool)) :
    Except PoolFault Unit :=
  match pool.check reference.2 reference.1 with
  | .valid => .ok ()
  | .missing => .error (.invalidIndex owner)
  | .wrongKind => .error (.invalidIndexKind owner)

/-- The references of the slots behind `position` others. -/
def verifyReferences (pool : Pool) (position : Nat) : List Slot → Except PoolFault Unit
  | [] => .ok ()
  | .upperHalf :: rest => verifyReferences pool (position + 1) rest
  | .entry constant :: rest => do
    constant.references.forM (verifyReference pool (position + 1).toUInt16)
    verifyReferences pool (position + 1) rest

/-- A constant pool: its slots first, then its references. -/
def verifyPool (pool : Pool) : Except PoolFault Unit := do
  verifySlots false 0 pool.slots.toList
  verifyReferences pool 0 pool.slots.toList

end Verification

end ClassStub
