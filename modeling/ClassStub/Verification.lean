import ClassStub.Verification.Fields
import ClassStub.Verification.Methods

/-! # Verification of class files

Structural checks on an assembled class file: that indexes name constants of the right kind, that
attributes stand where they may, and that access flags do not contradict each other. The parts are
checked in a fixed order, and the first fault is reported. -/

namespace ClassStub

namespace Verification

/-- An index that must name a class. -/
def verifyClassIndex (pool : Pool) (index : UInt16) : Except VerificationError Unit :=
  match pool.check Constant.isClassRef index with
  | .valid => .ok ()
  | .missing => .error (.invalidIndex index)
  | .wrongKind => .error (.invalidIndexKind index)

/-- The superclass. Only a class that is no interface may lack one. -/
def verifySuperClass (file : ClassFile) : Except VerificationError Unit :=
  if file.superClass = 0 then
    if file.access.isInterface then .error .interfaceWithoutSuperclass else .ok ()
  else verifyClassIndex file.pool file.superClass

end Verification

open Verification in
/-- Check a class file. -/
def ClassFile.verify (file : ClassFile) : Except VerificationError Unit := do
  (verifyPool file.pool).mapError .pool
  verifyClassIndex file.pool file.thisClass
  verifySuperClass file
  file.interfaces.forM (verifyClassIndex file.pool)
  (verifyFields file).mapError .field
  (verifyMethods file).mapError .method
  (verifyAttributes file).mapError .attributes

end ClassStub
