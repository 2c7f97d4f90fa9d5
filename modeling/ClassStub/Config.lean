/-! # Settings of stub generation -/

namespace ClassStub

/-- What stands in place of a method body. -/
inductive BodyStyle where
  /-- Throw a null reference: the smallest body that the virtual machine accepts. -/
  | throwNull
  /-- No body at all. Compilers accept this, the virtual machine does not. -/
  | omit
  deriving DecidableEq, Repr, Inhabited

/-- The settings of stub generation. -/
structure Config where
  bodies : BodyStyle := .throwNull
  /-- Verify every class file that is assembled. -/
  verify : Bool := true
  /-- Leave out anonymous and local classes when a whole directory is stubbed. -/
  skipAnonymous : Bool := true
  deriving DecidableEq, Repr, Inhabited

end ClassStub
