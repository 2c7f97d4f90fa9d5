import ClassStub.Assembly
import ClassStub.ClassFile.Description
import ClassStub.Surface.Builder
import ClassStub.Verification

/-! # Stubs

The stub of a class is a class file that holds the surface of the class and nothing else. It is
made by reading the class into a surface and assembling a new class file from that, so classes
with equal surfaces have equal stubs. -/

namespace ClassStub

/-- The surface of the class that a class file describes. -/
def ClassFile.surface (file : ClassFile) : Except StubError Surface := do
  let (result, builder) := (file.replay SurfaceBuilder.visit).outcome {}
  result
  builder.finish

/-- The surface of the class in `bytes`. -/
def readSurface (bytes : Bytes) : Except StubError Surface := do
  let file ← (ClassFile.parse bytes).mapError .format
  file.surface

namespace Surface

/-- The class file that holds a surface. -/
def assemble (surface : Surface) (bodies : BodyStyle) : Except StubError ClassFile := do
  let (result, assembly) := (surface.replay Assembly.visit).outcome (.start bodies)
  result
  assembly.toClassFile

/-- The stub of a surface. -/
def toStub (surface : Surface) (config : Config) : Except StubError Bytes := do
  let file ← surface.assemble config.bodies
  if config.verify then file.verify.mapError .verification
  return file.toBytes

end Surface

/-- The stub of the class in `bytes`. -/
def stubClass (bytes : Bytes) (config : Config) : Except StubError Bytes := do
  (← readSurface bytes).toStub config

/-- The class in `bytes` as it comes out of an assembly that is fed with its whole description,
private parts included. -/
def reassembleClass (bytes : Bytes) (bodies : BodyStyle) : Except StubError Bytes := do
  let file ← (ClassFile.parse bytes).mapError .format
  let (result, assembly) := (file.replay Assembly.visit).outcome (.start bodies)
  result
  return (← assembly.toClassFile).toBytes

end ClassStub
