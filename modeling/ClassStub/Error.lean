import ClassStub.Error.File
import ClassStub.Error.Format
import ClassStub.Error.Protocol
import ClassStub.Error.Verification
import ClassStub.Files.Path

/-! # Errors of stub generation

`StubError` joins the errors of all layers. An error that wraps another one repeats the wording of
the inner one; `StubError.chain` lists the wordings from the outermost to the innermost. -/

namespace ClassStub

/-- What a class file can have too many of. -/
inductive CountedPart where
  | interfaces
  | fields
  | methods
  | innerClasses
  deriving DecidableEq, Repr

/-- The word for a counted part in messages. -/
def CountedPart.label : CountedPart → String
  | interfaces => "interfaces"
  | fields => "fields"
  | methods => "methods"
  | innerClasses => "inner classes"

/-- Why a class file could not be assembled. -/
inductive GenerationError where
  | pool (cause : PoolError)
  | tooMany (part : CountedPart) (count : Nat)
  deriving DecidableEq, Repr

/-- The wording of an assembly error. -/
def GenerationError.message : GenerationError → String
  | pool cause => s!"Constant pool error: {cause.message}"
  | tooMany part count => s!"Too many {part.label}: {count}"

/-- Why a stub could not be made. -/
inductive StubError where
  | file (cause : FileError)
  | format (cause : FormatError)
  | generation (cause : GenerationError)
  | verification (cause : VerificationError)
  | protocol (cause : ProtocolError)
  /-- What is at `path` could not be walked through. -/
  | walk (path : PathText) (cause : FileError)
  deriving DecidableEq, Repr

namespace StubError

/-- The wording for what could not be walked through. -/
private def walkMessage (path : PathText) (cause : FileError) : String :=
  s!"IO error for operation on {path.display}: {cause.message}"

/-- The wording of an error. -/
def message : StubError → String
  | file cause => s!"IO error: {cause.message}"
  | format cause => s!"Malformed class file: {cause.message}"
  | generation cause => s!"Class generation error: {cause.message}"
  | verification cause => s!"Stub verification failed: {cause.message}"
  | protocol cause => s!"Precondition violated: {cause.message}"
  | walk path cause => s!"Directory walk error: {walkMessage path cause}"

/-- The wordings of the errors inside an error, outermost first. -/
def causes : StubError → List String
  | file cause => [cause.message]
  | format cause@(.pool inner) => [cause.message, inner.message]
  | format cause => [cause.message]
  | generation cause@(.pool inner) => [cause.message, inner.message]
  | generation cause => [cause.message]
  | verification cause => cause.message :: cause.cause?.toList
  | protocol _ => []
  | walk path cause => [walkMessage path cause, cause.message]

/-- The wordings of an error and of all errors inside it, outermost first. -/
def chain (error : StubError) : List String :=
  error.message :: error.causes

end StubError

end ClassStub
