import ClassStub.Files
import ClassStub.Stub

/-! # Stubbing a directory

Every class file under a directory is stubbed into the same place under another directory. How a
walk goes through a directory is left to `MonadWalk`; the first failure ends it, and what was
written before stays. -/

namespace ClassStub

/-- What became of the class files of a directory. -/
structure BatchSummary where
  written : Nat := 0
  /-- Anonymous and local classes that were left out. -/
  skipped : Nat := 0
  deriving DecidableEq, Repr, Inhabited

namespace Batch

variable {m : Type → Type} [Monad m] [MonadFiles m]

/-- A run over files that may fail. -/
abbrev BatchT (m : Type → Type) := ExceptT StubError m

/-- An operation on files as part of a run. -/
def attempt {α : Type} (wrap : FileError → StubError) (operation : m (Except FileError α)) :
    BatchT m α := do
  match ← operation with
  | .ok value => return value
  | .error cause => throw (wrap cause)

/-- Whether a file name or path is that of a class file. -/
def isClassFile (path : PathText) : Bool :=
  Path.fileExtension? path == some ("class" : PathText)

/-- Stub the class file at `path` into `target`. -/
def stubFile (config : Config) (path target : PathText) (summary : BatchSummary) :
    BatchT m BatchSummary := do
  let bytes ← attempt .file (MonadFiles.read path)
  let surface ← ExceptT.mk (pure (readSurface bytes))
  if config.skipAnonymous && surface.isAnonymousOrLocal then
    return { summary with skipped := summary.skipped + 1 }
  attempt .file (Files.ensureParent target)
  let stub ← ExceptT.mk (pure (surface.toStub config))
  attempt .file (MonadFiles.write target stub)
  return { summary with written := summary.written + 1 }

/-- Do what a batch does at what a walk through `input` comes to: stub a regular file that is named
as a class file, and pass by everything else. -/
def visit (input output : PathText) (config : Config) (summary : BatchSummary) :
    Except WalkError WalkEntry → BatchT m BatchSummary
  | .error error => throw (.walk error.path error.cause)
  | .ok entry =>
    if entry.kind ≠ .file ∨ !isClassFile entry.path then return summary
    else
      let relative := (Path.stripPrefix? entry.path input).getD entry.path
      stubFile config entry.path (Path.join output relative) summary

/-- Stub every class file under the directory `input` to the same place under `output`. -/
def stubTree [MonadWalk m] (input output : PathText) (config : Config) : BatchT m BatchSummary :=
  MonadWalk.walk input (visit input output config) {}

end Batch

end ClassStub
