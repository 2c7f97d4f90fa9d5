import ClassStub.Batch
import ClassStub.CommandLine.Command
import ClassStub.CommandLine.Report
import ClassStub.Journal
import ClassStub.Surface.Listing

/-! # The program

Commands are run over whatever files there are, and each run ends in a report. A run that fails
keeps the notes taken before; notes are taken on a class that is stubbed on its own, where they are
asked for. -/

namespace ClassStub

namespace Command

variable {m : Type → Type} [Monad m] [MonadFiles m]

/-- A run of a command: it takes notes, and it may fail. -/
abbrev CommandT (m : Type → Type) := ExceptT Failure (StateT (List Note) m)

/-- An operation on files as part of a run. -/
def operate {α : Type} (fail : FileError → Failure) (operation : m (Except FileError α)) :
    CommandT m α := do
  match ← (operation : m _) with
  | .ok value => return value
  | .error cause => throw (fail cause)

/-- Go on with a result, or fail at `doing` something. -/
def obtain {α : Type} (doing : String) (result : Except StubError α) : CommandT m α :=
  match result with
  | .ok value => pure value
  | .error error => throw (.ofError doing error)

/-- The content of the file at `path`. -/
def readFile (path : String) : CommandT m Bytes :=
  operate (.ofFileError s!"read {path}") (MonadFiles.read path)

/-- Stub every class file under a directory. -/
def stubDirectory [MonadWalk m] (request : StubRequest) : CommandT m String := do
  let result ← ((Batch.stubTree request.input request.output request.config).run : m _)
  let summary ← obtain s!"stub {request.input}" result
  return s!"{summary.written} stubs written to {request.output} ({summary.skipped} skipped)\n"

/-- Make the directory that a path names before its last part, unless something is there. -/
def makeRoomFor (path : String) : CommandT m Unit := do
  if let some directory := Path.parent? path then
    unless ← (Files.isPresent directory : m Bool) do
      operate (⟨·.message, []⟩) (Files.ensureParent path)

/-- Take the notes that are not mere traces. -/
def takeNotes (notes : List Note) : CommandT m Unit :=
  modify (· ++ notes.filter (·.level ≠ .trace))

/-- Stub one class file. -/
def stubSingle (request : StubRequest) : CommandT m String := do
  let bytes ← readFile request.input
  if request.verbose then takeNotes (journal bytes request.config)
  let stub ← obtain s!"stub {request.input}" (stubClass bytes request.config)
  makeRoomFor request.output
  operate (.ofFileError s!"write {request.output}") (MonadFiles.write request.output stub)
  return s!"{request.input} -> {request.output}\n"

/-- List the surface of a class. -/
def list (path : String) : CommandT m String := do
  let bytes ← readFile path
  let surface ← obtain s!"read class {path}" (readSurface bytes)
  return String.join (surface.listing.map (· ++ "\n"))

/-- Do what a command asks for. The result is what it shows. -/
def perform [MonadWalk m] : Command → CommandT m String
  | .stub request => do
    if ← (Files.isDirectory request.input : m Bool) then stubDirectory request
    else stubSingle request
  | .dump path => list path

/-- Run a command. -/
def run [MonadWalk m] (command : Command) : m Report := do
  let (result, notes) ← (command.perform : CommandT m String).run.run []
  let shown := String.join (notes.map fun note => s!"{note.level.label} {note.text}\n")
  match result with
  | .ok output => return { output, errors := shown }
  | .error failure => return { code := 1, errors := shown ++ failure.text }

end Command

/-- Run the program with the given arguments. -/
def runProgram {m : Type → Type} [Monad m] [MonadFiles m] [MonadWalk m]
    (arguments : List String) : m Report :=
  match Command.ofArguments arguments with
  | .ok command => command.run
  | .error .help => return { output := usageText }
  | .error .version => return { output := versionText }
  | .error .misuse => return { code := 2, errors := usageText }

end ClassStub
