import ClassStub.CommandLine
import ClassStub.Files.FileSystem

/-! # The executable -/

namespace ClassStub

/-- The number of a system error. Some operations report it with its sign reversed. -/
def errorNumber (code : UInt32) : UInt32 :=
  if code < 0x80000000 then code else 0 - code

/-- What went wrong with a file. -/
def FileError.ofIO (error : IO.Error) : FileError :=
  match error with
  | .noFileOrDirectory .. => .notFound
  | .alreadyExists .. => .alreadyExists
  | .inappropriateType _ code _ =>
    if errorNumber code = 20 then .notADirectory
    else if errorNumber code = 21 then .isADirectory
    else .other (toString error)
  | .invalidArgument _ code _ =>
    if errorNumber code = 36 then .nameTooLong else .other (toString error)
  | _ => .other (toString error)

/-- An action that may go wrong with a file. -/
def attemptIO {α : Type} (action : IO α) : IO (Except FileError α) := do
  match ← action.toBaseIO with
  | .ok value => return .ok value
  | .error error => return .error (.ofIO error)

/-- Act on what a path names. The disk is asked with texts only. -/
def withText {α : Type} (path : PathText) (action : String → IO α) : IO (Except FileError α) :=
  match String.fromUTF8? ⟨path.bytes.toArray⟩ with
  | some text => attemptIO (action text)
  | none => return .error (.other "Invalid or incomplete multibyte or wide character (os error 84)")

/-- The kind of what lies on the disk. -/
def FileKind.ofFileType : IO.FS.FileType → FileKind
  | .dir => .directory
  | .file => .file
  | .symlink | .other => .special

/-- The files on the disk. -/
instance : MonadFiles IO where
  kindOf path := withText path fun text => do
    return .ofFileType (← ((← IO.currentDir) / text).metadata).type
  read path := withText path fun text => do return (← IO.FS.readBinFile text).toList
  makeDirectory path := withText path fun text => IO.FS.createDir text
  write path content := withText path fun text => IO.FS.writeBinFile text ⟨content.toArray⟩

/-- The kind of what a walk starts from. A link is followed there if it leads to a directory. -/
def startKind (path : PathText) : IO (Except FileError FileKind) :=
  withText path fun text => do
    let place := (← IO.currentDir) / text
    match FileKind.ofFileType (← place.symlinkMetadata).type with
    | .special => return if ← place.isDir then .directory else .special
    | kind => return kind

/-- The names in a directory on the disk. Links in it are not followed. -/
def listDirectory (path : PathText) : IO (Except FileError (List (PathText × FileKind))) :=
  withText path fun text => do
    let entries ← ((← IO.currentDir) / text).readDir
    entries.toList.mapM fun entry => do
      return ((entry.fileName : PathText), .ofFileType (← entry.path.symlinkMetadata).type)

/-- Walks through the directories on the disk. -/
instance : MonadWalk IO where
  walk path visit state :=
    Files.walkSorted startKind listDirectory FileSystem.maxPath path visit state

end ClassStub

/-- Run the program on the files on the disk. -/
def main (arguments : List String) : IO UInt32 := do
  let report ← (ClassStub.runProgram arguments : IO ClassStub.Report)
  IO.print report.output
  IO.eprint report.errors
  return report.code
