import ClassStub.Bytes
import ClassStub.Error.File
import ClassStub.Files.Path

/-! # Access to files

What the program asks of the files around it, whatever they are: the disk, or a `FileSystem` value.
An operation that fails says why. Walks through directories are a matter of their own, `MonadWalk`:
the program only says what it does at each entry that a walk comes to. -/

namespace ClassStub

/-- What a path can lead to: a regular file, a directory, or something else such as a link or a
pipe. -/
inductive FileKind where
  | file
  | directory
  | special
  deriving DecidableEq, Repr, Inhabited

/-- The operations on files. -/
class MonadFiles (m : Type → Type) where
  /-- What is found at a path. Links are followed. -/
  kindOf : PathText → m (Except FileError FileKind)
  /-- The content of a file. -/
  read : PathText → m (Except FileError Bytes)
  /-- Make a directory in one that exists. -/
  makeDirectory : PathText → m (Except FileError Unit)
  /-- Write a file, in place of one that is there. -/
  write : PathText → Bytes → m (Except FileError Unit)

/-- What a walk comes to. Links are not followed. -/
structure WalkEntry where
  path : PathText
  kind : FileKind
  deriving DecidableEq, Repr, Inhabited

/-- Why a walk did not see what is at `path`, or what is in the directory there. -/
structure WalkError where
  path : PathText
  cause : FileError
  deriving DecidableEq, Repr

/-- Walks through directories. -/
class MonadWalk (m : Type → Type) where
  /-- Walk through what is found at a path, and visit each entry or error that the walk comes to. A
  visit is given what the one before has left, and the walk ends with the first visit that fails. -/
  walk {ε σ : Type} : PathText → (σ → Except WalkError WalkEntry → ExceptT ε m σ) → σ →
    ExceptT ε m σ

namespace Files

variable {m : Type → Type} [Monad m] [MonadFiles m]

/-- Whether a path leads to a directory. -/
def isDirectory (path : PathText) : m Bool := do
  match ← MonadFiles.kindOf path with
  | .ok .directory => return true
  | _ => return false

/-- Whether a path leads to anything. -/
def isPresent (path : PathText) : m Bool := do
  match ← MonadFiles.kindOf path with
  | .ok _ => return true
  | .error _ => return false

/-- Make a directory, where one that is already there will do. -/
def ensureDirectory (path : PathText) : m (Except FileError Unit) := do
  match ← MonadFiles.makeDirectory path with
  | .ok () => return .ok ()
  | .error cause =>
    if cause = .notFound then return .error cause
    else if ← isDirectory path then return .ok ()
    else return .error cause

/-- Make the first of the given directories, of which each is to be found in the next one. Those
that are missing are made before it. A directory is given by the parts of its path from the last one
to the first. -/
def ensureDirectories : List (List PathText) → m (Except FileError Unit)
  | [] => return .ok ()
  | parts :: above => do
    let path := Path.ofReversedParts parts
    match ← ensureDirectory path with
    | .error .notFound =>
      match ← ensureDirectories above with
      | .ok () =>
        match ← MonadFiles.makeDirectory path with
        | .ok () => return .ok ()
        | .error cause => if ← isDirectory path then return .ok () else return .error cause
      | .error cause => return .error cause
    | result => return result

/-- Make the directory in which `path` is to be found, and all directories above it. -/
def ensureParent (path : PathText) : m (Except FileError Unit) :=
  ensureDirectories (Path.ancestors path).tail

end Files

end ClassStub
