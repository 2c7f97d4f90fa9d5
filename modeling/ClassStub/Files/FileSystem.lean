import ClassStub.Files.Entry
import ClassStub.Files.Walk

/-! # File systems as values

A `FileSystem` is the tree of all files with the place of the current directory in it. Operations on
paths follow the rules of a Unix system. A path is followed part by part, and every part but the
last needs a directory to be followed in. -/

namespace ClassStub

/-- All entries under the root, and the place of the current directory. -/
structure FileSystem where
  root : Entry := .directory []
  current : Place := []
  deriving Inhabited

/-- A way down from the root: the names on it, each with its entry, the innermost first. -/
abbrev Trail := List (PathText × Entry)

namespace FileSystem

/-- The longest name of a file, in bytes. -/
def maxName : Nat := 255

/-- Paths must be shorter than this, in bytes. -/
def maxPath : Nat := 4096

/-- The entry at the end of a trail. -/
def endOf (files : FileSystem) (trail : Trail) : Entry :=
  match trail with
  | [] => files.root
  | (_, entry) :: _ => entry

/-- Follow `parts` from the end of a trail. There is nothing above the root, so that two dots lead
from it to itself. -/
def follow (files : FileSystem) (trail : Trail) : List PathText → Except FileError Trail
  | [] => .ok trail
  | part :: rest =>
    match files.endOf trail with
    | .directory entries =>
      if Path.isIdle part then files.follow trail rest
      else if part = ".." then files.follow trail.tail rest
      else if part.size > maxName then .error .nameTooLong
      else
        match entries.lookup part with
        | some entry => files.follow ((part, entry) :: trail) rest
        | none => .error .notFound
    | _ => .error .notADirectory

/-- Follow `parts` from where `path` begins: at the root or at the current directory. -/
def followFor (files : FileSystem) (path : PathText) (parts : List PathText) :
    Except FileError Trail := do
  if Path.isAbsolute path then files.follow [] parts
  else files.follow (← files.follow [] files.current) parts

/-- The parts of a path that can be followed. -/
def checkPath (path : PathText) : Except FileError (List PathText) :=
  if path.bytes.contains 0 then .error .embeddedNul
  else if path = "" then .error .notFound
  else if path.size ≥ maxPath then .error .nameTooLong
  else .ok (Path.parts path)

/-- The entry to which a path leads. -/
def find (files : FileSystem) (path : PathText) : Except FileError Entry := do
  return files.endOf (← files.followFor path (← checkPath path))

/-- Where something new is to be put: the way to the directory, the last part of the path, and
whether slashes follow that. -/
structure Spot where
  above : Trail
  name : PathText
  slashed : Bool

/-- The spot that a path names. The root is named by a dot in it. -/
def spot (files : FileSystem) (path : PathText) : Except FileError Spot := do
  let reversed := (← checkPath path).reverse
  let slashed := reversed.head? == some ("" : PathText)
  match reversed.dropWhile (· = ("" : PathText)) with
  | name :: above =>
    return { above := ← files.followFor path (above.reverse ++ [("" : PathText)]), name, slashed }
  | [] => return { above := [], name := ".", slashed }

namespace Spot

/-- Whether the last part is a name, and not a dot or two. -/
def isNamed (spot : Spot) : Bool :=
  spot.name ≠ "." ∧ spot.name ≠ ".."

/-- The place of the spot. -/
def place (spot : Spot) : Place :=
  (spot.above.map (·.1)).reverse ++ [spot.name]

end Spot

/-- What is already at a spot. -/
def occupant? (files : FileSystem) (spot : Spot) : Option Entry :=
  (files.endOf spot.above).child? spot.name

/-- Put an entry at a spot. -/
def put (files : FileSystem) (spot : Spot) (entry : Entry) : FileSystem :=
  { files with root := files.root.put entry spot.place }

/-- The names in a directory, each with the kind of what it leads to. -/
def list (files : FileSystem) (path : PathText) :
    Except FileError (List (PathText × FileKind)) := do
  match ← files.find path with
  | .directory entries => return entries.map fun (name, entry) => (name, entry.kind)
  | _ => throw .notADirectory

/-- What is said when a pipe or the like is to be opened. -/
def notOpened : FileError :=
  .other "No such device or address (os error 6)"

/-- The content of a file. -/
def read (files : FileSystem) (path : PathText) : Except FileError Bytes := do
  match ← files.find path with
  | .file content => return content
  | .directory _ => throw .isADirectory
  | .special => throw notOpened

/-- Make a directory at a spot. -/
def makeDirectoryAt (files : FileSystem) (spot : Spot) : Except FileError FileSystem :=
  if !spot.isNamed then .error .alreadyExists
  else if spot.name.size > maxName then .error .nameTooLong
  else if (files.occupant? spot).isSome then .error .alreadyExists
  else .ok (files.put spot (.directory []))

/-- Make a directory. -/
def makeDirectory (files : FileSystem) (path : PathText) : Except FileError FileSystem := do
  files.makeDirectoryAt (← files.spot path)

/-- Write a file at a spot. -/
def writeAt (files : FileSystem) (spot : Spot) (content : Bytes) : Except FileError FileSystem :=
  if spot.slashed ∨ !spot.isNamed then .error .isADirectory
  else if spot.name.size > maxName then .error .nameTooLong
  else
    match (files.occupant? spot).map Entry.kind with
    | some .directory => .error .isADirectory
    | some .special => .error notOpened
    | _ => .ok (files.put spot (.file content))

/-- Write a file. -/
def write (files : FileSystem) (path : PathText) (content : Bytes) :
    Except FileError FileSystem := do
  files.writeAt (← files.spot path) content

/-- The files under the current directory that are not the same in `before`, by path. -/
def changedSince (files before : FileSystem) : List (String × Bytes) :=
  let present := ((files.root.at? files.current).map Entry.files).getD []
  let changed := present.filter fun (place, content) =>
    (before.root.at? (files.current ++ place)).bind Entry.content? ≠ some content
  let paths := changed.map fun (place, content) => (Path.ofParts place, content)
  (sortByName paths).map fun (path, content) => (path.display, content)

/-- Make an operation that changes the file system part of a run. -/
def update (operation : FileSystem → Except FileError FileSystem) :
    StateM FileSystem (Except FileError Unit) := do
  match operation (← get) with
  | .ok files =>
    set files
    return .ok ()
  | .error cause => return .error cause

instance : MonadFiles (StateM FileSystem) where
  kindOf path := return ((← get).find path).map Entry.kind
  read path := return (← get).read path
  makeDirectory path := update (·.makeDirectory path)
  write path content := update (·.write path content)

instance : MonadWalk (StateM FileSystem) where
  walk path visit state :=
    Files.walkSorted (fun path => return ((← get).find path).map Entry.kind)
      (fun path => return (← get).list path) maxPath path visit state

end FileSystem

end ClassStub
