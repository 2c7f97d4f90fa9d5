import ClassStub.Files

/-! # Trees of files

An `Entry` is what is found at one place: a file with its content, a directory with the entries in
it by name, or something that holds neither. A place is the row of names that leads to an entry from
the one above all. -/

namespace ClassStub

/-- A file, a directory with what is in it, or something else, such as a pipe. A name stands for the
first entry that bears it. -/
inductive Entry where
  | file (content : Bytes)
  | directory (entries : List (PathText × Entry))
  | special
  deriving Inhabited

/-- The names that lead from an entry to one in it, the outermost first. -/
abbrev Place := List PathText

namespace Entry

/-- The kind of an entry. -/
def kind : Entry → FileKind
  | file _ => .file
  | directory _ => .directory
  | special => .special

/-- The content of a file. -/
def content? : Entry → Option Bytes
  | file content => some content
  | _ => none

/-- The entry of a name in a directory. -/
def child? : Entry → PathText → Option Entry
  | directory entries, name => entries.lookup name
  | _, _ => none

/-- The entry at a place. -/
def at? (entry : Entry) : Place → Option Entry
  | [] => some entry
  | name :: place =>
    match entry.child? name with
    | some child => child.at? place
    | none => none

/-- Put `new` at a place. Directories that are missing on the way are made, and what is no directory
stays as it is. -/
def put (entry new : Entry) : Place → Entry
  | [] => new
  | name :: place =>
    match entry with
    | directory entries =>
      let child := (entries.lookup name).getD (directory [])
      directory ((name, child.put new place) :: entries.filter fun other => other.1 ≠ name)
    | other => other

mutual

/-- The files in an entry, each with its place. -/
def files : Entry → List (Place × Bytes)
  | file content => [([], content)]
  | directory entries => filesIn entries
  | special => []

/-- The files in some entries, each with its place. -/
def filesIn : List (PathText × Entry) → List (Place × Bytes)
  | [] => []
  | (name, entry) :: rest =>
    entry.files.map (fun (place, content) => (name :: place, content)) ++ filesIn rest

end

end Entry

end ClassStub
