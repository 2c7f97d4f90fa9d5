import ClassStub.Stub

/-! # The journal of stub generation

What is worth noting while one class is stubbed: what is read, what is skipped or dropped, what is
written. The journal is determined by the class and the settings; it has no part in the stub. -/

namespace ClassStub

/-- How much a note matters. -/
inductive NoteLevel where
  | trace
  | debug
  deriving DecidableEq, Repr

/-- The word for a level. -/
def NoteLevel.label : NoteLevel → String
  | trace => "TRACE"
  | debug => "DEBUG"

/-- One note. -/
structure Note where
  level : NoteLevel
  text : String
  deriving DecidableEq, Repr

namespace Journal

/-- The attributes of a class that are skipped, up to the first that cannot be decoded. -/
def skippedAttributes (pool : Pool) : List Attribute → List String
  | [] => []
  | item :: rest =>
    match Statement.decode pool .onClass item, pool.getName item.name with
    | .ok .skipped, .ok name => name :: skippedAttributes pool rest
    | .ok _, _ => skippedAttributes pool rest
    | .error _, _ => []

/-- The notes on reading a class. -/
def reading (file : ClassFile) : List Note :=
  match file.className with
  | .ok name =>
    let version := file.version
    ⟨.trace, s!"reading {name} (version {version.major}.{version.minor})"⟩
      :: (skippedAttributes file.pool file.attributes).map fun skipped =>
        ⟨.trace, s!"{name}: skipping class attribute {skipped}"⟩
  | .error _ => []

/-- The note on one event of the class `name`, if it does not belong to the surface. -/
def dropped (name : String) (event : ClassEvent) : Option Note :=
  let note (what : String) : Membership → Option Note
    | .retain => none
    | .drop reason => some ⟨.debug, s!"{name}: dropping {what} ({reason.label})"⟩
  match event with
  | .nested link => note s!"inner class {link.name}" (link.membership name)
  | .field field => note s!"field {field.name} {field.descriptor}" field.membership
  | .method method => note s!"method {method.name}{method.descriptor}" method.membership
  | _ => none

/-- The notes on collecting the surface of a class. -/
def collecting (file : ClassFile) : List Note :=
  match file.className with
  | .ok name =>
    let (_, events) := (file.replay (record none)).outcome #[]
    events.toList.filterMap (dropped name)
  | .error _ => []

/-- The notes on writing a stub. -/
def writing (surface : Surface) (config : Config) : List Note :=
  let name := surface.header.name
  ⟨.trace, s!"writing {name}"⟩ ::
    match surface.toStub config with
    | .ok stub =>
      let fields := surface.fields.size
      let methods := surface.methods.size
      [⟨.debug, s!"{name}: stub has {fields} fields, {methods} methods, {stub.length} bytes"⟩]
    | .error _ => []

end Journal

/-- The notes on stubbing the class in `bytes`. -/
def journal (bytes : Bytes) (config : Config) : List Note :=
  match ClassFile.parse bytes with
  | .error _ => []
  | .ok file =>
    Journal.reading file ++ Journal.collecting file ++
      match file.surface with
      | .ok surface => Journal.writing surface config
      | .error _ => []

end ClassStub
