import ClassStub.Surface

/-! # Listings

A surface as lines for a reader: the class on the first line, and each of its links, annotations
and members on an indented line of its own. -/

namespace ClassStub

/-- The line of an enclosing link. Only a method that has both name and descriptor is shown. -/
def EnclosingLink.listing (link : EnclosingLink) : String :=
  match link.methodName, link.methodDescriptor with
  | some name, some descriptor => s!"enclosed in {link.owner}.{name}{descriptor}"
  | _, _ => s!"enclosed in {link.owner}"

/-- The line of a nested link, with a dash for an absent name. -/
def NestedLink.listing (link : NestedLink) : String :=
  let outer := link.outerName.getD "-"
  let simple := link.simpleName.getD "-"
  s!"inner {link.name} outer={outer} simple={simple} access {link.access.text}"

/-- The line of a field. -/
def Field.listing (field : Field) : String :=
  s!"field {field.name} {field.descriptor} (access {field.access.text})"

/-- The line of a method. -/
def Method.listing (method : Method) : String :=
  let kind := if method.access.isStatic then "static method" else "method"
  s!"{kind} {method.name}{method.descriptor} (access {method.access.text})"

namespace Surface

/-- The line of the class itself. -/
def headline (surface : Surface) : String :=
  let header := surface.header
  let version := s!"version {header.version.major}.{header.version.minor}"
  s!"class {header.name} ({version}, access {header.access.text})"

/-- The lines below the headline, without their indentation. -/
def details (surface : Surface) : List String :=
  surface.header.superName.toList.map (s!"extends {·}")
    ++ surface.header.interfaces.map (s!"implements {·}")
    ++ surface.enclosing.toList.map EnclosingLink.listing
    ++ surface.nested.toList.map NestedLink.listing
    ++ surface.annotations.toList.map (s!"@{·.descriptor}")
    ++ surface.fields.toList.map Field.listing
    ++ surface.methods.toList.map Method.listing
    ++ if surface.isAnonymousOrLocal then ["(anonymous or local)"] else []

/-- The lines of a surface. -/
def listing (surface : Surface) : List String :=
  surface.headline :: surface.details.map ("  " ++ ·)

end Surface

end ClassStub
