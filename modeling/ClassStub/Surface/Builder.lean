import ClassStub.Surface

/-! # Collecting the surface of a class

A `SurfaceBuilder` is a consumer of class events. It keeps what belongs to the surface, in the
order of arrival, and puts it into canonical order at the end, so the surface does not depend on
the order in which the class was described, except that of two parts with one key the first stays.
An event that is refused changes nothing. -/

namespace ClassStub

/-- A surface that is being collected. Lists stand in reverse order of arrival. -/
structure SurfaceBuilder where
  header : Option ClassHeader := none
  enclosing : Option EnclosingLink := none
  nested : List NestedLink := []
  annotations : List Annotation := []
  typeAnnotations : List TypeAnnotation := []
  fields : List Field := []
  methods : List Method := []
  deriving Inhabited

namespace SurfaceBuilder

/-- The nested links that were kept. -/
def nestedSet (builder : SurfaceBuilder) : CanonicalSet NestedLink :=
  .ofList builder.nested.reverse

/-- Whether the class is anonymous or local, as far as is known. -/
def isAnonymousOrLocal (builder : SurfaceBuilder) : Except StubError Bool :=
  match builder.header with
  | some header => .ok (isLocalShape header.name builder.enclosing builder.nestedSet)
  | none => .error (.protocol .shapeBeforeHeader)

/-- Take the header. -/
def visitHeader (header : ClassHeader) : Run SurfaceBuilder Unit := do
  if let some existing := (← get).header then
    Run.refuse (.headerAlreadySet header.name existing.name)
  modify fun builder => { builder with header := some header }

/-- Keep an event that comes after the header of the class `thisClass`, if it belongs to the
surface. -/
def keep (thisClass : String) (builder : SurfaceBuilder) : ClassEvent → SurfaceBuilder
  | .header _ | .finish => builder
  | .enclosing link => { builder with enclosing := some link }
  | .annotated item => { builder with annotations := item :: builder.annotations }
  | .typeAnnotated item => { builder with typeAnnotations := item :: builder.typeAnnotations }
  | .nested link =>
    if link.membership thisClass = .retain then { builder with nested := link :: builder.nested }
    else builder
  | .field field =>
    if field.membership = .retain then { builder with fields := field :: builder.fields }
    else builder
  | .method method =>
    if method.membership = .retain then { builder with methods := method :: builder.methods }
    else builder

/-- Take one event. -/
def visit : Consumer SurfaceBuilder
  | .header header => visitHeader header
  | event => do
    match (← get).header with
    | some header => modify fun builder => keep header.name builder event
    | none => Run.refuse (.headerRequired event.kind)

/-- The surface that was collected. -/
def finish (builder : SurfaceBuilder) : Except StubError Surface :=
  match builder.header with
  | some header => .ok {
      header
      enclosing := builder.enclosing
      nested := builder.nestedSet
      annotations := .ofList builder.annotations.reverse
      typeAnnotations := .ofList builder.typeAnnotations.reverse
      fields := .ofList builder.fields.reverse
      methods := .ofList builder.methods.reverse }
  | none => .error (.protocol .surfaceBeforeHeader)

end SurfaceBuilder

end ClassStub
