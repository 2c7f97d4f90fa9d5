import ClassStub.Event
import ClassStub.Surface.Membership

/-! # The surface of a class

What other code can be compiled against: the header, the links, the annotations and the members of
a class, each kind in canonical order. `Surface.replay` tells a surface to a consumer in an order
that depends on nothing but the surface. -/

namespace ClassStub

/-- The surface of a class. -/
structure Surface where
  header : ClassHeader
  enclosing : Option EnclosingLink
  nested : CanonicalSet NestedLink
  annotations : CanonicalSet Annotation
  typeAnnotations : CanonicalSet TypeAnnotation
  fields : CanonicalSet Field
  methods : CanonicalSet Method
  deriving Inhabited

/-- A class is anonymous or local if it has an enclosing link and a nested link about itself that
names no outer class. -/
def isLocalShape (name : String) (enclosing : Option EnclosingLink)
    (nested : CanonicalSet NestedLink) : Bool :=
  enclosing.isSome && nested.toList.any fun link => link.name == name && link.outerName.isNone

namespace Surface

/-- Whether the class is anonymous or local. -/
def isAnonymousOrLocal (surface : Surface) : Bool :=
  isLocalShape surface.header.name surface.enclosing surface.nested

/-- The surface as a stream of events: header, enclosing link, nested links, annotations, type
annotations, fields, methods, closing event. -/
def events (surface : Surface) : List ClassEvent :=
  .header surface.header :: (surface.enclosing.toList.map .enclosing
    ++ surface.nested.toList.map .nested
    ++ surface.annotations.toList.map .annotated
    ++ surface.typeAnnotations.toList.map .typeAnnotated
    ++ surface.fields.toList.map .field
    ++ surface.methods.toList.map .method
    ++ [.finish])

/-- Tell a consumer about the surface. -/
def replay {σ : Type} (surface : Surface) (visit : Consumer σ) : Run σ Unit :=
  surface.events.forM visit

end Surface

end ClassStub
