import ClassStub.Error
import ClassStub.Member

/-! # Class events

The description of a class as a stream of events: first its header, last a closing event, and
between them its links, annotations and members. A `Consumer` takes the events one by one and may
refuse any of them; the state it has then is kept. -/

namespace ClassStub

/-- One part of the description of a class. -/
inductive ClassEvent where
  | header (header : ClassHeader)
  | enclosing (link : EnclosingLink)
  | annotated (item : Annotation)
  | typeAnnotated (item : TypeAnnotation)
  | nested (link : NestedLink)
  | field (field : Field)
  | method (method : Method)
  | finish
  deriving Inhabited

/-- The kind of an event. -/
def ClassEvent.kind : ClassEvent → EventKind
  | header _ => .header
  | enclosing _ => .enclosing
  | annotated _ => .annotated
  | typeAnnotated _ => .typeAnnotated
  | nested _ => .nested
  | field _ => .field
  | method _ => .method
  | finish => .finish

/-- A run of a consumer with state `σ`. A failing run keeps the state it reached. -/
abbrev Run (σ : Type) := EStateM StubError σ

/-- What a consumer does with one event. -/
abbrev Consumer (σ : Type) := ClassEvent → Run σ Unit

namespace Run

variable {σ α : Type}

/-- Refuse to go on. -/
def refuse (error : ProtocolError) : Run σ α :=
  throw (.protocol error)

/-- Go on with a decoded value, or fail with the decoding error. -/
def ofDecoded (result : Except FormatError α) : Run σ α :=
  match result with
  | .ok value => pure value
  | .error cause => throw (.format cause)

/-- The state at the end of a run, and how the run ended. -/
def outcome (run : Run σ α) (state : σ) : Except StubError α × σ :=
  match run state with
  | .ok value state => (.ok value, state)
  | .error error state => (.error error, state)

end Run

/-- A consumer that writes down the events it accepts. With a limit it accepts no more events than
that. -/
def record (limit : Option Nat) : Consumer (Array ClassEvent) := fun event => do
  if limit = some (← get).size then Run.refuse (.refused "visitor stopped")
  modify fun events => events.push event

end ClassStub
