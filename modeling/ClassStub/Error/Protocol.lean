/-! # Broken event protocols

A class is described by a stream of events that begins with its header and ends with a closing
event. Consumers refuse events out of that order. -/

namespace ClassStub

/-- The kinds of events of which the description of a class consists. -/
inductive EventKind where
  | header
  | enclosing
  | annotated
  | typeAnnotated
  | nested
  | field
  | method
  | finish
  deriving DecidableEq, Repr

namespace EventKind

/-- What an event is called where a class file is assembled. -/
def label : EventKind → String
  | header => "class header"
  | enclosing => "outer class"
  | annotated => "annotation"
  | typeAnnotated => "type annotation"
  | nested => "inner class"
  | field => "field"
  | method => "method"
  | finish => "end"

/-- What an event is called where the surface of a class is collected. -/
def surfaceLabel : EventKind → String
  | header => "class header"
  | enclosing => "enclosing method link"
  | annotated => "class annotation"
  | typeAnnotated => "class type annotation"
  | nested => "inner class link"
  | field => "field"
  | method => "method"
  | finish => "end of class"

end EventKind

/-- Why a consumer of events refuses to go on. -/
inductive ProtocolError where
  /-- An assembly saw an event before the header. -/
  | beforeHeader (kind : EventKind)
  /-- An assembly saw an event after the closing one. -/
  | afterFinish (kind : EventKind)
  /-- An assembly saw a second header. -/
  | secondHeader (name : String)
  /-- A class file was asked of an assembly without a header. -/
  | fileBeforeHeader
  /-- A class file was asked of an assembly that was not closed. -/
  | fileBeforeFinish
  /-- A surface that is being collected saw a second header. -/
  | headerAlreadySet (name existing : String)
  /-- A surface that is being collected saw an event before the header. -/
  | headerRequired (kind : EventKind)
  /-- A surface without a header was asked whether it is anonymous or local. -/
  | shapeBeforeHeader
  /-- A surface without a header was asked for. -/
  | surfaceBeforeHeader
  /-- A consumer refuses for a reason of its own. -/
  | refused (reason : String)
  deriving DecidableEq, Repr

namespace ProtocolError

/-- The wording for a surface that lacks its header. -/
private def headerRequiredMessage (operation : String) : String :=
  s!"{operation} requires the class header to have been visited"

/-- The wording of a protocol error. -/
def message : ProtocolError → String
  | beforeHeader kind => s!"{kind.label} visited before the class header"
  | afterFinish kind => s!"{kind.label} visited after the end of the class"
  | secondHeader name => s!"class header visited twice ({name})"
  | fileBeforeHeader => "class file requested before the class header was visited"
  | fileBeforeFinish => "class file requested before the end of the class was visited"
  | headerAlreadySet name existing =>
    s!"class header for {name} visited while {existing} is already set"
  | headerRequired kind => headerRequiredMessage kind.surfaceLabel
  | shapeBeforeHeader => headerRequiredMessage "anonymous or local class check"
  | surfaceBeforeHeader => headerRequiredMessage "finish"
  | refused reason => reason

end ProtocolError

end ClassStub
