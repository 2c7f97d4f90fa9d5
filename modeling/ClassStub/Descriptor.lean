/-! # Method descriptors

A method descriptor lists the parameter types between parentheses and then the result type.
`argumentSlots` counts the local variables that the parameters take: two for a `long` or `double`,
one for any other type. It reads any string; what is left unfinished counts for what it began. The
count is a 16-bit number, which begins again at 0 when it gets too large. -/

namespace ClassStub.Descriptor

/-- Where in the list of parameters a reading stands. -/
inductive Position where
  /-- In front of a parameter. -/
  | parameter
  /-- Inside a class name, which a semicolon ends. -/
  | className
  /-- Behind one or more opening brackets of an array type. -/
  | arrayElement
  deriving DecidableEq, Repr

/-- The slots of the parameters that begin at or behind a position, on top of `slots`. -/
def slotsFrom (slots : UInt16) : Position → List Char → UInt16
  | _, [] => slots
  | .parameter, char :: rest =>
    match char with
    | 'J' | 'D' => slotsFrom (slots + 2) .parameter rest
    | 'L' => slotsFrom (slots + 1) .className rest
    | '[' => slotsFrom (slots + 1) .arrayElement rest
    | _ => slotsFrom (slots + 1) .parameter rest
  | .className, char :: rest =>
    slotsFrom slots (if char = ';' then .parameter else .className) rest
  | .arrayElement, char :: rest =>
    match char with
    | '[' => slotsFrom slots .arrayElement rest
    | 'L' => slotsFrom slots .className rest
    | _ => slotsFrom slots .parameter rest

/-- The count of local variables that the parameters of a method take. The parameters end at the
first closing parenthesis; a text that begins with anything but an opening one has none. -/
def slotCount (descriptor : String) : UInt16 :=
  match descriptor.toList with
  | '(' :: rest => slotsFrom 0 .parameter (rest.takeWhile (· != ')'))
  | _ => 0

/-- The number of local variables that the parameters of a method take. -/
def argumentSlots (descriptor : String) : Nat :=
  (slotCount descriptor).toNat

end ClassStub.Descriptor
