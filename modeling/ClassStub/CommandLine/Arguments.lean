/-! # Command line arguments

The grammar that the arguments of a command follow. An option is written `--name`, or `-l` with its
letter; letters without values can share one dash. The value of an option follows as the next
argument, or after an equals sign, or directly after the letter. No option may be given twice.
`--` ends the options, and at most one operand can be given. Arguments are taken from the left, and
the first one that breaks the grammar, or asks for something else, ends the reading. -/

namespace ClassStub

/-- An option that a command understands. -/
structure OptionRule where
  name : String
  letter : Option Char := none
  takesValue : Bool := false
  deriving DecidableEq, Repr

/-- Why no command is run. -/
inductive ArgumentsEnd where
  /-- The usage is asked for. -/
  | help
  /-- The version is asked for. -/
  | version
  /-- The arguments do not follow the grammar. -/
  | misuse
  deriving DecidableEq, Repr

/-- One argument by its outer form. -/
inductive ArgumentForm where
  | separator
  | long (name : String) (value : Option String)
  | letters (letters : List Char)
  | operand (text : String)
  deriving DecidableEq, Repr

/-- The form of an argument. A single dash is an operand. -/
def ArgumentForm.ofText (text : String) : ArgumentForm :=
  match text.toList with
  | ['-', '-'] => .separator
  | '-' :: '-' :: rest =>
    let name := rest.takeWhile (· != '=')
    match rest.drop name.length with
    | _ :: value => .long (String.ofList name) (some (String.ofList value))
    | [] => .long (String.ofList name) none
  | '-' :: letter :: more => .letters (letter :: more)
  | _ => .operand text

/-- The arguments of a command: its operand, and its options with their values. -/
structure Arguments where
  operand : Option String := none
  options : List (OptionRule × String) := []
  deriving Repr

namespace Arguments

/-- Whether an option is given. -/
def has (arguments : Arguments) (rule : OptionRule) : Bool :=
  (arguments.options.lookup rule).isSome

/-- The value of an option. -/
def value? (arguments : Arguments) (rule : OptionRule) : Option String :=
  arguments.options.lookup rule

/-- Take an operand. It is not empty, and there is only one. -/
def withOperand (arguments : Arguments) (text : String) : Except ArgumentsEnd Arguments :=
  if arguments.operand.isSome ∨ text = "" then .error .misuse
  else .ok { arguments with operand := some text }

/-- Take an option. -/
def withOption (arguments : Arguments) (rule : OptionRule) (value : String) :
    Except ArgumentsEnd Arguments :=
  if arguments.has rule then .error .misuse
  else .ok { arguments with options := (rule, value) :: arguments.options }

/-- Take an option with a value, which is not empty. -/
def withValue (arguments : Arguments) (rule : OptionRule) (value : String) :
    Except ArgumentsEnd Arguments :=
  if value = "" then .error .misuse else arguments.withOption rule value

/-- The options that a command has, and those that end the reading when they are met. -/
structure Grammar where
  options : List OptionRule
  stops : List (OptionRule × ArgumentsEnd)

namespace Grammar

/-- The option that satisfies `matching`, or the end to which it leads. -/
def find (grammar : Grammar) (matching : OptionRule → Bool) : Except ArgumentsEnd OptionRule :=
  match grammar.stops.find? fun stop => matching stop.1 with
  | some stop => .error stop.2
  | none =>
    match grammar.options.find? matching with
    | some rule => .ok rule
    | none => .error .misuse

/-- The option with the given name. An equals sign may follow it only if it takes a value. -/
def named (grammar : Grammar) (name : String) (value : Option String) :
    Except ArgumentsEnd OptionRule := do
  if value.isSome then
    match grammar.options.find? (·.name == name) with
    | some rule => if rule.takesValue then return rule else throw .misuse
    | none => throw .misuse
  else grammar.find (·.name == name)

/-- Read letters that share a dash. A letter whose option takes a value ends them: what follows it
is the value, and if nothing does, the option still needs one. -/
def readLetters (grammar : Grammar) :
    List Char → Arguments → Except ArgumentsEnd (Arguments × Option OptionRule)
  | [], arguments => .ok (arguments, none)
  | letter :: rest, arguments => do
    let rule ← grammar.find (·.letter == some letter)
    if rule.takesValue then
      match rest with
      | [] => return (arguments, some rule)
      | '=' :: value => return (← arguments.withValue rule (String.ofList value), none)
      | value => return (← arguments.withValue rule (String.ofList value), none)
    else grammar.readLetters rest (← arguments.withOption rule "")

/-- Read the arguments of a command. An option may be waiting for its value, which cannot look like
an option itself. -/
def read (grammar : Grammar) :
    List String → Option OptionRule → Arguments → Except ArgumentsEnd Arguments
  | [], none, arguments => .ok arguments
  | [], some _, _ => .error .misuse
  | text :: rest, some rule, arguments =>
    match ArgumentForm.ofText text with
    | .operand value => do grammar.read rest none (← arguments.withValue rule value)
    | _ => .error .misuse
  | text :: rest, none, arguments =>
    match ArgumentForm.ofText text with
    | .separator => rest.foldlM withOperand arguments
    | .operand text => do grammar.read rest none (← arguments.withOperand text)
    | .long name value => do
      let rule ← grammar.named name value
      match rule.takesValue, value with
      | false, _ => grammar.read rest none (← arguments.withOption rule "")
      | true, some value => grammar.read rest none (← arguments.withValue rule value)
      | true, none => grammar.read rest (some rule) arguments
    | .letters letters => do
      let (arguments, waiting) ← grammar.readLetters letters arguments
      grammar.read rest waiting arguments

end Grammar

end Arguments

end ClassStub
