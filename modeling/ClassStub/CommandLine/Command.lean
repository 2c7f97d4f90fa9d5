import ClassStub.CommandLine.Arguments
import ClassStub.Config

/-! # Commands

What the program can be asked to do: stub a class file or a directory of them, or list the surface
of a class. -/

namespace ClassStub

/-- What is to be stubbed, and how. -/
structure StubRequest where
  input : String
  output : String
  config : Config := {}
  /-- Show notes on what is done. -/
  verbose : Bool := false
  deriving DecidableEq, Repr

/-- A command with its arguments. -/
inductive Command where
  | stub (request : StubRequest)
  /-- List the surface of the class in the file at `path`. -/
  | dump (path : String)
  deriving DecidableEq, Repr

/-- How the program is used. -/
def usageText : String :=
  "Derive stubs from compiled classes

Usage:
  abistub stub [OPTIONS] <INPUT>    Stub a class file, or every class file under a directory
  abistub dump <FILE>               List what a stub of a class file keeps
  abistub help [COMMAND]            Show this text

Options of stub:
  -o, --output <OUTPUT>    Output file or directory (default: <INPUT>.stub)
      --keep-anonymous     Stub anonymous and local classes of a directory too
      --omit-bodies        Write methods without bodies
      --no-verify          Do not verify stubs
  -v, --verbose            Show what is done

Options:
  -h, --help       Show this text
  -V, --version    Show the version
"

/-- The name of the program and its version. -/
def versionText : String :=
  "abistub 0.1.0\n"

namespace Command

open Arguments

/-- The option that asks for the usage. -/
def helpRule : OptionRule := { name := "help", letter := some 'h' }
/-- The option that asks for the version, before any command. -/
def versionRule : OptionRule := { name := "version", letter := some 'V' }
/-- The option that says where the stub goes. -/
def outputRule : OptionRule := { name := "output", letter := some 'o', takesValue := true }
/-- The option that keeps anonymous and local classes. -/
def keepAnonymousRule : OptionRule := { name := "keep-anonymous" }
/-- The option that leaves out method bodies. -/
def omitBodiesRule : OptionRule := { name := "omit-bodies" }
/-- The option that leaves out the verification. -/
def noVerifyRule : OptionRule := { name := "no-verify" }
/-- The option that shows notes. -/
def verboseRule : OptionRule := { name := "verbose", letter := some 'v' }

/-- What may stand before a command. -/
def rootGrammar : Grammar where
  options := []
  stops := [(helpRule, .help), (versionRule, .version)]

/-- The options of the command that stubs. -/
def stubGrammar : Grammar where
  options := [outputRule, keepAnonymousRule, omitBodiesRule, noVerifyRule, verboseRule]
  stops := [(helpRule, .help)]

/-- The options of the command that lists a surface. -/
def dumpGrammar : Grammar where
  options := []
  stops := [(helpRule, .help)]

/-- The settings that the options ask for. -/
def configOf (arguments : Arguments) : Config where
  bodies := if arguments.has omitBodiesRule then .omit else .throwNull
  verify := !arguments.has noVerifyRule
  skipAnonymous := !arguments.has keepAnonymousRule

/-- Read the arguments of a command that needs an operand. -/
def readWithOperand (grammar : Grammar) (texts : List String) :
    Except ArgumentsEnd (String × Arguments) := do
  let arguments ← grammar.read texts none {}
  match arguments.operand with
  | some operand => return (operand, arguments)
  | none => throw .misuse

/-- Read the arguments of the command that stubs. -/
def readStub (texts : List String) : Except ArgumentsEnd Command := do
  let (input, arguments) ← readWithOperand stubGrammar texts
  return .stub {
    input
    output := (arguments.value? outputRule).getD (input ++ ".stub")
    config := configOf arguments
    verbose := arguments.has verboseRule }

/-- Read the arguments of the command that lists a surface. -/
def readDump (texts : List String) : Except ArgumentsEnd Command := do
  let (path, _) ← readWithOperand dumpGrammar texts
  return .dump path

/-- What a request for help leads to: help is there for each command and on help itself. -/
def helpOn : List String → ArgumentsEnd
  | [] => .help
  | [command] => if command ∈ ["stub", "dump", "help"] then .help else .misuse
  | _ => .misuse

/-- The command that the arguments of the program spell. -/
def ofArguments : List String → Except ArgumentsEnd Command
  | "stub" :: texts => readStub texts
  | "dump" :: texts => readDump texts
  | "help" :: texts => throw (helpOn texts)
  | texts => do
    let _ ← rootGrammar.read (texts.take 1) none {}
    throw .misuse

end Command

end ClassStub
