import ClassStub.Error

/-! # Reports

What a run of the program shows: an exit code and two texts. A failure is shown with everything
that caused it, one cause to a line. -/

namespace ClassStub

/-- What a run of the program shows. -/
structure Report where
  code : UInt32 := 0
  output : String := ""
  errors : String := ""
  deriving DecidableEq, Repr

/-- A failure: what was not done, and the causes from the outermost to the innermost. -/
structure Failure where
  headline : String
  causes : List String := []
  deriving DecidableEq, Repr

namespace Failure

/-- The failure that `doing` something led to `error`. -/
def ofError (doing : String) (error : StubError) : Failure :=
  ⟨s!"failed to {doing}", error.chain⟩

/-- The failure that `doing` something with a file led to `error`. -/
def ofFileError (doing : String) (error : FileError) : Failure :=
  ⟨s!"failed to {doing}", [error.message]⟩

/-- Start every line of a text but the first with `margin`. -/
def hang (margin text : String) : String :=
  ("\n" ++ margin).intercalate (text.splitOn "\n")

/-- The number of a cause, right-aligned. -/
def causeNumber (index : Nat) : String :=
  let digits := toString index
  String.ofList (List.replicate (5 - digits.length) ' ') ++ digits

/-- The lines of the causes. A single cause is indented; several are numbered. -/
def causeLines : List String → List String
  | [] => []
  | [cause] => ["    " ++ hang "    " cause]
  | causes => causes.mapIdx fun index cause => causeNumber index ++ ": " ++ hang "       " cause

/-- The wording of a failure. -/
def text (failure : Failure) : String :=
  let causes := match causeLines failure.causes with
    | [] => []
    | lines => "" :: "Caused by:" :: lines
  String.join ((("Error: " ++ failure.headline) :: causes).map (· ++ "\n"))

end Failure

end ClassStub
