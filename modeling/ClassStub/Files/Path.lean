import ClassStub.Bytes

/-! # Path texts

A path is a row of bytes whose parts are separated by slashes. Empty parts and single dots stand for
the place where they are found, and two dots for the place above. The bytes need not be the UTF-8
form of a text, in a path or in the name of a file. -/

namespace ClassStub

/-- The bytes of a path, or of the name of a file. -/
@[ext] structure PathText where
  bytes : Bytes
  deriving DecidableEq, Repr, Inhabited

/-- A text names files by its UTF-8 form. -/
instance : Coe String PathText where
  coe text := ⟨Bytes.ofString text⟩

instance : Append PathText where
  append front rest := ⟨front.bytes ++ rest.bytes⟩

/-- Names are in the order of their bytes. -/
instance : Ord PathText where
  compare a b := compare a.bytes b.bytes

namespace PathText

/-- The number of bytes. -/
def size (path : PathText) : Nat :=
  path.bytes.length

/-- The first bytes of a character in UTF-8: the bits that they hold, how many bytes are to follow,
and the bounds of the next one. -/
structure Unfinished where
  bits : Nat
  missing : Nat
  least : UInt8 := 0x80
  greatest : UInt8 := 0xBF

/-- What a first byte gives: a character, or the beginning of one. -/
def startCharacter (byte : UInt8) : Char ⊕ Unfinished :=
  if byte < 0x80 then .inl (Char.ofNat byte.toNat)
  else if byte < 0xC2 then .inl '\uFFFD'
  else if byte < 0xE0 then .inr { bits := byte.toNat % 0x20, missing := 1 }
  else if byte < 0xF0 then
    .inr {
      bits := byte.toNat % 0x10
      missing := 2
      least := if byte = 0xE0 then 0xA0 else 0x80
      greatest := if byte = 0xED then 0x9F else 0xBF }
  else if byte < 0xF5 then
    .inr {
      bits := byte.toNat % 0x8
      missing := 3
      least := if byte = 0xF0 then 0x90 else 0x80
      greatest := if byte = 0xF4 then 0x8F else 0xBF }
  else .inl '\uFFFD'

/-- The characters that are spelled behind an unfinished one, if there is one. U+FFFD stands for
each row of bytes that begins a character and does not finish it. -/
def characters : Option Unfinished → Bytes → List Char
  | none, [] => []
  | some _, [] => ['\uFFFD']
  | none, byte :: rest =>
    match startCharacter byte with
    | .inl char => char :: characters none rest
    | .inr start => characters (some start) rest
  | some front, byte :: rest =>
    if front.least ≤ byte ∧ byte ≤ front.greatest then
      let bits := front.bits * 0x40 + byte.toNat % 0x40
      match front.missing with
      | missing + 2 => characters (some { bits, missing := missing + 1 }) rest
      | _ => Char.ofNat bits :: characters none rest
    else
      match startCharacter byte with
      | .inl char => '\uFFFD' :: char :: characters none rest
      | .inr start => '\uFFFD' :: characters (some start) rest

/-- The text in which a path is shown. -/
def display (path : PathText) : String :=
  String.ofList (characters none path.bytes)

end PathText

namespace Path

/-- The byte between two parts. -/
def slash : UInt8 := 0x2F

/-- The byte before an extension. -/
def dot : UInt8 := 0x2E

/-- The parts between slashes, empty ones included. -/
def splitSlashes : Bytes → List Bytes
  | [] => [[]]
  | byte :: rest =>
    if byte = slash then [] :: splitSlashes rest
    else
      match splitSlashes rest with
      | part :: parts => (byte :: part) :: parts
      | [] => [[byte]]

/-- The parts of a path, empty ones included. -/
def parts (path : PathText) : List PathText :=
  (splitSlashes path.bytes).map PathText.mk

/-- The path of a row of parts. -/
def ofParts (parts : List PathText) : PathText :=
  ⟨[slash].intercalate (parts.map PathText.bytes)⟩

/-- Whether a path begins at the root of all files and not at the current directory. -/
def isAbsolute (path : PathText) : Bool :=
  path.bytes.head? == some slash

/-- The path to which `rest` leads from `path`. An absolute path leads there from anywhere. Under an
empty path a name stands alone; otherwise one slash separates the two. -/
def join (path rest : PathText) : PathText :=
  if isAbsolute rest then rest
  else if path = "" ∨ path.bytes.getLast? = some slash then path ++ rest
  else path ++ ("/" : PathText) ++ rest

/-- Parts that lead nowhere. The first part of a path is another matter: an empty one stands for the
root, and a dot for the current directory. -/
def isIdle (part : PathText) : Bool :=
  part = "" ∨ part = "."

/-- The parts that matter: without idle ones, except a dot at the beginning. -/
def components (path : PathText) : List PathText :=
  match parts path with
  | [] => []
  | first :: rest =>
    let rest := rest.filter fun part => !isIdle part
    if first = "" then rest else first :: rest

/-- The path that leads to `path` from `base`, if the components of `base` are the first ones of
`path`. -/
def stripPrefix? (path base : PathText) : Option PathText :=
  if isAbsolute path = isAbsolute base ∧ components base <+: components path then
    some (ofParts ((components path).drop (components base).length))
  else none

/-- The rows of parts that lead to a file and to the directories on the way to it, nearest first.
Every row, the given one too, goes from the last part to the first. None begins with an idle part
that has others above it. -/
def ancestorsFrom : List PathText → List (List PathText)
  | [] => []
  | part :: above =>
    if isIdle part ∧ above ≠ [] then ancestorsFrom above
    else (part :: above) :: ancestorsFrom above

/-- A path and the directories that it names on the way, the nearest first, each by its parts from
the last one to the first. Idle parts between others are kept. -/
def ancestors (path : PathText) : List (List PathText) :=
  if path = "" then [] else ancestorsFrom (parts path).reverse

/-- The path of a row of parts from the last one to the first. -/
def ofReversedParts (parts : List PathText) : PathText :=
  if parts = [("" : PathText)] then "/" else ofParts parts.reverse

/-- The directory that a path names before its last part, if it names one. -/
def parent? (path : PathText) : Option PathText :=
  (ancestors path).tail.head?.map ofReversedParts

/-- The extension of a file name: what follows its last dot, unless nothing stands before it. -/
def extension? (name : PathText) : Option PathText :=
  let reversed := name.bytes.reverse
  let ending := reversed.takeWhile (· != dot)
  match reversed.drop ending.length with
  | _ :: _ :: _ => if name = ".." then none else some ⟨ending.reverse⟩
  | _ => none

/-- The extension of the file that a path names. -/
def fileExtension? (path : PathText) : Option PathText :=
  (components path).getLast?.bind extension?

end Path

end ClassStub
