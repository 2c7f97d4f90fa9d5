import ClassStub.Bytes

/-! # Java text

A Java string is a sequence of 16-bit UTF-16 units in which surrogates need not be paired. Text
without unpaired surrogates is ordinary Unicode text. `JavaText.pieces` splits a text into the
scalar values it spells and the surrogates that are left over; conversion to `String`, the lossy
conversion and the quoted form are all read off that split. -/

namespace ClassStub

/-- A sequence of UTF-16 units; surrogates may be unpaired. -/
structure JavaText where
  units : List UInt16
  deriving DecidableEq, Hashable, Repr, Inhabited

/-- One step of the reading of a text: a scalar value, or a surrogate without its partner. -/
inductive TextPiece where
  | scalar (char : Char)
  | unpaired (unit : UInt16)
  deriving DecidableEq, Repr

namespace TextPiece

/-- The scalar value of a piece, if it is one. -/
def scalar? : TextPiece → Option Char
  | scalar char => some char
  | unpaired _ => none

/-- The scalar value of a piece, with U+FFFD in place of an unpaired surrogate. -/
def scalarOrReplacement : TextPiece → Char
  | scalar char => char
  | unpaired _ => '\uFFFD'

end TextPiece

namespace JavaText

/-- First half of a surrogate pair. -/
def isHighSurrogate (unit : UInt16) : Bool :=
  unit &&& 0xFC00 == 0xD800

/-- Second half of a surrogate pair. -/
def isLowSurrogate (unit : UInt16) : Bool :=
  unit &&& 0xFC00 == 0xDC00

/-- The supplementary character that the pair `high`, `low` spells. -/
def pairScalar (high low : UInt16) : Char :=
  Char.ofNat (0x10000 + (high.toNat - 0xD800) * 0x400 + (low.toNat - 0xDC00))

/-- The one or two units of a character. -/
def unitsOfChar (char : Char) : List UInt16 :=
  if char.toNat < 0x10000 then [char.toNat.toUInt16]
  else
    let offset := char.toNat - 0x10000
    [(0xD800 + offset / 0x400).toUInt16, (0xDC00 + offset % 0x400).toUInt16]

/-- Put `unit` before a text that is already split: a high surrogate joins the low one that
follows it, every other surrogate stays alone. -/
def consUnit (unit : UInt16) (rest : List TextPiece) : List TextPiece :=
  if isHighSurrogate unit then
    match rest with
    | .unpaired low :: more =>
      if isLowSurrogate low then .scalar (pairScalar unit low) :: more else .unpaired unit :: rest
    | _ => .unpaired unit :: rest
  else if isLowSurrogate unit then .unpaired unit :: rest
  else .scalar (Char.ofNat unit.toNat) :: rest

/-- The scalar values and unpaired surrogates of a text, in order. -/
def pieces (text : JavaText) : List TextPiece :=
  text.units.foldr consUnit []

/-- The text that spells `value`. -/
def ofString (value : String) : JavaText :=
  ⟨value.toList.flatMap unitsOfChar⟩

/-- The string that the text spells, if every surrogate is paired. -/
def toString? (text : JavaText) : Option String :=
  (text.pieces.mapM TextPiece.scalar?).map String.ofList

/-- The string that the text spells, with U+FFFD for each unpaired surrogate. -/
def toStringLossy (text : JavaText) : String :=
  String.ofList (text.pieces.map TextPiece.scalarOrReplacement)

end JavaText

end ClassStub
