import ClassStub.Text

/-! # Quoted text

The form in which a text is shown to a programmer: between double quotes, with the usual escapes
for quotes, backslash and the common control characters, and `\u{hex}` for the other control
characters and for unpaired surrogates. -/

namespace ClassStub.JavaText

/-- The characters of the ranges C0 and C1 of control characters, and DEL. -/
def isControl (char : Char) : Bool :=
  char.toNat < 0x20 || (0x7F ≤ char.toNat && char.toNat < 0xA0)

/-- An escape that names a code in hexadecimal. -/
def codeEscape (code : Nat) : String :=
  "\\u\x7b" ++ hexDigits 1 code ++ "\x7d"

/-- One character inside quotes. -/
def quoteChar (char : Char) : String :=
  match char with
  | '\x00' => "\\0"
  | '\t' => "\\t"
  | '\r' => "\\r"
  | '\n' => "\\n"
  | '\'' => "\\'"
  | '"' => "\\\""
  | '\\' => "\\\\"
  | other => if isControl other then codeEscape other.toNat else other.toString

/-- The text between double quotes. -/
def quoted (text : JavaText) : String :=
  let body := text.pieces.map fun
    | .scalar char => quoteChar char
    | .unpaired unit => codeEscape unit.toNat
  "\"" ++ String.join body ++ "\""

end ClassStub.JavaText
