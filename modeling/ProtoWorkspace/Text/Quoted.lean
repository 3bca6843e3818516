import ProtoWorkspace.Text.Hex
import ProtoWorkspace.Text.Printable

/-!
# Quoted display of text

The form in which messages and listings show a text or a character: between quotes, with a
backslash before what would end or confuse it, and with the number of every character that has no
picture of its own.
-/

namespace ProtoWorkspace.Text

/-- The hexadecimal digits of a number, without leading zeros. -/
def hexNumber (n : Nat) : String :=
  String.ofList (Nat.toDigits 16 n)

/-- How one character is shown between the given quotes. -/
def shownChar (quote c : Char) : String :=
  if c = '\x00' then "\\0"
  else if c = '\t' then "\\t"
  else if c = '\n' then "\\n"
  else if c = '\r' then "\\r"
  else if c = '\\' ∨ c = quote then "\\" ++ String.singleton c
  else if isPictured c then String.singleton c
  else "\\u\x7b" ++ hexNumber c.toNat ++ "\x7d"

def quoted (s : String) : String :=
  "\"" ++ String.join (s.toList.map (shownChar '\"')) ++ "\""

def quotedChar (c : Char) : String :=
  "'" ++ shownChar '\'' c ++ "'"

/-- A text between backquotes, as messages cite keys and values. -/
def cited (s : String) : String :=
  "`" ++ s ++ "`"

end ProtoWorkspace.Text

namespace ProtoWorkspace.Hex

def Fault.message : Fault → String
  | .oddLength => "Odd number of digits"
  | .badCharacter byte position =>
    "Invalid character " ++ Text.quotedChar (Char.ofNat byte.toNat) ++ " at position " ++
      toString position

end ProtoWorkspace.Hex
