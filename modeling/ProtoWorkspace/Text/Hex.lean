/-!
# Hexadecimal digits

A byte is written as two digits, the high half first, in lower case. Reading takes either case.
Main statement: a digit that was written reads back.
-/

namespace ProtoWorkspace.Hex

def digitChar (d : Fin 16) : Char :=
  if d.val < 10 then Char.ofNat (48 + d.val) else Char.ofNat (87 + d.val)

/-- The digit that a character stands for, in either case. -/
def digit? (c : Char) : Option (Fin 16) :=
  let n := c.toNat
  if 48 ≤ n ∧ n ≤ 57 then some (Fin.ofNat 16 (n - 48))
  else if 97 ≤ n ∧ n ≤ 102 then some (Fin.ofNat 16 (n - 87))
  else if 65 ≤ n ∧ n ≤ 70 then some (Fin.ofNat 16 (n - 55))
  else none

theorem digit?_digitChar (d : Fin 16) : digit? (digitChar d) = some d := by
  revert d; decide

def digitsOfByte (b : UInt8) : List (Fin 16) :=
  [Fin.ofNat 16 (b.toNat / 16), Fin.ofNat 16 b.toNat]

def byteOfDigits (high low : Fin 16) : UInt8 :=
  UInt8.ofNat (16 * high.val + low.val)

/-- Two lower-case digits per byte. -/
def encode (bytes : List UInt8) : List Char :=
  bytes.flatMap fun b => (digitsOfByte b).map digitChar

/-- Why a text is not a row of bytes. The position of a wrong character counts bytes of UTF-8, and
`byte` is the first of its bytes. -/
inductive Fault where
  | oddLength
  | badCharacter (byte : UInt8) (position : Nat)
  deriving DecidableEq

def Fault.at (c : Char) (position : Nat) : Fault :=
  .badCharacter ((String.singleton c).toUTF8.data.toList.headD 0) position

/-- Reads digits two by two. Every character before `position` was a digit and so one byte long. -/
def decodePairs (position : Nat) : List Char → Except Fault (List UInt8)
  | [] => .ok []
  | [c] => .error (.at c position)
  | c :: d :: rest =>
    match digit? c, digit? d with
    | none, _ => .error (.at c position)
    | some _, none => .error (.at d (position + 1))
    | some high, some low => (byteOfDigits high low :: ·) <$> decodePairs (position + 2) rest

def utf8Length (cs : List Char) : Nat :=
  cs.foldr (fun c n => c.utf8Size + n) 0

/-- Reads a row of bytes: an odd length is told first, then the first character that is no
digit. -/
def decode (cs : List Char) : Except Fault (List UInt8) :=
  if utf8Length cs % 2 = 1 then .error .oddLength else decodePairs 0 cs

end ProtoWorkspace.Hex
