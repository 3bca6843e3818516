/-!
# Bytes shown as text

Bytes that should be text need not be any. They are shown all the same: a byte that begins no character
stands for one mark, and so do bytes that begin a character together and do not end it. A text is shown
as it is (`mended_toUTF8`).
-/

namespace ProtoWorkspace.Text

/-- A character of which some bytes have been read. -/
structure Begun where
  /-- What its bytes so far stand for. -/
  number : Nat
  /-- How many bytes it lacks. -/
  missing : Nat
  /-- The next byte is in this range. -/
  least : Nat
  greatest : Nat

/-- What stands for bytes that are no character. -/
def replacement : Char := '\uFFFD'

/-- Reads the first byte of a character. -/
def readFirst (byte : Nat) : List Char × Option Begun :=
  if byte < 0x80 then ([Char.ofNat byte], none)
  else if byte < 0xC2 then ([replacement], none)
  else if byte < 0xE0 then ([], some ⟨byte - 0xC0, 1, 0x80, 0xBF⟩)
  else if byte < 0xF0 then
    ([], some ⟨byte - 0xE0, 2, if byte = 0xE0 then 0xA0 else 0x80, if byte = 0xED then 0x9F else 0xBF⟩)
  else if byte < 0xF5 then
    ([], some ⟨byte - 0xF0, 3, if byte = 0xF0 then 0x90 else 0x80, if byte = 0xF4 then 0x8F else 0xBF⟩)
  else ([replacement], none)

/-- Reads one more byte. A byte that does not go on with the character that has begun is the first of
another one. -/
def readByte : Option Begun → Nat → List Char × Option Begun
  | none, byte => readFirst byte
  | some c, byte =>
    if c.least ≤ byte ∧ byte ≤ c.greatest then
      let number := 64 * c.number + (byte - 0x80)
      if c.missing = 1 then ([Char.ofNat number], none)
      else ([], some ⟨number, c.missing - 1, 0x80, 0xBF⟩)
    else
      let (cs, begun) := readFirst byte
      (replacement :: cs, begun)

def readBytes : Option Begun → List UInt8 → List Char
  | begun, [] => if begun.isSome then [replacement] else []
  | begun, byte :: rest =>
    let (cs, begun) := readByte begun byte.toNat
    cs ++ readBytes begun rest

/-- Bytes as a text. -/
def mended (bytes : ByteArray) : String :=
  String.ofList (readBytes none bytes.data.toList)

theorem readBytes_cons {begun begun' : Option Begun} {byte : Nat} {cs : List Char} (small : byte < 256)
    (h : readByte begun byte = (cs, begun')) (rest : List UInt8) :
    readBytes begun (UInt8.ofNat byte :: rest) = cs ++ readBytes begun' rest := by
  have same : (UInt8.ofNat byte).toNat = byte := UInt8.toNat_ofNat_of_lt small
  rw [readBytes, same, h]

-- Two bytes of a character of three do not go on, and another byte begins none.
example : mended ⟨#[0x61, 0xE2, 0x82, 0xFF, 0x62]⟩ = "a\uFFFD\uFFFDb" := by decide

/-- A byte that completes a character. -/
theorem readByte_last (n : Nat) :
    readByte (some ⟨n / 64, 1, 0x80, 0xBF⟩) (n % 64 + 128) = ([Char.ofNat n], none) := by
  have range : 0x80 ≤ n % 64 + 128 ∧ n % 64 + 128 ≤ 0xBF := by omega
  have number : 64 * (n / 64) + (n % 64 + 128 - 0x80) = n := by omega
  simp only [readByte, range, and_self, if_true, number]

/-- A byte of a character that is neither the first nor the last. -/
theorem readByte_inner (n missing : Nat) {least greatest : Nat} (least_le : least ≤ n % 64 + 128)
    (le_greatest : n % 64 + 128 ≤ greatest) :
    readByte (some ⟨n / 64, missing + 2, least, greatest⟩) (n % 64 + 128) =
      ([], some ⟨n, missing + 1, 0x80, 0xBF⟩) := by
  have number : 64 * (n / 64) + (n % 64 + 128 - 0x80) = n := by omega
  have more : missing + 2 ≠ 1 := by omega
  have fewer : missing + 2 - 1 = missing + 1 := by omega
  simp only [readByte, least_le, le_greatest, and_self, if_true, more, if_false, number, fewer]

theorem readByte_two {n : Nat} (h : 0x80 ≤ n) (h' : n < 0x800) :
    readByte none (n / 64 % 32 + 192) = ([], some ⟨n / 64, 1, 0x80, 0xBF⟩) := by
  have number : n / 64 % 32 + 192 - 0xC0 = n / 64 := by omega
  have range : ¬ n / 64 % 32 + 192 < 0xC2 ∧ n / 64 % 32 + 192 < 0xE0 := by omega
  have more : ¬ n / 64 % 32 + 192 < 0x80 := by omega
  simp only [readByte, readFirst, more, range, number, if_true, if_false]

/-- The first of three bytes excludes what two bytes could say, and what is no character. -/
theorem readByte_three {n : Nat} (h' : n < 0x10000) :
    readByte none (n / 4096 % 16 + 224) = ([], some ⟨n / 4096, 2,
      if n / 4096 = 0 then 0xA0 else 0x80, if n / 4096 = 0xD then 0x9F else 0xBF⟩) := by
  have number : n / 4096 % 16 + 224 - 0xE0 = n / 4096 := by omega
  have range : ¬ n / 4096 % 16 + 224 < 0xE0 ∧ n / 4096 % 16 + 224 < 0xF0 := by omega
  have more : ¬ n / 4096 % 16 + 224 < 0x80 ∧ ¬ n / 4096 % 16 + 224 < 0xC2 := by omega
  have least : n / 4096 % 16 + 224 = 0xE0 ↔ n / 4096 = 0 := by omega
  have greatest : n / 4096 % 16 + 224 = 0xED ↔ n / 4096 = 0xD := by omega
  simp only [readByte, readFirst, more, range, number, least, greatest, if_true, if_false]

theorem readByte_four {n : Nat} (h' : n < 0x110000) :
    readByte none (n / 262144 % 8 + 240) = ([], some ⟨n / 262144, 3,
      if n / 262144 = 0 then 0x90 else 0x80, if n / 262144 = 4 then 0x8F else 0xBF⟩) := by
  have number : n / 262144 % 8 + 240 - 0xF0 = n / 262144 := by omega
  have range : ¬ n / 262144 % 8 + 240 < 0xF0 ∧ n / 262144 % 8 + 240 < 0xF5 := by omega
  have more : ¬ n / 262144 % 8 + 240 < 0x80 ∧ ¬ n / 262144 % 8 + 240 < 0xC2 ∧
      ¬ n / 262144 % 8 + 240 < 0xE0 := by omega
  have least : n / 262144 % 8 + 240 = 0xF0 ↔ n / 262144 = 0 := by omega
  have greatest : n / 262144 % 8 + 240 = 0xF4 ↔ n / 262144 = 4 := by omega
  simp only [readByte, readFirst, more, range, number, least, greatest, if_true, if_false]

/-! Characters of one to four bytes, by their numbers. -/

section Lengths

variable {n : Nat} (rest : List UInt8)

theorem readBytes_one (h : n < 0x80) :
    readBytes none (UInt8.ofNat n :: rest) = Char.ofNat n :: readBytes none rest := by
  have read : readByte none n = ([Char.ofNat n], none) := by
    simp only [readByte, readFirst, h, if_true]
  rw [readBytes_cons (by omega) read]
  rfl

theorem readBytes_two (h : 0x80 ≤ n) (h' : n < 0x800) :
    readBytes none (UInt8.ofNat (n / 64 % 32 + 192) :: UInt8.ofNat (n % 64 + 128) :: rest) =
      Char.ofNat n :: readBytes none rest := by
  rw [readBytes_cons (by omega) (readByte_two h h'), readBytes_cons (by omega) (readByte_last n)]
  rfl

theorem readBytes_three (h : 0x800 ≤ n) (h' : n < 0x10000) (valid : n < 0xD800 ∨ 0xDFFF < n) :
    readBytes none (UInt8.ofNat (n / 4096 % 16 + 224) :: UInt8.ofNat (n / 64 % 64 + 128) ::
      UInt8.ofNat (n % 64 + 128) :: rest) = Char.ofNat n :: readBytes none rest := by
  have upper : n / 4096 = n / 64 / 64 := (Nat.div_div_eq_div_mul n 64 64).symm
  have least : (if n / 64 / 64 = 0 then 0xA0 else 0x80) ≤ n / 64 % 64 + 128 := by
    split <;> omega
  have greatest : n / 64 % 64 + 128 ≤ if n / 64 / 64 = 0xD then 0x9F else 0xBF := by
    split <;> omega
  have first := readByte_three h'
  rw [upper] at first
  rw [upper, readBytes_cons (by omega) first,
    readBytes_cons (by omega) (readByte_inner (n / 64) 0 least greatest),
    readBytes_cons (by omega) (readByte_last n)]
  rfl

theorem readBytes_four (h : 0x10000 ≤ n) (h' : n < 0x110000) :
    readBytes none (UInt8.ofNat (n / 262144 % 8 + 240) :: UInt8.ofNat (n / 4096 % 64 + 128) ::
      UInt8.ofNat (n / 64 % 64 + 128) :: UInt8.ofNat (n % 64 + 128) :: rest) =
        Char.ofNat n :: readBytes none rest := by
  have upper : n / 4096 = n / 64 / 64 := (Nat.div_div_eq_div_mul n 64 64).symm
  have upper' : n / 262144 = n / 4096 / 64 := (Nat.div_div_eq_div_mul n 4096 64).symm
  have least : (if n / 4096 / 64 = 0 then 0x90 else 0x80) ≤ n / 4096 % 64 + 128 := by
    split <;> omega
  have greatest : n / 4096 % 64 + 128 ≤ if n / 4096 / 64 = 4 then 0x8F else 0xBF := by
    split <;> omega
  have first := readByte_four h'
  rw [upper'] at first
  have third := readByte_inner (n / 64) 0 (by omega : 0x80 ≤ _) (by omega : _ ≤ 0xBF)
  rw [← upper] at third
  rw [upper', readBytes_cons (by omega) first,
    readBytes_cons (by omega) (readByte_inner (n / 4096) 1 least greatest),
    readBytes_cons (by omega) third, readBytes_cons (by omega) (readByte_last n)]
  rfl

end Lengths

/-- The bytes of a character are read as this character. -/
theorem readBytes_utf8EncodeChar (c : Char) (rest : List UInt8) :
    readBytes none (String.utf8EncodeChar c ++ rest) = c :: readBytes none rest := by
  have valid : c.toNat < 0xD800 ∨ 0xDFFF < c.toNat ∧ c.toNat < 0x110000 := c.valid
  have whole : Char.ofNat c.toNat = c := Char.ofNat_toNat c
  have size : c.val.toNat = c.toNat := rfl
  unfold String.utf8EncodeChar
  rw [size]
  generalize c.toNat = n at valid whole
  rw [← whole]
  dsimp only
  split
  · exact readBytes_one rest (by omega)
  · split
    · exact readBytes_two rest (by omega) (by omega)
    · split
      · exact readBytes_three rest (by omega) (by omega) (by omega)
      · exact readBytes_four rest (by omega) (by omega)

/-- A text is shown as it is. -/
theorem mended_toUTF8 (s : String) : mended s.toUTF8 = s := by
  have read (cs : List Char) : readBytes none (cs.flatMap String.utf8EncodeChar) = cs := by
    induction cs with
    | nil => rfl
    | cons c cs ih => rw [List.flatMap_cons, readBytes_utf8EncodeChar, ih]
  have bytes : s.toUTF8.data.toList = s.toList.flatMap String.utf8EncodeChar := by
    have encoded : s.toList.utf8Encode = s.toUTF8 := String.utf8Encode_toList
    rw [← encoded, List.utf8Encode, List.toList_data_toByteArray]
  rw [mended, bytes, read, String.ofList_toList]

end ProtoWorkspace.Text
