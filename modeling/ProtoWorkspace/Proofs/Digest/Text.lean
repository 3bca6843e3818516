import Mathlib.Tactic
import ProtoWorkspace.Digest

/-!
# Digests read back

Bytes in hexadecimal digits are read back, and so is a digest from its text.
-/

namespace ProtoWorkspace

namespace Hex

theorem byteOfDigits_digitsOfByte (b : UInt8) :
    byteOfDigits (Fin.ofNat 16 (b.toNat / 16)) (Fin.ofNat 16 b.toNat) = b := by
  have bound : b.toNat < 256 := b.toNat_lt
  rw [← UInt8.toNat_inj, byteOfDigits, UInt8.toNat_ofNat']
  simp only [Fin.ofNat]
  omega

theorem encode_cons (b : UInt8) (bytes : List UInt8) :
    encode (b :: bytes) = digitChar (Fin.ofNat 16 (b.toNat / 16)) ::
      digitChar (Fin.ofNat 16 b.toNat) :: encode bytes := rfl

theorem decodePairs_encode (bytes : List UInt8) (position : Nat) :
    decodePairs position (encode bytes) = .ok bytes := by
  induction bytes generalizing position with
  | nil => rfl
  | cons b bytes ih =>
    rw [encode_cons, decodePairs, digit?_digitChar, digit?_digitChar]
    dsimp only
    rw [ih, byteOfDigits_digitsOfByte]
    rfl

theorem utf8Length_encode (bytes : List UInt8) : utf8Length (encode bytes) = 2 * bytes.length := by
  have size : ∀ d : Fin 16, (digitChar d).utf8Size = 1 := by decide
  induction bytes with
  | nil => rfl
  | cons b bytes ih =>
    rw [utf8Length] at ih ⊢
    rw [encode_cons, List.foldr_cons, List.foldr_cons, ih, size, size, List.length_cons]
    omega

theorem decode_encode (bytes : List UInt8) : decode (encode bytes) = .ok bytes := by
  rw [decode, utf8Length_encode, if_neg (by omega), decodePairs_encode]

end Hex

namespace Digest

theorem parseType_text (type : DigestType) : parseType type.text = .ok type := by
  cases type <;> rfl

theorem toList_text (d : Digest) :
    d.text.toList = d.type.text.toList ++ ':' :: Hex.encode d.value := by
  simp [text, valueText]

theorem parse_text (d : Digest) : parse d.text = .ok d := by
  have noColon : ∀ c ∈ d.type.text.toList, (c != ':') = true := by
    cases d.type <;> exact List.all_eq_true.1 (by decide)
  have span : d.text.toList.span (· != ':') =
      (d.type.text.toList, ':' :: Hex.encode d.value) := by
    rw [toList_text, List.span_eq_takeWhile_dropWhile, List.takeWhile_append_of_pos noColon,
      List.dropWhile_append_of_pos noColon]
    simp
  simp only [parse, span, String.ofList_toList, parseType_text, Hex.decode_encode, ofBytes,
    d.length_value]
  rfl

end Digest

end ProtoWorkspace
