import Mathlib
import ProtoWorkspace.Proofs.Digest.Text
import ProtoWorkspace.Proofs.Fallible
import ProtoWorkspace.Proofs.Text.LowerCase

/-!
# Which texts are digests

A text is read as a digest exactly when its lower-case form is the text of that digest. So the letters of a
digest may have either case, which is all in which two texts of one digest differ. Main statement:
`Digest.reads_either_case`.
-/

namespace ProtoWorkspace

open Fallible

/-! ## Rows of bytes -/

namespace Hex

open Text

variable {c : Char} {cs : List Char} {bytes : List UInt8} {position : Nat}

theorem digitsOfByte_byteOfDigits (high low : Fin 16) :
    digitsOfByte (byteOfDigits high low) = [high, low] := by
  have value : (byteOfDigits high low).toNat = 16 * high.val + low.val := by
    rw [byteOfDigits, UInt8.toNat_ofNat']
    omega
  rw [digitsOfByte, value]
  simp only [Fin.ofNat, List.cons.injEq, and_true, Fin.ext_iff]
  omega

theorem decodePairs_eq_ok : decodePairs position cs = .ok bytes ↔ cs.map Char.toLower = encode bytes := by
  constructor
  · intro h
    fun_induction decodePairs position cs generalizing bytes with
    | case1 =>
      cases h
      rfl
    | case5 position c d rest high low hhigh hlow ih =>
      obtain ⟨others, read, rfl⟩ := map_eq_ok.1 h
      rw [encode, List.flatMap_cons, digitsOfByte_byteOfDigits, ← encode, ← ih read]
      simp [digit?_eq_some.1 hhigh, digit?_eq_some.1 hlow]
    | _ => cases h
  · intro h
    induction bytes generalizing cs position with
    | nil =>
      obtain rfl := List.map_eq_nil_iff.1 h
      rfl
    | cons b bytes ih =>
      rw [encode_cons] at h
      obtain ⟨c, cs, rfl, hc, h⟩ := List.map_eq_cons_iff.1 h
      obtain ⟨d, rest, rfl, hd, h⟩ := List.map_eq_cons_iff.1 h
      rw [decodePairs, digit?_eq_some.2 hc, digit?_eq_some.2 hd]
      dsimp only
      rw [ih h, byteOfDigits_digitsOfByte]
      rfl

theorem utf8Length_map_toLower (cs : List Char) : utf8Length (cs.map Char.toLower) = utf8Length cs := by
  simp [utf8Length, List.foldr_map, utf8Size_toLower]

/-- A text is read as the bytes that its lower-case form is written for. -/
theorem decode_eq_ok : decode cs = .ok bytes ↔ cs.map Char.toLower = encode bytes := by
  rw [decode]
  split
  · next odd =>
    refine iff_of_false (by simp) fun h => ?_
    rw [← utf8Length_map_toLower, h, utf8Length_encode] at odd
    omega
  · exact decodePairs_eq_ok

theorem length_encode (bytes : List UInt8) : (encode bytes).length = 2 * bytes.length := by
  induction bytes with
  | nil => rfl
  | cons b bytes ih =>
    rw [encode_cons, List.length_cons, List.length_cons, ih, List.length_cons]
    omega

theorem mem_encode (h : c ∈ encode bytes) : ∃ d, c = digitChar d := by
  obtain ⟨b, -, hc⟩ := List.mem_flatMap.1 h
  obtain ⟨d, -, rfl⟩ := List.mem_map.1 hc
  exact ⟨d, rfl⟩

/-- The texts of so many bytes are the rows of twice as many digits, in either case. -/
theorem exists_encode_iff {n : Nat} :
    (∃ bytes, bytes.length = n ∧ cs.map Char.toLower = encode bytes) ↔
      cs.length = 2 * n ∧ ∀ c ∈ cs, IsDigit c := by
  constructor
  · rintro ⟨bytes, rfl, h⟩
    refine ⟨?_, fun c hc => ?_⟩
    · rw [← length_encode, ← h, List.length_map]
    · obtain ⟨d, hd⟩ := mem_encode (h ▸ List.mem_map_of_mem hc)
      rw [isDigit_iff, digit?_eq_some.2 hd]
      rfl
  · rintro ⟨length, digits⟩
    induction n generalizing cs with
    | zero =>
      obtain rfl := List.length_eq_zero_iff.1 length
      exact ⟨[], rfl, rfl⟩
    | succ n ih =>
      obtain ⟨c, cs, rfl⟩ := List.exists_cons_of_length_eq_add_one length
      rw [List.length_cons, Nat.mul_succ, Nat.add_right_cancel_iff] at length
      obtain ⟨d, rest, rfl⟩ := List.exists_cons_of_length_eq_add_one length
      obtain ⟨hc, hd, digits⟩ := by simpa only [List.forall_mem_cons] using digits
      obtain ⟨high, hhigh⟩ := Option.isSome_iff_exists.1 (isDigit_iff.1 hc)
      obtain ⟨low, hlow⟩ := Option.isSome_iff_exists.1 (isDigit_iff.1 hd)
      obtain ⟨bytes, rfl, h⟩ := ih (Nat.add_right_cancel length) digits
      refine ⟨byteOfDigits high low :: bytes, rfl, ?_⟩
      rw [encode, List.flatMap_cons, digitsOfByte_byteOfDigits, ← encode, ← h]
      simp [digit?_eq_some.1 hhigh, digit?_eq_some.1 hlow]

end Hex

/-! ## Texts of digests -/

namespace DigestType

theorem parse?_eq_some {cs : List Char} {type : DigestType} :
    parse? cs = some type ↔ cs.map Char.toLower = type.text.toList := by
  unfold parse?
  split
  · next h => cases type <;> simp [h, text]
  · next h => cases type <;> simp [h, text]
  · next four five =>
    refine iff_of_false nofun fun h => ?_
    cases type
    · exact four h
    · exact five h

theorem exists_text_iff {generation : Char} :
    (∃ type : DigestType, type.text.toList = ['b', generation]) ↔ generation = '4' ∨ generation = '5' := by
  constructor
  · rintro ⟨type, h⟩
    cases type
    · exact .inl (List.cons.inj (List.cons.inj h).2).1.symm
    · exact .inr (List.cons.inj (List.cons.inj h).2).1.symm
  · rintro (rfl | rfl)
    · exact ⟨.b4, rfl⟩
    · exact ⟨.b5, rfl⟩

theorem exists_generation (type : DigestType) : ∃ generation, type.text.toList = ['b', generation] := by
  cases type
  · exact ⟨'4', rfl⟩
  · exact ⟨'5', rfl⟩

end DigestType

namespace Digest

open Text

variable {s : String} {d : Digest}

theorem parseType_eq_ok {type : DigestType} : parseType s = .ok type ↔ s.toLower = type.text := by
  have spelled : s.toLower = type.text ↔ DigestType.parse? s.toList = some type := by
    rw [DigestType.parse?_eq_some, ← String.toList_inj, toList_toLower]
  rw [spelled, parseType]
  cases DigestType.parse? s.toList <;> simp

theorem ofBytes_eq_ok {type : DigestType} {value : List UInt8} :
    ofBytes type value = .ok d ↔ d.type = type ∧ d.value = value := by
  unfold ofBytes
  split
  · next length =>
    constructor
    · rintro ⟨⟩
      exact ⟨rfl, rfl⟩
    · rintro ⟨rfl, rfl⟩
      rfl
  · next length =>
    refine iff_of_false (by simp) ?_
    rintro ⟨-, rfl⟩
    exact length d.length_value

/-- The generation ends at the first colon. -/
theorem parse_of_colon {type digits : List Char} (split : s.toList = type ++ ':' :: digits)
    (first : ':' ∉ type) : parse s = .ok d ↔
      type.map Char.toLower = d.type.text.toList ∧ digits.map Char.toLower = Hex.encode d.value := by
  have before : ∀ c ∈ type, (c != ':') = true := by
    intro c hc
    simpa using fun same : c = ':' => first (same ▸ hc)
  have span : s.toList.span (· != ':') = (type, ':' :: digits) := by
    rw [split, List.span_eq_takeWhile_dropWhile, List.takeWhile_append_of_pos before,
      List.dropWhile_append_of_pos before]
    simp
  have ofType (t : DigestType) : parseType (String.ofList type) = .ok t ↔
      type.map Char.toLower = t.text.toList := by
    rw [parseType_eq_ok, ← String.toList_inj, toList_toLower, String.toList_ofList]
  simp only [parse, span, bind_eq_ok, ofType, ← Hex.decode_eq_ok]
  cases Hex.decode digits with
  | error fault => simp
  | ok value =>
    simp only [ofBytes_eq_ok, Except.ok.injEq]
    constructor
    · rintro ⟨_, htype, rfl, rfl⟩
      exact ⟨htype, rfl⟩
    · rintro ⟨htype, rfl⟩
      exact ⟨_, htype, rfl, rfl⟩

theorem parse_of_no_colon (none : ':' ∉ s.toList) : parse s = .error (.invalid s .missingType) := by
  have all : ∀ c ∈ s.toList, (c != ':') = true := by
    intro c hc
    simpa using fun same : c = ':' => none (same ▸ hc)
  have span : s.toList.span (· != ':') = (s.toList, []) := by
    rw [List.span_eq_takeWhile_dropWhile, List.takeWhile_eq_self_iff.2 all,
      List.dropWhile_eq_nil_iff.2 all]
  simp only [parse, span]

theorem colon_mem_map_toLower {cs : List Char} : ':' ∈ cs.map Char.toLower ↔ ':' ∈ cs := by
  have colon {c : Char} : c.toLower = ':' ↔ c = ':' := toLower_eq_iff (by decide)
  simp [List.mem_map, colon]

/-- A text is read as the digest whose text its lower-case form is. -/
theorem parse_eq_ok : parse s = .ok d ↔ s.toLower = d.text := by
  have inType : ':' ∉ d.type.text.toList := by cases d.type <;> decide
  have inValue : ':' ∉ Hex.encode d.value := by
    intro h
    obtain ⟨digit, hdigit⟩ := Hex.mem_encode h
    have never : ∀ digit, ':' ≠ Hex.digitChar digit := by decide
    exact never digit hdigit
  rw [← String.toList_inj, toList_toLower, toList_text]
  by_cases colon : ':' ∈ s.toList
  · obtain ⟨type, digits, split, first⟩ := List.eq_append_cons_of_mem colon
    have mark : (':' : Char).toLower = ':' := rfl
    rw [parse_of_colon split first, split, List.map_append, List.map_cons, mark]
    constructor
    · rintro ⟨htype, hvalue⟩
      rw [htype, hvalue]
    · intro whole
      obtain ⟨htype, -, hvalue⟩ :=
        (List.append_cons_inj_of_notMem inType inValue).1 whole.symm
      exact ⟨htype.symm, hvalue.symm⟩
  · rw [parse_of_no_colon colon]
    refine iff_of_false nofun fun h => ?_
    rw [← colon_mem_map_toLower, h] at colon
    simp at colon

/-- Whether a text is made of a generation in either case, a colon and 128 digits in either case. -/
def IsSpelled (s : String) : Prop :=
  ∃ letter generation digits, s.toList = letter :: generation :: ':' :: digits ∧
    (letter = 'b' ∨ letter = 'B') ∧ (generation = '4' ∨ generation = '5') ∧
    digits.length = 128 ∧ ∀ c ∈ digits, Hex.IsDigit c

theorem succeeds_parse_iff : Succeeds (parse s) ↔ IsSpelled s := by
  have lower {d : Digest} : parse s = .ok d ↔
      s.toList.map Char.toLower = d.type.text.toList ++ ':' :: Hex.encode d.value := by
    rw [parse_eq_ok, ← String.toList_inj, toList_toLower, toList_text]
  have unlettered {generation : Char} (h : generation = '4' ∨ generation = '5') :
      generation.isAlpha = false := by
    rcases h with rfl | rfl <;> decide
  constructor
  · rintro ⟨⟨type, value, length⟩, read⟩
    obtain ⟨g, htype⟩ := type.exists_generation
    have hg := DigestType.exists_text_iff.1 ⟨type, htype⟩
    rw [lower, htype] at read
    obtain ⟨letter, others, split, hletter, behind⟩ := List.map_eq_cons_iff.1 read
    obtain ⟨generation, marked, rfl, hgeneration, behind⟩ := List.map_eq_cons_iff.1 behind
    obtain ⟨mark, digits, rfl, hmark, hvalue⟩ := List.map_eq_cons_iff.1 behind
    obtain rfl := (toLower_eq_iff (by decide)).1 hmark
    obtain rfl := (toLower_eq_iff (unlettered hg)).1 hgeneration
    exact ⟨letter, generation, digits, split, toLower_eq_b_iff.1 hletter, hg,
      Hex.exists_encode_iff.1 ⟨value, length, hvalue⟩⟩
  · rintro ⟨letter, generation, digits, split, hletter, hg, spelled⟩
    obtain ⟨type, htype⟩ := DigestType.exists_text_iff.2 hg
    obtain ⟨value, length, hvalue⟩ := (@Hex.exists_encode_iff digits 64).2 spelled
    have same : generation.toLower = generation := (toLower_eq_iff (unlettered hg)).2 rfl
    have mark : (':' : Char).toLower = ':' := rfl
    refine ⟨⟨type, value, length⟩, lower.2 ?_⟩
    rw [split, htype, ← hvalue]
    simp [toLower_eq_b_iff.2 hletter, same, mark]

theorem text_inj {d' : Digest} : d.text = d'.text ↔ d = d' := by
  refine ⟨fun same => ?_, congrArg text⟩
  have read := parse_text d
  rw [same, parse_text] at read
  exact (Except.ok.inj read).symm

/-- A text is a digest exactly when it is made of a generation, a colon and 128 digits, whose letters may
have either case. The text of the digest is the text in lower case. So two texts are one digest exactly
when they are the same up to case, and every digest is read back from its own text. -/
theorem reads_either_case (s : String) :
    (Succeeds (parse s) ↔ IsSpelled s) ∧
    (∀ d, parse s = .ok d → d.text = s.toLower ∧
      ∀ s' d', parse s' = .ok d' → (d = d' ↔ s.toLower = s'.toLower)) ∧
    ∀ d : Digest, parse d.text = .ok d := by
  refine ⟨succeeds_parse_iff, fun d read => ?_, parse_text⟩
  have lower := parse_eq_ok.1 read
  refine ⟨lower.symm, fun s' d' read' => ?_⟩
  rw [lower, parse_eq_ok.1 read', text_inj]

end Digest

namespace Sample

/-- A digest of which all bits are set. -/
def fullDigest : Digest :=
  ⟨.b5, List.replicate 64 255, rfl⟩

def fullDigestText (generation digit : Char) : String :=
  String.ofList ('B' :: generation :: ':' :: List.replicate 128 digit)

/-- In upper case a digest is read as in lower case. -/
theorem parse_fullDigestText : Digest.parse (fullDigestText '5' 'F') = .ok fullDigest ∧
    Digest.parse (fullDigestText '5' 'f') = .ok fullDigest ∧
    fullDigest.text = (fullDigestText '5' 'F').toLower ∧
    (fullDigestText '5' 'F').toLower = (fullDigestText '5' 'f').toLower := by
  have upper : Digest.parse (fullDigestText '5' 'F') = .ok fullDigest := by cbv
  have mixed : Digest.parse (fullDigestText '5' 'f') = .ok fullDigest := by cbv
  obtain ⟨lower, same⟩ := (Digest.reads_either_case (fullDigestText '5' 'F')).2.1 fullDigest upper
  exact ⟨upper, mixed, lower, (same _ fullDigest mixed).1 rfl⟩

end Sample

end ProtoWorkspace
