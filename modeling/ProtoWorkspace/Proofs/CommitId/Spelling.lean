import Mathlib
import ProtoWorkspace.CommitId
import ProtoWorkspace.Proofs.Text.LowerCase

/-!
# Spellings of a commit identifier

A commit identifier has four spellings: plain, hyphenated, hyphenated in braces, and hyphenated behind the
URN marker. A text is read as an identifier exactly when its lower-case form is one of them
(`CommitId.parse?_eq_some`).
-/

namespace ProtoWorkspace.CommitId

open Text

variable {c : CommitId} {cs : List Char}

theorem length_plainChars (c : CommitId) : c.plainChars.length = 32 := by
  rw [plainChars, List.length_map, c.length_digits]

theorem ofPlain?_eq_some : ofPlain? cs = some c ↔ cs.map Char.toLower = c.plainChars := by
  rw [ofPlain?, Option.bind_eq_bind, Option.bind_eq_some_iff, plainChars, ← Hex.mapM_digit?_eq_some]
  constructor
  · rintro ⟨ds, read, made⟩
    unfold ofDigits? at made
    split at made
    · cases made
      exact read
    · cases made
  · intro read
    exact ⟨c.digits, read, dif_pos c.length_digits⟩

/-! ## The hyphenated form -/

section Hyphens

variable {a b d e f xs : List Char}

/-- Whether five pieces have 8, 4, 4, 4 and 12 characters. -/
def AreGroups (a b d e f : List Char) : Prop :=
  a.length = 8 ∧ b.length = 4 ∧ d.length = 4 ∧ e.length = 4 ∧ f.length = 12

theorem AreGroups.groups_eq (h : AreGroups a b d e f) :
    groups (a ++ b ++ d ++ e ++ f) = [a, b, d, e, f] := by
  obtain ⟨ha, hb, hd, he, -⟩ := h
  simp (disch := omega) [groups, List.drop_append, List.drop_eq_nil_of_le, ha, hb, hd]

/-- 32 characters make five groups. -/
theorem exists_groups (h : xs.length = 32) :
    ∃ a b d e f, AreGroups a b d e f ∧ xs = a ++ b ++ d ++ e ++ f := by
  have cut (n k : ℕ) : (xs.drop n).take k ++ xs.drop (n + k) = xs.drop n := by
    rw [← List.drop_drop, List.take_append_drop]
  refine ⟨xs.take 8, (xs.drop 8).take 4, (xs.drop 12).take 4, (xs.drop 16).take 4, xs.drop 20, ?_, ?_⟩
  · simp [AreGroups, h]
  · simp only [List.append_assoc]
    rw [cut 16 4, cut 12 4, cut 8 4, List.take_append_drop]

/-- Puts hyphens between the groups of 32 characters. -/
def hyphenate (xs : List Char) : List Char :=
  match groups xs with
  | [a, b, d, e, f] => a ++ '-' :: b ++ '-' :: d ++ '-' :: e ++ '-' :: f
  | _ => []

theorem AreGroups.hyphenate_eq (h : AreGroups a b d e f) :
    hyphenate (a ++ b ++ d ++ e ++ f) = a ++ '-' :: b ++ '-' :: d ++ '-' :: e ++ '-' :: f := by
  rw [hyphenate, h.groups_eq]

theorem hyphenatedChars_eq (c : CommitId) : c.hyphenatedChars = hyphenate c.plainChars := rfl

/-- Whether a text has 36 characters with hyphens in the four places. -/
def IsHyphenated (cs : List Char) : Prop :=
  cs.length = 36 ∧ cs[8]? = some '-' ∧ cs[13]? = some '-' ∧ cs[18]? = some '-' ∧ cs[23]? = some '-'

/-- The characters that are not in the places of hyphens. -/
def unhyphenated (cs : List Char) : List Char :=
  cs.take 8 ++ (cs.drop 9).take 4 ++ (cs.drop 14).take 4 ++ (cs.drop 19).take 4 ++ cs.drop 24

/-- An element with its index cuts the list in two. -/
theorem getElem?_eq_some_iff_append {n : ℕ} {x : Char} :
    xs[n]? = some x ↔ ∃ front back, front.length = n ∧ xs = front ++ x :: back := by
  constructor
  · intro h
    obtain ⟨bound, rfl⟩ := List.getElem?_eq_some_iff.1 h
    exact ⟨xs.take n, xs.drop (n + 1), List.length_take_of_le bound.le, by simp⟩
  · rintro ⟨front, back, rfl, rfl⟩
    simp

theorem isHyphenated_iff : IsHyphenated cs ↔
    ∃ a b d e f, AreGroups a b d e f ∧ cs = a ++ '-' :: b ++ '-' :: d ++ '-' :: e ++ '-' :: f := by
  constructor
  · rintro ⟨length, first, second, third, fourth⟩
    obtain ⟨a, rest, ha, rfl⟩ := getElem?_eq_some_iff_append.1 first
    have second : rest[4]? = some '-' := by simpa [List.getElem?_append, ha] using second
    obtain ⟨b, rest, hb, rfl⟩ := getElem?_eq_some_iff_append.1 second
    have third : rest[4]? = some '-' := by simpa [List.getElem?_append, ha, hb] using third
    obtain ⟨d, rest, hd, rfl⟩ := getElem?_eq_some_iff_append.1 third
    have fourth : rest[4]? = some '-' := by simpa [List.getElem?_append, ha, hb, hd] using fourth
    obtain ⟨e, f, he, rfl⟩ := getElem?_eq_some_iff_append.1 fourth
    have hf : f.length = 12 := by
      simp only [List.length_append, List.length_cons] at length
      omega
    exact ⟨a, b, d, e, f, ⟨ha, hb, hd, he, hf⟩, by simp⟩
  · rintro ⟨a, b, d, e, f, ⟨ha, hb, hd, he, hf⟩, rfl⟩
    simp [IsHyphenated, ha, hb, hd, he, hf]

theorem AreGroups.unhyphenated_eq (h : AreGroups a b d e f) :
    unhyphenated (a ++ '-' :: b ++ '-' :: d ++ '-' :: e ++ '-' :: f) = a ++ b ++ d ++ e ++ f := by
  obtain ⟨ha, hb, hd, he, -⟩ := h
  simp (disch := omega) [unhyphenated, List.drop_append, List.drop_eq_nil_of_le, ha, hb, hd, he]

theorem IsHyphenated.hyphenate_unhyphenated (h : IsHyphenated cs) : hyphenate (unhyphenated cs) = cs := by
  obtain ⟨a, b, d, e, f, pieces, rfl⟩ := isHyphenated_iff.1 h
  rw [pieces.unhyphenated_eq, pieces.hyphenate_eq]

theorem isHyphenated_hyphenate (h : xs.length = 32) :
    IsHyphenated (hyphenate xs) ∧ unhyphenated (hyphenate xs) = xs := by
  obtain ⟨a, b, d, e, f, pieces, rfl⟩ := exists_groups h
  rw [pieces.hyphenate_eq]
  exact ⟨isHyphenated_iff.2 ⟨a, b, d, e, f, pieces, rfl⟩, pieces.unhyphenated_eq⟩

/-- A text reads as hyphenated when its lower-case form does, as only a hyphen becomes one. -/
theorem isHyphenated_map_toLower : IsHyphenated (cs.map Char.toLower) ↔ IsHyphenated cs := by
  have hyphen {c : Char} : c.toLower = '-' ↔ c = '-' := toLower_eq_iff (by decide)
  simp [IsHyphenated, List.getElem?_map, Option.map_eq_some_iff, hyphen]

theorem unhyphenated_map (cs : List Char) (g : Char → Char) :
    unhyphenated (cs.map g) = (unhyphenated cs).map g := by
  simp only [unhyphenated, List.map_append, List.map_take, List.map_drop]

theorem ofHyphenated?_eq_some : ofHyphenated? cs = some c ↔ cs.map Char.toLower = c.hyphenatedChars := by
  have unfolded : ofHyphenated? cs = some c ↔ IsHyphenated cs ∧ ofPlain? (unhyphenated cs) = some c :=
    Option.ite_none_right_eq_some
  rw [unfolded, ofPlain?_eq_some, ← isHyphenated_map_toLower, ← unhyphenated_map, hyphenatedChars_eq]
  constructor
  · rintro ⟨hyphenated, digits⟩
    rw [← digits, hyphenated.hyphenate_unhyphenated]
  · intro h
    rw [h]
    exact isHyphenated_hyphenate c.length_plainChars

end Hyphens

/-! ## All spellings -/

theorem length_hyphenatedChars (c : CommitId) : c.hyphenatedChars.length = 36 :=
  (isHyphenated_hyphenate c.length_plainChars).1.1

def bracedChars (c : CommitId) : List Char :=
  '\x7b' :: (c.hyphenatedChars ++ ['\x7d'])

def urnChars (c : CommitId) : List Char :=
  urnMarker ++ c.hyphenatedChars

theorem length_bracedChars (c : CommitId) : c.bracedChars.length = 38 := by
  rw [bracedChars, List.length_cons, List.length_append, length_hyphenatedChars, List.length_singleton]

theorem length_urnChars (c : CommitId) : c.urnChars.length = 45 := by
  rw [urnChars, List.length_append, length_hyphenatedChars]
  rfl

theorem ofBraced?_eq_some : ofBraced? cs = some c ↔ cs.map Char.toLower = c.bracedChars := by
  have left {c : Char} : c.toLower = '\x7b' ↔ c = '\x7b' := toLower_eq_iff (by decide)
  have right {c : Char} : c.toLower = '\x7d' ↔ c = '\x7d' := toLower_eq_iff (by decide)
  unfold ofBraced? bracedChars
  split
  · next rest =>
    rw [Option.ite_none_right_eq_some, ofHyphenated?_eq_some, List.map_cons, left.2 rfl, List.cons.injEq,
      List.map_eq_append_iff, List.getLast?_eq_some_iff]
    constructor
    · rintro ⟨⟨inner, rfl⟩, digits⟩
      rw [List.dropLast_concat] at digits
      exact ⟨rfl, inner, ['\x7d'], rfl, digits, rfl⟩
    · rintro ⟨-, inner, brace, rfl, digits, closed⟩
      obtain ⟨mark, rfl, hmark⟩ := List.map_eq_singleton_iff.1 closed
      obtain rfl := right.1 hmark
      exact ⟨⟨inner, rfl⟩, by rwa [List.dropLast_concat]⟩
  · next other =>
    refine iff_of_false nofun fun h => ?_
    obtain ⟨mark, rest, rfl, hmark, -⟩ := List.map_eq_cons_iff.1 h
    exact other rest (left.1 hmark ▸ rfl)

theorem ofUrn?_eq_some : ofUrn? cs = some c ↔ cs.map Char.toLower = c.urnChars := by
  rw [ofUrn?, Option.ite_none_right_eq_some, ofHyphenated?_eq_some, urnChars]
  constructor
  · rintro ⟨marker, digits⟩
    rw [← marker, ← digits, ← List.map_append, List.take_append_drop]
  · intro h
    rw [List.map_take, List.map_drop, h]
    simp

/-- The spellings of an identifier, in lower case. -/
def spellings (c : CommitId) : List (List Char) :=
  [c.plainChars, c.hyphenatedChars, c.bracedChars, c.urnChars]

/-- Whether a text is a spelling of an identifier, whose letters may have either case. -/
def IsSpelled (c : CommitId) (s : String) : Prop :=
  s.toList.map Char.toLower ∈ c.spellings

instance (c : CommitId) (s : String) : Decidable (c.IsSpelled s) :=
  inferInstanceAs (Decidable (_ ∈ _))

theorem or_eq_some_of_disjoint {α : Type} {o o' : Option α} {x : α}
    (disjoint : ∀ y y', o = some y → o' ≠ some y') : o.or o' = some x ↔ o = some x ∨ o' = some x := by
  cases o with
  | none => simp
  | some y => simp [disjoint y x rfl]

/-- A text is read as the identifier that its lower-case form is a spelling of. The spellings differ in
length, so it does not matter which of them is tried first. -/
theorem parse?_eq_some {s : String} : parse? s = some c ↔ c.IsSpelled s := by
  have length {xs : List Char} (h : s.toList.map Char.toLower = xs) : s.toList.length = xs.length := by
    rw [← h, List.length_map]
  have plain (c : CommitId) (h : ofPlain? s.toList = some c) : s.toList.length = 32 :=
    (length (ofPlain?_eq_some.1 h)).trans c.length_plainChars
  have hyphenated (c : CommitId) (h : ofHyphenated? s.toList = some c) : s.toList.length = 36 :=
    (length (ofHyphenated?_eq_some.1 h)).trans c.length_hyphenatedChars
  have braced (c : CommitId) (h : ofBraced? s.toList = some c) : s.toList.length = 38 :=
    (length (ofBraced?_eq_some.1 h)).trans c.length_bracedChars
  have urn (c : CommitId) (h : ofUrn? s.toList = some c) : s.toList.length = 45 :=
    (length (ofUrn?_eq_some.1 h)).trans c.length_urnChars
  have wrapped (c : CommitId) : (ofBraced? s.toList).or (ofUrn? s.toList) = some c ↔
      ofBraced? s.toList = some c ∨ ofUrn? s.toList = some c := by
    refine or_eq_some_of_disjoint fun c c' h h' => ?_
    have := braced c h
    have := urn c' h'
    omega
  have withHyphens (c : CommitId) :
      (ofHyphenated? s.toList).or ((ofBraced? s.toList).or (ofUrn? s.toList)) = some c ↔
        ofHyphenated? s.toList = some c ∨ ofBraced? s.toList = some c ∨ ofUrn? s.toList = some c := by
    rw [or_eq_some_of_disjoint, wrapped]
    intro c c' h h'
    have := hyphenated c h
    obtain h' | h' := (wrapped c').1 h'
    · have := braced c' h'
      omega
    · have := urn c' h'
      omega
  rw [parse?, or_eq_some_of_disjoint, withHyphens, ofPlain?_eq_some, ofHyphenated?_eq_some,
    ofBraced?_eq_some, ofUrn?_eq_some]
  · simp only [IsSpelled, spellings, List.mem_cons, List.not_mem_nil, or_false]
  · intro c c' h h'
    have := plain c h
    obtain h' | h' | h' := (withHyphens c').1 h'
    · have := hyphenated c' h'
      omega
    · have := braced c' h'
      omega
    · have := urn c' h'
      omega

theorem IsSpelled.unique {c' : CommitId} {s : String} (h : c.IsSpelled s) (h' : c'.IsSpelled s) :
    c = c' := by
  rw [← parse?_eq_some] at h h'
  exact Option.some.inj (h.symm.trans h')

theorem isSpelled_plain : c.IsSpelled c.plain :=
  parse?_eq_some.1 (parse?_plain c)

/-- Whether a text is 32 digits in lower case. -/
def IsPlain (s : String) : Prop :=
  s.toList.length = 32 ∧ ∀ c ∈ s.toList, Hex.IsDigit c ∧ c.toLower = c

theorem isPlain_plain (c : CommitId) : IsPlain c.plain := by
  have lower (d : Fin 16) : (Hex.digitChar d).toLower = Hex.digitChar d :=
    Hex.digit?_eq_some.1 (Hex.digit?_digitChar d)
  rw [IsPlain, plain, String.toList_ofList, plainChars]
  refine ⟨by rw [List.length_map, c.length_digits], ?_⟩
  rintro _ h
  obtain ⟨d, -, rfl⟩ := List.mem_map.1 h
  exact ⟨Hex.isDigit_iff.2 (by rw [Hex.digit?_digitChar]; rfl), lower d⟩

end ProtoWorkspace.CommitId
