import Mathlib
import ProtoWorkspace.Text.Hex

/-!
# Lower case

The letters of ASCII have a lower-case form; every other character is its own. Hexadecimal digits are read
in either case and written in lower case, so a row of them is read as what its lower-case form stands for.
-/

namespace ProtoWorkspace

namespace Text

theorem toNat_toLower (c : Char) :
    c.toLower.toNat = if 65 ≤ c.toNat ∧ c.toNat ≤ 90 then c.toNat + 32 else c.toNat := by
  have upper : (c.val ≥ 'A'.val ∧ c.val ≤ 'Z'.val) ↔ 65 ≤ c.toNat ∧ c.toNat ≤ 90 := Iff.rfl
  unfold Char.toLower
  by_cases h : c.val ≥ 'A'.val ∧ c.val ≤ 'Z'.val
  · rw [dif_pos h, if_pos (upper.1 h)]
    have high : c.val.toNat ≤ 90 := (upper.1 h).2
    have bound : c.val.toNat + 32 < 2 ^ 32 := by omega
    change (c.val + 32).toNat = c.val.toNat + 32
    rw [UInt32.toNat_add]
    exact Nat.mod_eq_of_lt bound
  · rw [dif_neg h, if_neg (mt upper.2 h)]

/-- A character that is no letter is the lower-case form of itself alone. -/
theorem toLower_eq_iff {c d : Char} (h : d.isAlpha = false) : c.toLower = d ↔ c = d := by
  have letters : d.isAlpha = true ↔
      65 ≤ d.toNat ∧ d.toNat ≤ 90 ∨ 97 ≤ d.toNat ∧ d.toNat ≤ 122 := by
    simp only [Char.isAlpha, Char.isUpper, Char.isLower, Bool.or_eq_true, Bool.and_eq_true,
      decide_eq_true_eq]
    exact Iff.rfl
  rw [h] at letters
  rw [← Char.toNat_inj, ← Char.toNat_inj, toNat_toLower]
  grind

theorem toLower_eq_b_iff {c : Char} : c.toLower = 'b' ↔ c = 'b' ∨ c = 'B' := by
  have low : ('b' : Char).toNat = 98 := rfl
  have high : ('B' : Char).toNat = 66 := rfl
  rw [← Char.toNat_inj, ← Char.toNat_inj, ← Char.toNat_inj, toNat_toLower, low, high]
  grind

theorem utf8Size_toLower (c : Char) : c.toLower.utf8Size = c.utf8Size := by
  have size (c : Char) : c.utf8Size = if c.toNat ≤ 127 then 1 else if c.toNat ≤ 2047 then 2 else
      if c.toNat ≤ 65535 then 3 else 4 := rfl
  rw [size, size, toNat_toLower]
  grind

theorem toList_toLower (s : String) : s.toLower.toList = s.toList.map Char.toLower := by
  rw [String.toLower, String.toList_map]

end Text

namespace Hex

open Text

variable {c : Char} {cs : List Char}

/-- Whether a character is a digit, in either case. -/
def IsDigit (c : Char) : Prop :=
  '0' ≤ c ∧ c ≤ '9' ∨ 'a' ≤ c ∧ c ≤ 'f' ∨ 'A' ≤ c ∧ c ≤ 'F'

theorem isDigit_iff : IsDigit c ↔ (digit? c).isSome := by
  have bounds : IsDigit c ↔ 48 ≤ c.toNat ∧ c.toNat ≤ 57 ∨ 97 ≤ c.toNat ∧ c.toNat ≤ 102 ∨
      65 ≤ c.toNat ∧ c.toNat ≤ 70 := Iff.rfl
  rw [bounds]
  simp only [digit?]
  grind

theorem toNat_digitChar (d : Fin 16) :
    (digitChar d).toNat = if d.val < 10 then 48 + d.val else 87 + d.val := by
  revert d; decide

/-- A character is read as the digit that its lower-case form is written for. -/
theorem digit?_eq_some {d : Fin 16} : digit? c = some d ↔ c.toLower = digitChar d := by
  rw [← Char.toNat_inj, toNat_toLower, toNat_digitChar]
  simp only [digit?, Fin.ofNat]
  grind

/-- A row of digits is read as the digits that its lower-case form is written for. -/
theorem mapM_digit?_eq_some {ds : List (Fin 16)} :
    cs.mapM digit? = some ds ↔ cs.map Char.toLower = ds.map digitChar := by
  induction cs generalizing ds with
  | nil => cases ds <;> simp
  | cons c cs ih =>
    rw [List.mapM_cons]
    cases ds with
    | nil => cases digit? c <;> cases cs.mapM digit? <;> simp
    | cons d ds =>
      rw [List.map_cons, List.map_cons, List.cons.injEq, ← digit?_eq_some, ← ih]
      cases digit? c <;> cases cs.mapM digit? <;> simp

end Hex

end ProtoWorkspace
