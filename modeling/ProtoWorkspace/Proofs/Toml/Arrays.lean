import Mathlib.Tactic
import ProtoWorkspace.Proofs.Toml.Tables

/-!
# Written arrays of strings read back

An array of strings is written on one line, or with a line for each element and a comma behind it.
Main statement: a key with such an array is a line that reads back (`Line.strings`).
-/

namespace ProtoWorkspace.Toml

theorem skipLines_append (gap : List Char) (hg : ∀ c ∈ gap, c = ' ' ∨ c = '\n') {c : Char}
    (hb : isLineBlank c = false) (hn : c ≠ '\n') (hc : c ≠ '#') (fuel : Nat) (rest : List Char) :
    skipLines (fuel + 1) (gap ++ c :: rest) = some (c :: rest) := by
  have skipped : ∀ d ∈ gap, (isLineBlank d || d == '\n') = true := by
    intro d hd
    rcases hg d hd with rfl | rfl <;> rfl
  have kept : (isLineBlank c || c == '\n') = false := by
    simp [hb, hn]
  rw [skipLines, List.dropWhile_append_of_pos skipped, List.dropWhile_cons_of_neg (by simp [kept])]
  split
  · next h => exact absurd (List.cons.inj h).1 hc
  · rfl

theorem skipLines_writtenString (gap : List Char) (hg : ∀ c ∈ gap, c = ' ' ∨ c = '\n') (s : String)
    (fuel : Nat) (rest : List Char) :
    skipLines (fuel + 1) (gap ++ ((writtenString s).toList ++ rest)) =
      some ((writtenString s).toList ++ rest) := by
  obtain ⟨q, more, hq, text⟩ := toList_writtenString_eq s
  rw [text, List.cons_append]
  apply skipLines_append gap hg
  all_goals rcases hq with rfl | rfl <;> decide

/-! ## Elements -/

/-- The end of an array behind blanks and line feeds. -/
theorem elements_end (gap : List Char) (hg : ∀ c ∈ gap, c = ' ' ∨ c = '\n') (fuel depth : Nat)
    (rest : List Char) : elements (fuel + 2) depth (gap ++ ']' :: rest) = some ([], rest) := by
  have stop : skipLines (fuel + 1) (gap ++ ']' :: rest) = _ :=
    skipLines_append gap hg rfl (by decide) (by decide) fuel rest
  rw [elements, stop]
  rfl

/-- An element is read behind blanks and line feeds. A comma behind it goes before more elements,
and a bracket ends the array. -/
theorem elements_element (gap : List Char) (hg : ∀ c ∈ gap, c = ' ' ∨ c = '\n') (s : String)
    (fuel depth : Nat) {c : Char} (hc : c = ',' ∨ c = ']') (rest : List Char) :
    elements (fuel + 2) depth (gap ++ ((writtenString s).toList ++ c :: rest)) =
      if c = ',' then (elements (fuel + 1) depth rest).map fun (vs, rest) => (.string s :: vs, rest)
      else some ([.string s], rest) := by
  have double : c ≠ '\"' := by rcases hc with rfl | rfl <;> decide
  have single : c ≠ '\'' := by rcases hc with rfl | rfl <;> decide
  have start := skipLines_writtenString gap hg s fuel (c :: rest)
  have read : value (fuel + 1) depth ((writtenString s).toList ++ c :: rest) = _ :=
    value_writtenString s (by simpa using double) (by simpa using single) fuel depth
  have behind : skipLines (fuel + 1) (c :: rest) = some (c :: rest) := by
    apply skipLines_append [] (by simp)
    all_goals rcases hc with rfl | rfl <;> decide
  obtain ⟨q, more, hq, text⟩ := toList_writtenString_eq s
  have notEnd : q ≠ ']' := by rcases hq with rfl | rfl <;> decide
  rw [elements, start]
  rw [text, List.cons_append] at read ⊢
  rcases hc with rfl | rfl
  · simp [notEnd, read, behind]
  · simp [notEnd, read, behind]

/-! ## Arrays on several lines -/

/-- The line of an element, with a comma behind it. -/
def row (s : String) : String :=
  "    " ++ writtenString s ++ ",\n"

theorem toList_row (s : String) :
    (row s).toList = "    ".toList ++ ((writtenString s).toList ++ ",\n".toList) := by
  simp [row]

def rows (strings : List String) : List Char :=
  (String.join (strings.map row)).toList

theorem rows_cons (s : String) (strings : List String) :
    rows (s :: strings) = (row s).toList ++ rows strings := by
  simp [rows]

theorem length_le_length_rows (strings : List String) :
    strings.length ≤ (rows strings).length := by
  induction strings with
  | nil => exact Nat.zero_le _
  | cons s strings ih =>
    have indent : "    ".toList.length = 4 := rfl
    rw [rows_cons, toList_row, List.length_append, List.length_append, indent, List.length_cons]
    omega

theorem return_notMem_rows (strings : List String) : '\r' ∉ rows strings := by
  induction strings with
  | nil => simp [rows]
  | cons s strings ih => simp [rows_cons, toList_row, not_mem_writtenString, ih]

/-- The elements are read one line after the other, each from the line feed in front of it. -/
theorem elements_rows (strings : List String) {fuel : Nat} (hf : strings.length < fuel)
    (depth : Nat) (rest : List Char) :
    elements (fuel + 1) depth ('\n' :: (rows strings ++ ']' :: rest)) =
      some (strings.map .string, rest) := by
  induction strings generalizing fuel with
  | nil =>
    obtain ⟨fuel, rfl⟩ := Nat.exists_eq_succ_of_ne_zero (Nat.ne_zero_of_lt hf)
    exact elements_end ['\n'] (by simp) fuel depth rest
  | cons s strings ih =>
    obtain ⟨fuel, rfl⟩ := Nat.exists_eq_succ_of_ne_zero (Nat.ne_zero_of_lt hf)
    have enough : strings.length < fuel := Nat.lt_of_succ_lt_succ hf
    have opened : '\n' :: (rows (s :: strings) ++ ']' :: rest) =
        "\n    ".toList ++
          ((writtenString s).toList ++ ',' :: '\n' :: (rows strings ++ ']' :: rest)) := by
      simp [rows_cons, toList_row]
    rw [opened, elements_element _ (by simp) s fuel depth (.inl rfl), if_pos rfl, ih enough]
    rfl

theorem toList_writtenStrings_rows (s t : String) (strings : List String) :
    (writtenStrings (s :: t :: strings)).toList =
      '[' :: '\n' :: (rows (s :: t :: strings) ++ [']']) := by
  change ("[\n" ++ String.join ((s :: t :: strings).map row) ++ "]").toList = _
  rw [String.toList_append, String.toList_append, ← rows]
  rfl

/-! ## Lines -/

theorem return_notMem_writtenStrings (strings : List String) :
    '\r' ∉ (writtenStrings strings).toList := by
  match strings with
  | [] => decide
  | [s] => simp [writtenStrings, not_mem_writtenString]
  | s :: t :: strings => simp [toList_writtenStrings_rows, return_notMem_rows]

theorem value_of_elements {fuel : Nat} {cs rest : List Char} {values : List Value}
    (h : elements fuel 1 cs = some (values, rest)) :
    value (fuel + 1) 0 ('[' :: cs) = some (.array values, rest) := by
  have shallow : 0 + 1 < depthLimit := by decide
  rw [value, if_pos shallow, h]
  rfl

/-- A written array of strings is a value in front of any text. -/
theorem value_writtenStrings (strings : List String) {fuel : Nat}
    (hf : (writtenStrings strings).toList.length < fuel) (rest : List Char) :
    value fuel 0 ((writtenStrings strings).toList ++ rest) =
      some (.array (strings.map .string), rest) := by
  match strings with
  | [] =>
    have long : (writtenStrings []).toList.length = 2 := rfl
    obtain ⟨fuel, rfl⟩ : ∃ more, fuel = more + 3 := ⟨fuel - 3, by omega⟩
    exact value_of_elements (elements_end [] (by simp) fuel 1 rest)
  | [s] =>
    have text : (writtenStrings [s]).toList = '[' :: ((writtenString s).toList ++ [']']) := by
      simp [writtenStrings]
    rw [text] at hf ⊢
    simp only [List.length_cons, List.length_append, List.length_nil] at hf
    obtain ⟨fuel, rfl⟩ : ∃ more, fuel = more + 3 := ⟨fuel - 3, by omega⟩
    have read := elements_element [] (by simp) s fuel 1 (.inr rfl) rest
    rw [if_neg (by decide)] at read
    have opened : '[' :: ((writtenString s).toList ++ [']']) ++ rest =
        '[' :: ([] ++ ((writtenString s).toList ++ ']' :: rest)) := by
      simp
    rw [opened]
    exact value_of_elements read
  | s :: t :: strings =>
    have few := length_le_length_rows (s :: t :: strings)
    rw [toList_writtenStrings_rows] at hf ⊢
    simp only [List.length_cons, List.length_append, List.length_nil] at hf few
    obtain ⟨fuel, rfl⟩ : ∃ more, fuel = more + 2 := ⟨fuel - 2, by omega⟩
    have enough : (s :: t :: strings).length < fuel := by
      simp only [List.length_cons]
      omega
    have opened : '[' :: '\n' :: (rows (s :: t :: strings) ++ [']']) ++ rest =
        '[' :: '\n' :: (rows (s :: t :: strings) ++ ']' :: rest) := by
      simp
    rw [opened]
    exact value_of_elements (elements_rows _ enough 1 rest)

theorem skipBlanks_writtenStrings (strings : List String) (rest : List Char) :
    skipBlanks ((writtenStrings strings).toList ++ rest) =
      (writtenStrings strings).toList ++ rest := by
  have opened : ∃ more, (writtenStrings strings).toList = '[' :: more := by
    match strings with
    | [] => exact ⟨_, rfl⟩
    | [s] => exact ⟨_, by rw [writtenStrings, String.toList_append, String.toList_append]; rfl⟩
    | s :: t :: strings => exact ⟨_, toList_writtenStrings_rows s t strings⟩
  obtain ⟨more, text⟩ := opened
  rw [text, List.cons_append, skipBlanks_of_not_blank rfl]

/-- The line of an array of strings. -/
def Line.strings (key : String) (strings : List String) (hk : IsBareKey key) : Line where
  key := key
  text := writtenStrings strings
  value := .array (strings.map .string)
  isBareKey := hk
  return_notMem := return_notMem_writtenStrings strings
  reads := by
    intro fuel rest hf
    rw [← String.length_toList] at hf
    rw [skipBlanks_writtenStrings, value_writtenStrings strings hf]

end ProtoWorkspace.Toml
