/-!
# Fields of a text

A text is cut at every occurrence of a separator, and fields are joined by it again. Joining the
fields of a text gives the text back, and fields that hold no separator are found again.
-/

namespace ProtoWorkspace.Text

/-- The pieces between the occurrences of `sep`, empty ones included. -/
def fields (sep : Char) : List Char → List (List Char)
  | [] => [[]]
  | c :: rest =>
    if c = sep then [] :: fields sep rest
    else
      match fields sep rest with
      | [] => [[c]]
      | field :: more => (c :: field) :: more

/-- The fields in a row, with `sep` between each two. -/
def joinFields (sep : Char) : List (List Char) → List Char
  | [] => []
  | [field] => field
  | field :: next :: more => field ++ sep :: joinFields sep (next :: more)

theorem fields_ne_nil (sep : Char) (cs : List Char) : fields sep cs ≠ [] := by
  cases cs with
  | nil => simp [fields]
  | cons c rest =>
    simp only [fields]
    split
    · simp
    · split <;> simp

theorem joinFields_fields (sep : Char) (cs : List Char) : joinFields sep (fields sep cs) = cs := by
  induction cs with
  | nil => rfl
  | cons c rest ih =>
    simp only [fields]
    split
    · next h =>
      cases hf : fields sep rest with
      | nil => exact absurd hf (fields_ne_nil sep rest)
      | cons field more => simp [joinFields, ← hf, ih, h]
    · cases hf : fields sep rest with
      | nil => exact absurd hf (fields_ne_nil sep rest)
      | cons field more =>
        rw [hf] at ih
        cases more with
        | nil => simpa [joinFields] using ih
        | cons next more => simpa [joinFields] using ih

theorem not_mem_of_mem_fields {sep : Char} {cs field : List Char} (h : field ∈ fields sep cs) :
    sep ∉ field := by
  induction cs generalizing field with
  | nil => simp_all [fields]
  | cons c rest ih =>
    simp only [fields] at h
    split at h
    · rcases List.mem_cons.1 h with rfl | h
      · simp
      · exact ih h
    · next hc =>
      split at h
      · simp only [List.mem_singleton] at h
        simp [h, Ne.symm hc]
      · next first more hf =>
        rcases List.mem_cons.1 h with rfl | h
        · have : sep ∉ first := ih (by simp [hf])
          simp [this, Ne.symm hc]
        · exact ih (by simp [hf, h])

theorem fields_eq_singleton {sep : Char} {cs : List Char} (h : sep ∉ cs) :
    fields sep cs = [cs] := by
  induction cs with
  | nil => rfl
  | cons c rest ih =>
    have hc : c ≠ sep := fun e => h (by simp [e])
    have hr : sep ∉ rest := fun m => h (by simp [m])
    simp [fields, hc, ih hr]

/-- The fields before a separator come first, then those behind it. -/
theorem fields_append (sep : Char) (first rest : List Char) :
    fields sep (first ++ sep :: rest) = fields sep first ++ fields sep rest := by
  induction first with
  | nil => simp [fields]
  | cons c first ih =>
    by_cases hc : c = sep
    · simp [fields, hc, ih]
    · obtain ⟨field, more, hf⟩ := List.exists_cons_of_ne_nil (fields_ne_nil sep first)
      simp [fields, hc, ih, hf]

/-- The field before a separator is the first one, the rest follow from behind it. -/
theorem fields_append_cons {sep : Char} {first : List Char} (h : sep ∉ first) (rest : List Char) :
    fields sep (first ++ sep :: rest) = first :: fields sep rest := by
  rw [fields_append, fields_eq_singleton h, List.singleton_append]

/-- Fields that hold no separator are the fields of their joined text. -/
theorem fields_joinFields {sep : Char} {fs : List (List Char)} (hne : fs ≠ [])
    (h : ∀ field ∈ fs, sep ∉ field) : fields sep (joinFields sep fs) = fs := by
  induction fs with
  | nil => exact absurd rfl hne
  | cons first more ih =>
    have hfirst : sep ∉ first := h first (by simp)
    cases more with
    | nil => exact fields_eq_singleton hfirst
    | cons next more =>
      simp only [joinFields]
      rw [fields_append_cons hfirst, ih (by simp) (fun f hf => h f (by simp [hf]))]

end ProtoWorkspace.Text
