import Mathlib.Data.Bool.AllAny
import Mathlib.Tactic
import ProtoWorkspace.Imports

/-!
# Statements of a Protobuf file

What taking out the comments makes of literals and comments, how a text falls into statements at
their ends, and what a statement imports. Main statements: a literal that is closed on its line
stays as it is whatever follows (`withoutComments_literal`), the statements before and behind an end
are found apart (`statements_append`), and blanks around a statement do not matter
(`imported?_padded`).
-/

namespace ProtoWorkspace.Imports

/-! ## Literals and comments -/

theorem eq_or_eq_of_isQuote {c : Char} (h : isQuote c = true) : c = '\"' ∨ c = '\'' := by
  simpa [isQuote] using h

theorem head?_marked (cs : List Char) : (marked cs).head?.map Mark.char = cs.head? := by
  cases cs with
  | nil => rfl
  | cons c cs => simp [marked_cons]

/-- Whether a character may stand in a literal with the given quotes without ending it, hiding its
end or breaking its line. -/
def IsLiteralChar (quote c : Char) : Prop :=
  c ≠ quote ∧ c ≠ '\\' ∧ c ≠ '\n'

instance (quote c : Char) : Decidable (IsLiteralChar quote c) :=
  inferInstanceAs (Decidable (_ ∧ _))

theorem closes_append {quote : Char} {body : List Char} (h : ∀ c ∈ body, IsLiteralChar quote c)
    (rest : List Char) (hq : quote ≠ '\\') : closes quote (body ++ quote :: rest) = true := by
  induction body with
  | nil =>
    rw [List.nil_append, closes]
    · simp
    · simp [hq]
    · simp [hq]
  | cons c body ih =>
    obtain ⟨hc, hbody⟩ := List.forall_mem_cons.1 h
    rw [List.cons_append, closes]
    · simp [hc.2.2, ih hbody]
    · simp [hc.2.1]
    · simp [hc.2.1]

theorem withoutComments_literal_body {quote : Char} {body : List Char}
    (h : ∀ c ∈ body, IsLiteralChar quote c) (rest : List Char) :
    withoutComments (.literal quote) (marked (body ++ quote :: rest)) =
      body ++ quote :: withoutComments .code (marked rest) := by
  induction body with
  | nil => simp [marked_cons, withoutComments]
  | cons c body ih =>
    obtain ⟨hc, hbody⟩ := List.forall_mem_cons.1 h
    simp [marked_cons, withoutComments, hc.1, hc.2.1, ih hbody]

/-- A literal stays, with the comment markers that it may hold. -/
theorem withoutComments_literal {quote : Char} (hq : isQuote quote = true) {body : List Char}
    (h : ∀ c ∈ body, IsLiteralChar quote c) (rest : List Char) :
    withoutComments .code (marked (quote :: body ++ quote :: rest)) =
      quote :: body ++ quote :: withoutComments .code (marked rest) := by
  have slash : quote ≠ '/' := by
    rintro rfl
    simp [isQuote] at hq
  have backslash : quote ≠ '\\' := by
    rintro rfl
    simp [isQuote] at hq
  rw [List.cons_append, marked_cons, closes_append h rest backslash]
  simp [withoutComments, slash, hq, withoutComments_literal_body h]

theorem withoutComments_lineComment {body : List Char} (h : '\n' ∉ body) (rest : List Char) :
    withoutComments .code (marked ('/' :: '/' :: body ++ '\n' :: rest)) =
      ' ' :: '\n' :: withoutComments .code (marked rest) := by
  have skipped (cs : List Char) (hcs : '\n' ∉ cs) :
      withoutComments .lineComment (marked (cs ++ '\n' :: rest)) =
        '\n' :: withoutComments .code (marked rest) := by
    induction cs with
    | nil => simp [marked_cons, withoutComments]
    | cons c cs ih =>
      simp only [List.mem_cons, not_or] at hcs
      simp [marked_cons, withoutComments, Ne.symm hcs.1, ih hcs.2]
  have inner := skipped ('/' :: body) (by simp [h])
  rw [List.cons_append, marked_cons]
  simp only [withoutComments, head?_marked]
  simpa using inner

/-- Taking out a block comment goes on until the first star with a slash behind it. -/
theorem withoutComments_blockComment_body {body : List Char} (h : ¬ ['*', '/'] <:+: body)
    (rest : List Char) :
    withoutComments .blockComment (marked (body ++ '*' :: '/' :: rest)) =
      withoutComments .code (marked rest) := by
  induction body with
  | nil => simp [marked_cons, withoutComments]
  | cons c body ih =>
    have inner := ih fun hb => h (hb.trans (List.suffix_cons c body).isInfix)
    have open_ : ¬ (c = '*' ∧ (body ++ '*' :: '/' :: rest).head? = some '/') := by
      rintro ⟨rfl, hd⟩
      cases body with
      | nil => simp at hd
      | cons d body =>
        obtain rfl : d = '/' := by simpa using hd
        exact h ⟨[], body, rfl⟩
    rw [List.cons_append, marked_cons]
    simp only [withoutComments, head?_marked, if_neg open_]
    exact inner

theorem withoutComments_blockComment {body : List Char} (h : ¬ ['*', '/'] <:+: body)
    (rest : List Char) :
    withoutComments .code (marked ('/' :: '*' :: body ++ '*' :: '/' :: rest)) =
      ' ' :: withoutComments .code (marked rest) := by
  have inner := withoutComments_blockComment_body h rest
  simp [marked_cons, withoutComments, inner]

theorem withoutComments_semicolon (rest : List Char) :
    withoutComments .code (marked (';' :: rest)) = ';' :: withoutComments .code (marked rest) := by
  have plain : ∀ c ∈ [';'], c ≠ '/' ∧ isQuote c = false := List.forall_mem_singleton.2 (by decide)
  exact withoutComments_code_of_plain plain rest

/-! ## Ends of statements -/

/-- What stands before an end and what stands behind it are cut on their own. -/
theorem statements_append {c : Char} (hc : endsStatement c = true) (first rest : List Char) :
    statements (first ++ c :: rest) = statements first ++ statements rest := by
  simp [statements, hc, Text.fields_append]

theorem statements_of_unended {cs : List Char} (h : ∀ c ∈ cs, endsStatement c = false) :
    statements cs = [cs] := by
  have same : (cs.map fun c => if endsStatement c then ';' else c) = cs := by
    conv_rhs => rw [← List.map_id cs]
    exact List.map_congr_left fun c hc => by simp [h c hc]
  rw [statements, same]
  refine Text.fields_eq_singleton fun hmem => ?_
  have := h ';' hmem
  simp [endsStatement] at this

theorem statements_ne_nil (cs : List Char) : statements cs ≠ [] :=
  Text.fields_ne_nil _ _

/-- The imports of a text up to an end and behind it are those of the two parts. -/
theorem filterMap_statements_append {c : Char} (hc : endsStatement c = true)
    (first rest : List Char) :
    (statements (first ++ c :: rest)).filterMap imported? =
      (statements first).filterMap imported? ++ (statements rest).filterMap imported? := by
  rw [statements_append hc, List.filterMap_append]

/-! ## Words of a statement -/

theorem after?_append (word : String) (rest : List Char) :
    after? word (word.toList ++ rest) = some rest := by
  have := List.isPrefixOf_iff_prefix.2 (List.prefix_append word.toList rest)
  simp [after?, this]

theorem after?_eq_some {word : String} {cs rest : List Char} (h : after? word cs = some rest) :
    cs = word.toList ++ rest := by
  unfold after? at h
  split at h
  · next hp =>
    obtain ⟨tail, rfl⟩ := List.isPrefixOf_iff_prefix.1 hp
    simpa using h
  · cases h

theorem after?_eq_none {word : String} {c : Char} (h : word.toList.head? ≠ some c)
    (hw : word.toList ≠ []) (cs : List Char) : after? word (c :: cs) = none := by
  cases ho : after? word (c :: cs) with
  | none => rfl
  | some rest =>
    have := after?_eq_some ho
    cases hl : word.toList with
    | nil => exact absurd hl hw
    | cons d ds =>
      rw [hl, List.cons_append, List.cons.injEq] at this
      rw [hl] at h
      exact absurd (congrArg some this.1.symm) h

/-- Blanks on both sides of a text are trimmed, and no more. -/
theorem trim_padded {before core after : List Char} (hb : ∀ c ∈ before, Text.isBlank c = true)
    (ha : ∀ c ∈ after, Text.isBlank c = true) {first last : Char} (hf : core.head? = some first)
    (hl : core.getLast? = some last) (hfb : Text.isBlank first = false)
    (hlb : Text.isBlank last = false) : Text.trim (before ++ core ++ after) = core := by
  obtain ⟨more, rfl⟩ := List.head?_eq_some_iff.1 hf
  obtain ⟨init, hinit⟩ := List.getLast?_eq_some_iff.1 hl
  have front : (before ++ first :: more ++ after).dropWhile Text.isBlank = first :: more ++ after := by
    rw [List.append_assoc, List.dropWhile_append_of_pos hb, List.cons_append,
      List.dropWhile_cons_of_neg (by simp [hfb])]
  have back : ((first :: more ++ after).reverse.dropWhile Text.isBlank).reverse = first :: more := by
    have ha' : ∀ c ∈ after.reverse, Text.isBlank c = true := fun c hc => ha c (List.mem_reverse.1 hc)
    rw [List.reverse_append, List.dropWhile_append_of_pos ha', hinit, List.reverse_concat,
      List.dropWhile_cons_of_neg (by simp [hlb]), List.reverse_cons, List.reverse_reverse]
  rw [Text.trim, front, back]

/-- A text that starts with no blank keeps its start. -/
theorem trim_isPrefix {c : Char} (hc : Text.isBlank c = false) (cs : List Char) :
    Text.trim (c :: cs) <+: c :: cs := by
  have front : (c :: cs).dropWhile Text.isBlank = c :: cs :=
    List.dropWhile_cons_of_neg (by simp [hc])
  have back := List.dropWhile_suffix Text.isBlank (l := (c :: cs).reverse)
  rw [Text.trim, front]
  simpa using List.reverse_prefix.2 back

/-- A text that ends with no blank keeps its end. -/
theorem trim_concat {c : Char} (hc : Text.isBlank c = false) (cs : List Char) :
    Text.trim (cs ++ [c]) = cs.dropWhile Text.isBlank ++ [c] := by
  have front : (cs ++ [c]).dropWhile Text.isBlank = cs.dropWhile Text.isBlank ++ [c] := by
    rw [List.dropWhile_append]
    split
    · next hcs => simp [List.isEmpty_iff.1 hcs, hc]
    · rfl
  rw [Text.trim, front, List.reverse_concat, List.dropWhile_cons_of_neg (by simp [hc])]
  simp

/-- A statement that starts with another letter than `import` imports nothing. -/
theorem imported?_eq_none {c : Char} (hb : Text.isBlank c = false) (hc : c ≠ 'i') (cs : List Char) :
    imported? (c :: cs) = none := by
  have none_ : after? "import" (Text.trim (c :: cs)) = none := by
    cases ho : after? "import" (Text.trim (c :: cs)) with
    | none => rfl
    | some rest =>
      obtain ⟨tail, htail⟩ := trim_isPrefix hb cs
      rw [after?_eq_some ho] at htail
      simp at htail
      exact absurd htail.1.symm hc
  rw [imported?, none_]
  rfl

/-- The bytes of a text have the imports of the text. -/
theorem ofFile_toUTF8 (file text : String) : ofFile file text.toUTF8 = .ok (ofText text) := by
  have decoded : String.fromUTF8? text.toUTF8 = some text := dif_pos text.isValidUTF8
  rw [ofFile, decoded]

end ProtoWorkspace.Imports
