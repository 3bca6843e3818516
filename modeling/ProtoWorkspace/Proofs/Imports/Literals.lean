import ProtoWorkspace.Proofs.Imports.Statements

/-!
# Literals in front of imports

The value of an option may hold any text. What follows the option is read as if the option were not
there, but the ends of statements inside of the value count as well: between two of them the value
can have what looks like an import. Main statement: the imports of a text behind an option are those
that stand inside of its value in this way and those of the text (`ofFile_option`).
-/

namespace ProtoWorkspace.Imports

/-- The character may stand between double quotes on one line, and is no backslash. -/
abbrev IsValueChar (c : Char) : Prop :=
  IsLiteralChar '\"' c

/-- What stands in front of the quoted value of an option. -/
def optionWords : List Char :=
  "option x = ".toList

/-- An option with a value between double quotes. -/
def optionText (value : List Char) : String :=
  String.ofList (optionWords ++ '\"' :: value ++ ['\"', ';'])

/-- The statements that lie inside of a text, with an end of a statement on both sides. -/
def innerStatements (cs : List Char) : List (List Char) :=
  (statements cs).tail.dropLast

/-- What the statements inside of a text import. -/
def innerImports (cs : List Char) : List String :=
  (innerStatements cs).filterMap imported?

theorem isSuffix_afterModifier (cs : List Char) : afterModifier cs <:+ cs := by
  have unindents (cs : List Char) : unindented cs <:+ cs := List.dropWhile_suffix _
  have word (w : String) {cs rest : List Char} (h : after? w cs = some rest) : rest <:+ cs :=
    ⟨w.toList, (after?_eq_some h).symm⟩
  simp only [afterModifier]
  split
  · split
    · next rest h =>
      refine (unindents rest).trans (List.IsSuffix.trans ?_ (unindents cs))
      rcases Option.or_eq_some_iff.1 h with h | ⟨-, h⟩
      · exact word _ h
      · exact word _ h
    · exact unindents cs
  · exact unindents cs

/-- The quote at the end of a text that has no other is not that of a path. -/
theorem unquoted?_eq_none {quote : Char} {cs w : List Char} (h : quote ∉ cs)
    (hw : w <:+ cs ++ [quote]) : unquoted? w = none := by
  cases w with
  | nil => rfl
  | cons c w =>
    have closed : ¬ (isQuote c = true ∧ w.getLast? = some c ∧ c ∉ w.dropLast) := by
      rintro ⟨-, last, -⟩
      obtain ⟨init, rfl⟩ := List.getLast?_eq_some_iff.1 last
      obtain ⟨front, hfront⟩ := hw
      have parts : (front ++ c :: init) ++ [c] = cs ++ [quote] := by simpa using hfront
      obtain ⟨same, rfl⟩ := List.append_inj' parts rfl |>.imp_right fun e => List.singleton_inj.1 e
      exact h (same ▸ by simp)
    rw [unquoted?, if_neg closed]

theorem imported?_concat_eq_none {quote : Char} (hq : Text.isBlank quote = false)
    {cs : List Char} (h : quote ∉ cs) : imported? (cs ++ [quote]) = none := by
  have kept : Text.trim (cs ++ [quote]) <:+ cs ++ [quote] := by
    rw [trim_concat hq]
    obtain ⟨front, hfront⟩ := List.dropWhile_suffix Text.isBlank (l := cs)
    exact ⟨front, by rw [← List.append_assoc, hfront]⟩
  cases ho : after? "import" (Text.trim (cs ++ [quote])) with
  | none => simp [imported?, ho]
  | some rest =>
    have behind : rest <:+ Text.trim (cs ++ [quote]) := ⟨_, (after?_eq_some ho).symm⟩
    have w := (isSuffix_afterModifier rest).trans (behind.trans kept)
    simp [imported?, ho, unquoted?_eq_none h w]

/-- A text is cut at its first end of a statement, if it has any. -/
theorem unended_or_eq_append (cs : List Char) :
    (∀ c ∈ cs, endsStatement c = false) ∨ ∃ first c rest, cs = first ++ c :: rest ∧
      (∀ d ∈ first, endsStatement d = false) ∧ endsStatement c = true := by
  induction cs with
  | nil => exact .inl (by simp)
  | cons c cs ih =>
    by_cases hc : endsStatement c = true
    · exact .inr ⟨[], c, cs, rfl, by simp, hc⟩
    · rw [Bool.not_eq_true] at hc
      rcases ih with unended | ⟨first, d, rest, rfl, unended, isEnd⟩
      · exact .inl (List.forall_mem_cons.2 ⟨hc, unended⟩)
      · exact .inr ⟨c :: first, d, rest, rfl, List.forall_mem_cons.2 ⟨hc, unended⟩, isEnd⟩

/-- The statement that a quote ends is the only one that it spoils. -/
theorem filterMap_statements_concat {quote : Char} (hb : Text.isBlank quote = false)
    (he : endsStatement quote = false) {cs : List Char} (h : quote ∉ cs) :
    (statements (cs ++ [quote])).filterMap imported? =
      (statements cs).dropLast.filterMap imported? := by
  induction hn : cs.length using Nat.strong_induction_on generalizing cs with
  | _ n ih =>
    rcases unended_or_eq_append cs with unended | ⟨first, c, rest, rfl, unended, isEnd⟩
    · have whole : statements (cs ++ [quote]) = [cs ++ [quote]] := by
        refine statements_of_unended fun c hc => ?_
        rcases List.mem_append.1 hc with hc | hc
        · exact unended c hc
        · exact List.mem_singleton.1 hc ▸ he
      simp [whole, statements_of_unended unended, imported?_concat_eq_none hb h]
    · have inner := ih rest.length (by simp [← hn]; omega) (fun hr => h (by simp [hr])) rfl
      rw [List.append_assoc, List.cons_append, filterMap_statements_append isEnd,
        statements_append isEnd, List.dropLast_append_of_ne_nil (statements_ne_nil rest),
        List.filterMap_append, inner]

theorem endsStatement_of_mem_front {value : List Char}
    (h : ∀ c ∈ value, endsStatement c = false) {c : Char} (hc : c ∈ optionWords ++ '\"' :: value) :
    endsStatement c = false := by
  have words : ∀ d ∈ optionWords, endsStatement d = false :=
    List.all_iff_forall_prop.1 (by decide)
  rcases List.mem_append.1 hc with hc | hc
  · exact words c hc
  · rcases List.mem_cons.1 hc with rfl | hc
    · decide
    · exact h c hc

/-- The option itself is no import; what its value holds between two ends of statements may be. -/
theorem filterMap_statements_option {value : List Char} (h : ∀ c ∈ value, IsValueChar c) :
    (statements (optionWords ++ '\"' :: value ++ ['\"'])).filterMap imported? =
      innerImports value := by
  have head (cs : List Char) : imported? (optionWords ++ cs) = none :=
    imported?_eq_none (by decide) (by decide) _
  have absent : '\"' ∉ value := fun hv => (h _ hv).1 rfl
  rcases unended_or_eq_append value with unended | ⟨first, c, rest, rfl, unended, isEnd⟩
  · have whole : statements (optionWords ++ '\"' :: value ++ ['\"']) =
        [optionWords ++ '\"' :: value ++ ['\"']] := by
      refine statements_of_unended fun c hc => ?_
      rcases List.mem_append.1 hc with hc | hc
      · exact endsStatement_of_mem_front unended hc
      · exact List.mem_singleton.1 hc ▸ by decide
    rw [whole, innerImports, innerStatements, statements_of_unended unended]
    simp [head]
  · have shape : optionWords ++ '\"' :: (first ++ c :: rest) ++ ['\"'] =
        (optionWords ++ '\"' :: first) ++ c :: (rest ++ ['\"']) := by simp
    have front : statements (optionWords ++ '\"' :: first) = [optionWords ++ '\"' :: first] :=
      statements_of_unended fun d => endsStatement_of_mem_front unended
    have tail : (statements (first ++ c :: rest)).tail = statements rest := by
      rw [statements_append isEnd, statements_of_unended unended]
      rfl
    rw [shape, filterMap_statements_append isEnd, front,
      filterMap_statements_concat (by decide) (by decide) fun hr => absent (by simp [hr]),
      innerImports, innerStatements, tail]
    simp [head]

/-- The imports of a text behind an option are those inside of the value and those of the text. -/
theorem ofText_option {value : List Char} (h : ∀ c ∈ value, IsValueChar c) (rest : String) :
    ofText (optionText value ++ rest) = innerImports value ++ ofText rest := by
  have words : ∀ c ∈ optionWords, c ≠ '/' ∧ isQuote c = false :=
    List.all_iff_forall_prop.1 (by decide)
  have shape : (optionText value ++ rest).toList =
      optionWords ++ ('\"' :: value ++ '\"' :: ';' :: rest.toList) := by
    simp [optionText]
  have stays : withoutComments .code (marked (optionText value ++ rest).toList) =
      (optionWords ++ '\"' :: value ++ ['\"']) ++
        ';' :: withoutComments .code (marked rest.toList) := by
    rw [shape, withoutComments_code_of_plain words, withoutComments_literal (by decide) h,
      withoutComments_semicolon]
    simp
  rw [ofText, stays, filterMap_statements_append (by decide), filterMap_statements_option h]
  rfl

/-- An option adds to the imports of the text behind it what stands like an import inside of its
value, and hides none. So it does not show exactly when no statement inside of its value imports
anything, and in particular when its value holds no end of a statement. -/
theorem ofFile_option {value : List Char} (h : ∀ c ∈ value, IsValueChar c) (file rest : String) :
    ofFile file (optionText value ++ rest).toUTF8 = .ok (innerImports value ++ ofText rest) ∧
      (ofFile file (optionText value ++ rest).toUTF8 = ofFile file rest.toUTF8 ↔
        ∀ statement ∈ innerStatements value, imported? statement = none) ∧
      ((∀ c ∈ value, endsStatement c = false) →
        ofFile file (optionText value ++ rest).toUTF8 = ofFile file rest.toUTF8) := by
  have whole : ofFile file (optionText value ++ rest).toUTF8 =
      .ok (innerImports value ++ ofText rest) := by
    rw [ofFile_toUTF8, ofText_option h]
  have hidden : ofFile file (optionText value ++ rest).toUTF8 = ofFile file rest.toUTF8 ↔
      ∀ statement ∈ innerStatements value, imported? statement = none := by
    rw [whole, ofFile_toUTF8, Except.ok.injEq, List.append_left_eq_self, innerImports,
      List.filterMap_eq_nil_iff]
  refine ⟨whole, hidden, fun unended => hidden.2 ?_⟩
  simp [innerStatements, statements_of_unended unended]

namespace Sample

/-- A value in which an import stands between two semicolons. -/
def importingValue : List Char :=
  ";import 'y.proto';".toList

theorem isValueChar_importingValue : ∀ c ∈ importingValue, IsValueChar c :=
  List.all_iff_forall_prop.1 (by decide)

theorem innerImports_importingValue : innerImports importingValue = ["y.proto"] := by
  decide

theorem ofText_behindOption : ofText "import \"b.proto\";" = ["b.proto"] := by
  decide

/-- Behind the sample value an import is found, and one inside of the value in front of it. -/
theorem ofFile_importingValue :
    (∀ c ∈ importingValue, IsValueChar c) ∧
      ofFile "a.proto" (optionText importingValue ++ "import \"b.proto\";").toUTF8 =
        .ok ["y.proto", "b.proto"] := by
  refine ⟨isValueChar_importingValue, ?_⟩
  rw [(ofFile_option isValueChar_importingValue "a.proto" "import \"b.proto\";").1,
    innerImports_importingValue, ofText_behindOption]
  rfl

/-- So a value between double quotes can add an import to those of the text behind it. -/
theorem ofFile_importingValue_ne :
    (∀ c ∈ importingValue, IsValueChar c) ∧
      ofFile "a.proto" (optionText importingValue ++ "import \"b.proto\";").toUTF8 ≠
        ofFile "a.proto" "import \"b.proto\";".toUTF8 := by
  refine ⟨isValueChar_importingValue, ?_⟩
  rw [ofFile_toUTF8, ofFile_toUTF8, ofText_option isValueChar_importingValue,
    innerImports_importingValue, ofText_behindOption]
  decide

end Sample

end ProtoWorkspace.Imports
