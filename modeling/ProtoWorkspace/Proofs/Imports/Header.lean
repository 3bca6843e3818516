import Mathlib.Data.List.TakeWhile
import ProtoWorkspace.Proofs.Imports.Statements

/-!
# Headers of import statements

A header is a row of import statements, written with blanks and comments wherever the grammar allows
them. Main statement: the imports of a file that consists of a header are the paths of its
statements, in order, whatever the comments and the paths hold (`ofFile_header`).
-/

namespace ProtoWorkspace.Imports

/-! ## Gaps -/

/-- A blank or a comment. -/
inductive GapPiece where
  | blank (c : Char) (isBlank : Text.isAsciiBlank c = true)
  /-- Two slashes, a text and the line feed behind it. -/
  | lineComment (body : List Char) (isLine : '\n' ∉ body)
  /-- A text between the marks of a comment, the second of which it does not hold. -/
  | blockComment (body : List Char) (isOpen : ¬ ['*', '/'] <:+: body)

def GapPiece.text : GapPiece → List Char
  | .blank c _ => [c]
  | .lineComment body _ => '/' :: '/' :: body ++ ['\n']
  | .blockComment body _ => '/' :: '*' :: body ++ ['*', '/']

/-- What is left where comments are taken out. -/
def GapPiece.blanks : GapPiece → List Char
  | .blank c _ => [c]
  | .lineComment _ _ => [' ', '\n']
  | .blockComment _ _ => [' ']

/-- What may stand between the words of a statement. -/
abbrev Gap := List GapPiece

def Gap.text (gap : Gap) : List Char :=
  gap.flatMap GapPiece.text

def Gap.blanks (gap : Gap) : List Char :=
  gap.flatMap GapPiece.blanks

theorem not_isAsciiBlank_of_isQuote {c : Char} (h : isQuote c = true) :
    Text.isAsciiBlank c = false := by
  rcases eq_or_eq_of_isQuote h with rfl | rfl <;> decide

theorem isPlain_of_isAsciiBlank {c : Char} (h : Text.isAsciiBlank c = true) :
    c ≠ '/' ∧ isQuote c = false ∧ endsStatement c = false := by
  refine ⟨?_, ?_, ?_⟩
  · rintro rfl
    simp [Text.isAsciiBlank] at h
  · cases hq : isQuote c with
    | false => rfl
    | true =>
      rw [not_isAsciiBlank_of_isQuote hq] at h
      cases h
  · cases he : endsStatement c with
    | false => rfl
    | true =>
      simp only [endsStatement, Bool.or_eq_true, beq_iff_eq] at he
      rcases he with (rfl | rfl) | rfl <;> simp [Text.isAsciiBlank] at h

theorem GapPiece.isAsciiBlank_of_mem {piece : GapPiece} {c : Char} (h : c ∈ piece.blanks) :
    Text.isAsciiBlank c = true := by
  cases piece with
  | blank d isBlank =>
    obtain rfl := List.mem_singleton.1 h
    exact isBlank
  | lineComment body isLine =>
    simp only [blanks, List.mem_cons, List.not_mem_nil, or_false] at h
    rcases h with rfl | rfl <;> decide
  | blockComment body isOpen =>
    obtain rfl := List.mem_singleton.1 h
    decide

theorem GapPiece.blanks_ne_nil (piece : GapPiece) : piece.blanks ≠ [] := by
  cases piece <;> simp [blanks]

theorem Gap.isAsciiBlank_of_mem {gap : Gap} {c : Char} (h : c ∈ gap.blanks) :
    Text.isAsciiBlank c = true := by
  obtain ⟨piece, -, hc⟩ := List.mem_flatMap.1 h
  exact piece.isAsciiBlank_of_mem hc

/-- The blanks of a gap that is not empty start with a blank. -/
theorem Gap.head?_blanks {gap : Gap} (h : gap ≠ []) (rest : List Char) :
    (gap.blanks ++ rest).head?.any Text.isAsciiBlank = true := by
  obtain ⟨piece, more, rfl⟩ := List.exists_cons_of_ne_nil h
  obtain ⟨c, cs, hc⟩ := List.exists_cons_of_ne_nil piece.blanks_ne_nil
  have := piece.isAsciiBlank_of_mem (c := c) (by simp [hc])
  simp [Gap.blanks, hc, this]

theorem GapPiece.withoutComments_text (piece : GapPiece) (rest : List Char) :
    withoutComments .code (marked (piece.text ++ rest)) =
      piece.blanks ++ withoutComments .code (marked rest) := by
  cases piece with
  | blank c isBlank =>
    refine withoutComments_code_of_plain (fun d hd => ?_) rest
    obtain rfl := List.mem_singleton.1 hd
    have plain := isPlain_of_isAsciiBlank isBlank
    exact ⟨plain.1, plain.2.1⟩
  | lineComment body isLine =>
    simpa [text, blanks] using withoutComments_lineComment isLine rest
  | blockComment body isOpen =>
    simpa [text, blanks] using withoutComments_blockComment isOpen rest

/-- Of a gap nothing but blanks is left. -/
theorem Gap.withoutComments_text (gap : Gap) (rest : List Char) :
    withoutComments .code (marked (gap.text ++ rest)) =
      gap.blanks ++ withoutComments .code (marked rest) := by
  induction gap with
  | nil => rfl
  | cons piece more ih =>
    have : Gap.text (piece :: more) ++ rest = piece.text ++ (Gap.text more ++ rest) := by
      simp [Gap.text]
    rw [this, piece.withoutComments_text, ih]
    simp [Gap.blanks]

theorem unindented_blanks (gap : Gap) {c : Char} (hc : Text.isAsciiBlank c = false)
    (cs : List Char) : unindented (gap.blanks ++ c :: cs) = c :: cs := by
  rw [unindented, List.dropWhile_append_of_pos fun d hd => Gap.isAsciiBlank_of_mem hd,
    List.dropWhile_cons_of_neg (by simp [hc])]

/-! ## Statements -/

/-- The word that may stand behind `import`. -/
inductive Modifier where
  | isPublic
  | isWeak
  deriving DecidableEq

def Modifier.word : Modifier → String
  | .isPublic => "public"
  | .isWeak => "weak"

/-- A path that no modifier stands in front of. -/
theorem afterModifier_quote (gap : Gap) {quote : Char} (hq : isQuote quote = true)
    (cs : List Char) : afterModifier (gap.blanks ++ quote :: cs) = quote :: cs := by
  have notLetter : quote ≠ 'p' ∧ quote ≠ 'w' := by
    rcases eq_or_eq_of_isQuote hq with rfl | rfl <;> decide
  have notPublic : after? "public" (quote :: cs) = none :=
    after?_eq_none (by simpa using notLetter.1.symm) (by decide) cs
  have notWeak : after? "weak" (quote :: cs) = none :=
    after?_eq_none (by simpa using notLetter.2.symm) (by decide) cs
  have start := unindented_blanks gap (not_isAsciiBlank_of_isQuote hq) cs
  simp only [afterModifier, start, notPublic, notWeak, Option.or_none, ite_self]

/-- A modifier is left out with the gap behind it. -/
theorem afterModifier_word {gap : Gap} (hn : gap ≠ []) (modifier : Modifier) (behind : Gap)
    {c : Char} (hc : Text.isAsciiBlank c = false) (cs : List Char) :
    afterModifier (gap.blanks ++ (modifier.word.toList ++ (behind.blanks ++ c :: cs))) =
      c :: cs := by
  generalize hrest : behind.blanks ++ c :: cs = rest
  have blank := Gap.head?_blanks hn (modifier.word.toList ++ rest)
  have start : unindented (gap.blanks ++ (modifier.word.toList ++ rest)) =
      modifier.word.toList ++ rest := by
    cases modifier <;> exact unindented_blanks gap (by decide) _
  have found : (after? "public" (modifier.word.toList ++ rest)).or
      (after? "weak" (modifier.word.toList ++ rest)) = some rest := by
    cases modifier with
    | isPublic => rw [Modifier.word, after?_append, Option.some_or]
    | isWeak =>
      have notPublic : after? "public" ("weak".toList ++ rest) = none :=
        after?_eq_none (by decide) (by decide) _
      rw [Modifier.word, notPublic, after?_append, Option.none_or]
  simp only [afterModifier, blank, start, found, if_true]
  rw [← hrest]
  exact unindented_blanks behind hc cs

/-- An import statement as it is written. -/
structure WrittenImport where
  /-- In front of the word `import`. -/
  before : Gap
  /-- Behind the word `import`. -/
  behindWord : Gap
  /-- The modifier, if there is one, and the gap behind it. -/
  modifier : Option (Modifier × Gap)
  quote : Char
  path : List Char
  /-- Between the path and the end of the statement. -/
  behindPath : Gap
  isQuote_quote : isQuote quote = true
  path_plain : ∀ c ∈ path, IsLiteralChar quote c ∧ endsStatement c = false
  /-- A modifier does not touch the word `import`. -/
  behindWord_ne_nil : modifier.isSome → behindWord ≠ []

namespace WrittenImport

/-- The modifier with the gap behind it, where `gapText` says how gaps are written. -/
def modifierText (w : WrittenImport) (gapText : Gap → List Char) : List Char :=
  match w.modifier with
  | some (modifier, gap) => modifier.word.toList ++ gapText gap
  | none => []

def literal (w : WrittenImport) : List Char :=
  w.quote :: w.path ++ [w.quote]

/-- What stands from the word `import` to the path. -/
def words (w : WrittenImport) (gapText : Gap → List Char) : List Char :=
  "import".toList ++ (gapText w.behindWord ++ (w.modifierText gapText ++ w.literal))

/-- The statement without the semicolon that ends it. -/
def body (w : WrittenImport) (gapText : Gap → List Char) : List Char :=
  gapText w.before ++ w.words gapText ++ gapText w.behindPath

def text (w : WrittenImport) : List Char :=
  w.body Gap.text ++ [';']

theorem withoutComments_modifierText (w : WrittenImport) (rest : List Char) :
    withoutComments .code (marked (w.modifierText Gap.text ++ rest)) =
      w.modifierText Gap.blanks ++ withoutComments .code (marked rest) := by
  unfold modifierText
  cases w.modifier with
  | none => rfl
  | some modifier =>
    obtain ⟨modifier, gap⟩ := modifier
    have plain : ∀ c ∈ modifier.word.toList, c ≠ '/' ∧ isQuote c = false := by
      cases modifier <;> exact List.all_iff_forall_prop.1 (by decide)
    simp only [List.append_assoc]
    rw [withoutComments_code_of_plain plain, gap.withoutComments_text]

theorem withoutComments_text (w : WrittenImport) (rest : List Char) :
    withoutComments .code (marked (w.text ++ rest)) =
      w.body Gap.blanks ++ ';' :: withoutComments .code (marked rest) := by
  have word : ∀ c ∈ "import".toList, c ≠ '/' ∧ isQuote c = false :=
    List.all_iff_forall_prop.1 (by decide)
  have literal := withoutComments_literal w.isQuote_quote (fun c hc => (w.path_plain c hc).1)
    (w.behindPath.text ++ ';' :: rest)
  have shape : w.text ++ rest = w.before.text ++ ("import".toList ++ (w.behindWord.text ++
      (w.modifierText Gap.text ++ (w.quote :: w.path ++ w.quote ::
        (w.behindPath.text ++ ';' :: rest))))) := by
    simp [text, body, words, WrittenImport.literal]
  rw [shape, w.before.withoutComments_text, withoutComments_code_of_plain word,
    w.behindWord.withoutComments_text, w.withoutComments_modifierText, literal,
    w.behindPath.withoutComments_text, withoutComments_semicolon]
  simp [body, words, WrittenImport.literal]

theorem endsStatement_of_mem_modifierText {w : WrittenImport} {c : Char}
    (h : c ∈ w.modifierText Gap.blanks) : endsStatement c = false := by
  unfold modifierText at h
  cases hm : w.modifier with
  | none => simp [hm] at h
  | some modifier =>
    obtain ⟨modifier, gap⟩ := modifier
    simp only [hm, List.mem_append] at h
    rcases h with h | h
    · have word : ∀ d ∈ modifier.word.toList, endsStatement d = false := by
        cases modifier <;> exact List.all_iff_forall_prop.1 (by decide)
      exact word c h
    · exact (isPlain_of_isAsciiBlank (Gap.isAsciiBlank_of_mem h)).2.2

/-- A statement holds no end of a statement. -/
theorem endsStatement_of_mem_body {w : WrittenImport} {c : Char} (h : c ∈ w.body Gap.blanks) :
    endsStatement c = false := by
  have blank {gap : Gap} (hc : c ∈ gap.blanks) : endsStatement c = false :=
    (isPlain_of_isAsciiBlank (Gap.isAsciiBlank_of_mem hc)).2.2
  have quote (hc : c = w.quote) : endsStatement c = false := by
    rcases eq_or_eq_of_isQuote w.isQuote_quote with hq | hq <;> rw [hc, hq] <;> decide
  have word : ∀ d ∈ "import".toList, endsStatement d = false :=
    List.all_iff_forall_prop.1 (by decide)
  simp only [body, words, literal, List.mem_append, List.mem_cons, List.not_mem_nil, or_false,
    List.cons_append] at h
  rcases h with (h | h | h | h | h | h | h) | h
  · exact blank h
  · exact word c h
  · exact blank h
  · exact endsStatement_of_mem_modifierText h
  · exact quote h
  · exact (w.path_plain c h).2
  · exact quote h
  · exact blank h

theorem unquoted?_literal (w : WrittenImport) : unquoted? w.literal = some w.path := by
  have absent : w.quote ∉ w.path := fun h => (w.path_plain w.quote h).1.1 rfl
  simp [unquoted?, literal, w.isQuote_quote, absent]

theorem afterModifier_words (w : WrittenImport) :
    afterModifier (w.behindWord.blanks ++ (w.modifierText Gap.blanks ++ w.literal)) =
      w.literal := by
  unfold modifierText
  cases hm : w.modifier with
  | none => exact afterModifier_quote w.behindWord w.isQuote_quote _
  | some modifier =>
    obtain ⟨modifier, gap⟩ := modifier
    dsimp only
    rw [List.append_assoc]
    have touches := w.behindWord_ne_nil (by simp [hm])
    have quote := not_isAsciiBlank_of_isQuote w.isQuote_quote
    exact afterModifier_word touches modifier gap quote _

/-- A statement imports its path. -/
theorem imported?_body (w : WrittenImport) :
    imported? (w.body Gap.blanks) = some (String.ofList w.path) := by
  have blank (gap : Gap) : ∀ c ∈ gap.blanks, Text.isBlank c = true := fun c hc =>
    Text.isBlank_of_isAsciiBlank (Gap.isAsciiBlank_of_mem hc)
  have quote : Text.isBlank w.quote = false := by
    rcases eq_or_eq_of_isQuote w.isQuote_quote with hq | hq <;> rw [hq] <;> decide
  have first : (w.words Gap.blanks).head? = some 'i' := rfl
  have last : (w.words Gap.blanks).getLast? = some w.quote := by
    have shape : w.words Gap.blanks = ("import".toList ++ (w.behindWord.blanks ++
        (w.modifierText Gap.blanks ++ w.quote :: w.path))) ++ [w.quote] := by
      simp [words, literal]
    rw [shape, List.getLast?_concat]
  rw [imported?, body, trim_padded (blank w.before) (blank w.behindPath) first last (by decide) quote,
    words, after?_append, Option.bind_some, w.afterModifier_words, w.unquoted?_literal]
  rfl

end WrittenImport

/-! ## Headers -/

/-- Import statements one after the other, and what stands behind the last of them. -/
structure Header where
  imports : List WrittenImport
  behind : Gap

def Header.text (h : Header) : String :=
  String.ofList (h.imports.flatMap WrittenImport.text ++ h.behind.text)

/-- Behind the statements of a header nothing is imported. -/
theorem filterMap_statements_blanks (gap : Gap) :
    (statements gap.blanks).filterMap imported? = [] := by
  have nothing : imported? gap.blanks = none := by
    have blank : ∀ c ∈ gap.blanks, Text.isBlank c = true := fun c hc =>
      Text.isBlank_of_isAsciiBlank (Gap.isAsciiBlank_of_mem hc)
    have trimmed : Text.trim gap.blanks = [] := by
      rw [Text.trim, List.dropWhile_eq_nil_iff.2 blank]
      rfl
    rw [imported?, trimmed]
    rfl
  rw [statements_of_unended fun c hc =>
    (isPlain_of_isAsciiBlank (Gap.isAsciiBlank_of_mem hc)).2.2]
  simp [nothing]

theorem ofText_header (h : Header) :
    ofText h.text = h.imports.map fun w => String.ofList w.path := by
  rw [ofText, Header.text, String.toList_ofList]
  induction h.imports with
  | nil =>
    have behind := h.behind.withoutComments_text []
    simp only [List.append_nil] at behind
    simp only [List.flatMap_nil, List.nil_append, behind]
    simpa [marked, Marking.ofText, withoutComments] using filterMap_statements_blanks h.behind
  | cons w more ih =>
    rw [List.flatMap_cons, List.append_assoc, w.withoutComments_text,
      filterMap_statements_append (by decide), ih,
      statements_of_unended fun c => WrittenImport.endsStatement_of_mem_body]
    simp [w.imported?_body]

/-- The imports of a file that consists of a header are the paths of its statements, in order: the
comments import nothing, whatever they hold, and comment markers in paths open no comment. -/
theorem ofFile_header (file : String) (h : Header) :
    ofFile file h.text.toUTF8 = .ok (h.imports.map fun w => String.ofList w.path) := by
  rw [ofFile_toUTF8, ofText_header]

example : ofText "import/*;\"*/public 'a//b.proto';// import \"c\";\nimport \"/*d*/\";" =
    ["a//b.proto", "/*d*/"] := by
  decide

end ProtoWorkspace.Imports
