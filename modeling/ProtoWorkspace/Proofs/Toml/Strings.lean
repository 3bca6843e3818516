import Mathlib.Data.Bool.AllAny
import Mathlib.Tactic
import ProtoWorkspace.Toml.Scalar
import ProtoWorkspace.Toml.Written

/-!
# Written strings read back

Each of the four forms of a string is read back to what was written, the literal forms where they
are chosen. Main statement: a written string is read from the front of any text that does not go on
with a quote (`stringValue_writtenString`).
-/

namespace ProtoWorkspace.Toml

/-! ## Characters -/

theorem isPlain_of_not_escaped {c : Char} (h : isEscapedControl c = false) (hn : c ≠ '\n') :
    isPlain c = true := by
  simp only [isEscapedControl, Bool.or_eq_false_iff, Bool.and_eq_false_iff, decide_eq_false_iff_not,
    bne_eq_false_iff_eq, beq_eq_false_iff_ne] at h
  simp only [isPlain, Bool.or_eq_true, beq_iff_eq, Bool.and_eq_true, decide_eq_true_eq, bne_iff_ne]
  rcases h with ⟨(h | rfl) | rfl, hd⟩
  · exact .inr ⟨by omega, hd⟩
  · exact .inl rfl
  · exact absurd rfl hn

theorem toNat_lt_of_escaped {c : Char} (h : isEscapedControl c = true) : c.toNat < 128 := by
  simp only [isEscapedControl, Bool.or_eq_true, Bool.and_eq_true, decide_eq_true_eq,
    beq_iff_eq] at h
  omega

theorem numberedChar?_fourDigits {c : Char} (h : isEscapedControl c = true) :
    numberedChar? (fourDigits c.toNat) = some c := by
  have all : ∀ n < 128, numberedChar? (fourDigits n) = some (Char.ofNat n) := by decide
  rw [all _ (toNat_lt_of_escaped h), Char.ofNat_toNat]

/-! ## Basic strings -/

theorem basicLine_cons {c : Char} (hp : isPlain c = true) (hq : c ≠ '\"') (hb : c ≠ '\\')
    (rest : List Char) : basicLine (c :: rest) = consChar c (basicLine rest) := by
  rw [basicLine.eq_def]
  split <;> simp_all

theorem basicLine_escaped {c : Char} (hq : c ≠ '\"') (rest : List Char) :
    basicLine (escaped false c ++ rest) = consChar c (basicLine rest) := by
  unfold escaped
  split
  · subst_vars; simp [basicLine, simpleEscape?]
  split
  · subst_vars; simp [basicLine, simpleEscape?]
  split
  · subst_vars; simp [basicLine, simpleEscape?]
  split
  · subst_vars; simp [basicLine, simpleEscape?]
  split
  · subst_vars; simp [basicLine, simpleEscape?]
  split
  · subst_vars; simp [basicLine, simpleEscape?]
  split
  · next h =>
    have number := numberedChar?_fourDigits h
    simp only [fourDigits, List.map_cons, List.map_nil] at number
    simp [fourDigits, basicLine, number]
  · next hn _ _ hb hc =>
    rw [Bool.not_eq_true] at hc
    exact basicLine_cons (isPlain_of_not_escaped hc hn) hq hb rest

theorem basicLine_basicBody (cs rest : List Char) :
    basicLine (basicBody false 0 cs ++ '\"' :: rest) = some (cs, rest) := by
  induction cs with
  | nil => simp [basicBody, basicLine]
  | cons c cs ih =>
    by_cases hc : c = '\"'
    · subst hc
      simp [basicBody, basicLine, simpleEscape?, ih, consChar]
    · rw [basicBody, if_neg hc, List.append_assoc, basicLine_escaped hc, ih]
      rfl

/-! ## Strings on several lines -/

/-- The quotes behind three of them belong to the text, as there are at most two. -/
theorem closingQuotes_replicate {q : Char} {run : Nat} (h : run ≤ 2) {rest : List Char}
    (hr : rest.head? ≠ some q) :
    closingQuotes q (List.replicate run q ++ rest) = (List.replicate run q, rest) := by
  have next : ∀ c more, rest = c :: more → c ≠ q := by
    rintro c more rfl rfl
    exact hr rfl
  interval_cases run
  · rcases rest with _ | ⟨c, _ | ⟨d, more⟩⟩
    · rfl
    · simp [closingQuotes, next c [] rfl]
    · simp [closingQuotes, next c (d :: more) rfl]
  · cases rest with
    | nil => simp [closingQuotes]
    | cons c more => simp [closingQuotes, next c more rfl]
  · simp [closingQuotes, List.replicate]

theorem basicLines_cons {c : Char} (hp : c = '\n' ∨ isPlain c = true) (hq : c ≠ '\"')
    (hb : c ≠ '\\') (rest : List Char) :
    basicLines .text (c :: rest) = consChar c (basicLines .text rest) := by
  rw [basicLines]
  all_goals simp_all

theorem head?_escaped (multiline : Bool) {c : Char} (hc : c ≠ '\"') :
    ∃ d ds, escaped multiline c = d :: ds ∧ d ≠ '\"' := by
  unfold escaped
  split_ifs <;> simp_all

theorem basicLines_escaped {c : Char} (hq : c ≠ '\"') (rest : List Char) :
    basicLines .text (escaped true c ++ rest) = consChar c (basicLines .text rest) := by
  unfold escaped
  split
  · subst_vars; simp [basicLines, simpleEscape?, isLineBlank]
  split
  · subst_vars; simp [basicLines, simpleEscape?, isLineBlank]
  split
  · subst_vars
    exact basicLines_cons (.inl rfl) hq (by decide) rest
  split
  · subst_vars; simp [basicLines, simpleEscape?, isLineBlank]
  split
  · subst_vars; simp [basicLines, simpleEscape?, isLineBlank]
  split
  · subst_vars; simp [basicLines, simpleEscape?, isLineBlank]
  split
  · next h =>
    have number := numberedChar?_fourDigits h
    simp only [fourDigits, List.map_cons, List.map_nil] at number
    simp [fourDigits, basicLines, number]
  · next hn _ _ hb hc =>
    rw [Bool.not_eq_true] at hc
    exact basicLines_cons (.inr (isPlain_of_not_escaped hc hn)) hq hb rest

theorem basicLines_quote {cs : List Char} (h : ¬ ['\"', '\"'] <+: cs) :
    basicLines .text ('\"' :: cs) = consChar '\"' (basicLines .text cs) := by
  have notThree : ∀ more, cs ≠ '\"' :: '\"' :: more := by
    rintro more rfl
    simp at h
  rw [basicLines]
  all_goals simp_all [isPlain]

/-- Up to two quotes in a row belong to the text. -/
theorem basicLines_replicate {run : Nat} (h : run ≤ 2) {c : Char} (hc : c ≠ '\"')
    {cs body rest : List Char} (hcs : basicLines .text (c :: cs) = some (body, rest)) :
    basicLines .text (List.replicate run '\"' ++ c :: cs) =
      some (List.replicate run '\"' ++ body, rest) := by
  have one : basicLines .text ('\"' :: c :: cs) = some ('\"' :: body, rest) := by
    rw [basicLines_quote (by simp [Ne.symm hc]), hcs]
    rfl
  interval_cases run
  · exact hcs
  · exact one
  · change basicLines .text ('\"' :: '\"' :: c :: cs) = _
    rw [basicLines_quote (by simp [Ne.symm hc]), one]
    rfl

/-- The body is read back with the quotes in front of it that are counted as its `run`. -/
theorem basicLines_basicBody {run : Nat} (h : run ≤ 2) (cs : List Char) {rest : List Char}
    (hr : rest.head? ≠ some '\"') :
    basicLines .text (List.replicate run '\"' ++
        (basicBody true run cs ++ '\"' :: '\"' :: '\"' :: rest)) =
      some (List.replicate run '\"' ++ cs, rest) := by
  induction cs generalizing run with
  | nil =>
    have moved : List.replicate run '\"' ++ '\"' :: '\"' :: '\"' :: rest =
        '\"' :: '\"' :: '\"' :: (List.replicate run '\"' ++ rest) := by
      interval_cases run <;> rfl
    rw [basicBody, List.nil_append, moved, basicLines]
    · rw [closingQuotes_replicate h hr, List.append_nil]
    · nofun
  | cons c cs ih =>
    by_cases hc : c = '\"'
    · subst hc
      by_cases hrun : run = 2
      · -- the third quote of a row is written with a backslash
        subst hrun
        have inner := ih (Nat.zero_le 2)
        rw [List.replicate_zero, List.nil_append, List.nil_append] at inner
        rw [basicBody, if_pos rfl, if_pos rfl]
        refine basicLines_replicate le_rfl (by decide) ?_
        simp [basicLines, isLineBlank, simpleEscape?, inner, consChar]
      · have more : run + 1 ≤ 2 := by omega
        have inner := ih more
        rw [basicBody, if_pos rfl, if_neg (by simpa using hrun)]
        rw [List.replicate_succ', List.append_assoc, List.append_assoc] at inner
        simpa using inner
    · have inner := ih (Nat.zero_le 2)
      rw [List.replicate_zero, List.nil_append, List.nil_append] at inner
      have read : basicLines .text (escaped true c ++
          (basicBody true 0 cs ++ '\"' :: '\"' :: '\"' :: rest)) = some (c :: cs, rest) := by
        rw [basicLines_escaped hc, inner]
        rfl
      obtain ⟨d, ds, hd, hq⟩ := head?_escaped true hc
      rw [basicBody, if_neg hc, List.append_assoc, hd, List.cons_append]
      rw [hd, List.cons_append] at read
      exact basicLines_replicate h hq read

/-! ## Literal strings -/

theorem literalLine_append {cs : List Char} (h : ∀ c ∈ cs, isPlain c = true ∧ c ≠ '\'')
    (rest : List Char) : literalLine (cs ++ '\'' :: rest) = some (cs, rest) := by
  induction cs with
  | nil => simp [literalLine]
  | cons c cs ih =>
    obtain ⟨hc, hcs⟩ := List.forall_mem_cons.1 h
    rw [List.cons_append, literalLine, if_pos hc.1, ih hcs]
    · rfl
    · exact hc.2

theorem le_longestRun (x : Char) (run : Nat) (cs : List Char) : run ≤ longestRun x run cs := by
  induction cs generalizing run with
  | nil => exact le_rfl
  | cons c cs ih =>
    rw [longestRun]
    split
    · exact (Nat.le_succ run).trans (ih (run + 1))
    · exact le_max_left _ _

theorem not_mem_of_longestRun {x : Char} {cs : List Char} (h : longestRun x 0 cs = 0) : x ∉ cs := by
  induction cs with
  | nil => simp
  | cons c cs ih =>
    rw [longestRun] at h
    split at h
    · have := le_longestRun x (0 + 1) cs
      omega
    · next hc =>
      have rest := ih (by omega)
      simp [rest, Ne.symm hc]

theorem literalLines_cons {c : Char} (hp : c = '\n' ∨ isPlain c = true) {cs : List Char}
    (h : ¬ (c = '\'' ∧ ['\'', '\''] <+: cs)) :
    literalLines (c :: cs) = consChar c (literalLines cs) := by
  have notThree : ∀ more, c = '\'' → cs ≠ '\'' :: '\'' :: more := by
    rintro more rfl rfl
    simp at h
  rw [literalLines, if_pos hp]
  exact notThree

/-- Up to two quotes in a row belong to the text. -/
theorem literalLines_replicate {run : Nat} (h : run ≤ 2) {c : Char} (hc : c ≠ '\'')
    {cs body rest : List Char} (hcs : literalLines (c :: cs) = some (body, rest)) :
    literalLines (List.replicate run '\'' ++ c :: cs) =
      some (List.replicate run '\'' ++ body, rest) := by
  have one : literalLines ('\'' :: c :: cs) = some ('\'' :: body, rest) := by
    rw [literalLines_cons (by decide) (by simp [Ne.symm hc]), hcs]
    rfl
  interval_cases run
  · exact hcs
  · exact one
  · change literalLines ('\'' :: '\'' :: c :: cs) = _
    rw [literalLines_cons (by decide) (by simp [Ne.symm hc]), one]
    rfl

/-- The text is read back with the `run` quotes in front of it, if no row has more than two. -/
theorem literalLines_append {run : Nat} {cs : List Char} (h : longestRun '\'' run cs ≤ 2)
    (hp : ∀ c ∈ cs, c = '\n' ∨ isPlain c = true) {rest : List Char}
    (hr : rest.head? ≠ some '\'') :
    literalLines (List.replicate run '\'' ++ (cs ++ '\'' :: '\'' :: '\'' :: rest)) =
      some (List.replicate run '\'' ++ cs, rest) := by
  induction cs generalizing run with
  | nil =>
    have few : run ≤ 2 := h
    have moved : List.replicate run '\'' ++ '\'' :: '\'' :: '\'' :: rest =
        '\'' :: '\'' :: '\'' :: (List.replicate run '\'' ++ rest) := by
      interval_cases run <;> rfl
    rw [List.nil_append, moved, literalLines, closingQuotes_replicate few hr, List.append_nil]
  | cons c cs ih =>
    obtain ⟨hc, hcs⟩ := List.forall_mem_cons.1 hp
    rw [longestRun] at h
    split at h
    · next same =>
      subst same
      have inner := ih h hcs
      rw [List.replicate_succ', List.append_assoc, List.append_assoc] at inner
      simpa using inner
    · next other =>
      have later : longestRun '\'' 0 cs ≤ 2 := (le_max_right _ _).trans h
      have inner := ih later hcs
      refine literalLines_replicate ((le_max_left _ _).trans h) other ?_
      rw [literalLines_cons hc fun both => other both.1]
      exact congrArg (consChar c) inner

/-! ## All forms -/

/-- What a text must be like to be shown by a literal form. -/
def Form.Shows (form : Form) (cs : List Char) : Prop :=
  match form with
  | .basic | .multilineBasic => True
  | .literal => ∀ c ∈ cs, isPlain c = true ∧ c ≠ '\''
  | .multilineLiteral =>
    (∀ c ∈ cs, c = '\n' ∨ isPlain c = true) ∧ longestRun '\'' 0 cs ≤ 2

/-- A literal form is chosen only for a text that it shows. -/
theorem shows_formOf (cs : List Char) : (formOf cs).Shows cs := by
  have noControl (h : cs.any isEscapedControl = false) : ∀ c ∈ cs, isEscapedControl c = false :=
    fun c hc => by simpa using List.any_eq_false.1 h c hc
  unfold formOf
  dsimp only
  split_ifs with basic literal multilineBasic multilineLiteral
  · trivial
  · simp only [Bool.and_eq_true, Bool.not_eq_true', beq_iff_eq] at literal
    obtain ⟨⟨control, quotes⟩, newline⟩ := literal
    have oneLine : '\n' ∉ cs := by simpa using newline
    intro c hc
    refine ⟨isPlain_of_not_escaped (noControl control c hc) ?_, ?_⟩
    · rintro rfl
      exact oneLine hc
    · rintro rfl
      exact not_mem_of_longestRun quotes hc
  · trivial
  · simp only [Bool.and_eq_true, Bool.not_eq_true', decide_eq_true_eq] at multilineLiteral
    refine ⟨fun c hc => ?_, multilineLiteral.2⟩
    by_cases hn : c = '\n'
    · exact .inl hn
    · exact .inr (isPlain_of_not_escaped (noControl multilineLiteral.1 c hc) hn)
  · trivial
  · trivial

/-! ## Where the text of a string starts -/

/-- Of the characters below the space, only tab and line feed stand in a basic form. -/
theorem mem_escaped {multiline : Bool} {c x : Char} (hx : x ∈ escaped multiline c) :
    (x = c ∧ isEscapedControl c = false) ∨ 0x20 ≤ x.toNat := by
  have digits : ∀ n < 128, (fourDigits n).all fun x => 0x20 ≤ x.toNat := by decide
  have letter {d : Char} (hd : 0x20 ≤ d.toNat) (hx : x ∈ ['\\', d]) : 0x20 ≤ x.toNat := by
    rcases List.mem_pair.1 hx with rfl | rfl
    · decide
    · exact hd
  unfold escaped at hx
  split_ifs at hx with _ _ newline _ _ _ _ control
  case pos => exact .inr (letter (by decide) hx)
  case pos => exact .inr (letter (by decide) hx)
  case pos =>
    subst newline
    exact .inl ⟨List.mem_singleton.1 hx, rfl⟩
  case neg => exact .inr (letter (by decide) hx)
  case pos => exact .inr (letter (by decide) hx)
  case pos => exact .inr (letter (by decide) hx)
  case pos => exact .inr (letter (by decide) hx)
  case pos =>
    rcases List.mem_cons.1 hx with rfl | hx
    · exact .inr (by decide)
    rcases List.mem_cons.1 hx with rfl | hx
    · exact .inr (by decide)
    · have visible := digits _ (toNat_lt_of_escaped control)
      exact .inr (List.all_iff_forall_prop.1 visible _ hx)
  case neg => exact .inl ⟨List.mem_singleton.1 hx, by simpa using control⟩

theorem mem_basicBody {multiline : Bool} {run : Nat} {cs : List Char} {x : Char}
    (hx : x ∈ basicBody multiline run cs) :
    (x ∈ cs ∧ isEscapedControl x = false) ∨ 0x20 ≤ x.toNat := by
  induction cs generalizing run with
  | nil => simp [basicBody] at hx
  | cons c cs ih =>
    have later {run : Nat} (hx : x ∈ basicBody multiline run cs) :
        (x ∈ c :: cs ∧ isEscapedControl x = false) ∨ 0x20 ≤ x.toNat :=
      (ih hx).imp_left fun h => ⟨List.mem_cons_of_mem _ h.1, h.2⟩
    rw [basicBody] at hx
    by_cases quote : c = '\"'
    · rw [if_pos quote] at hx
      by_cases third : run = if multiline then 2 else 0
      · rw [if_pos third] at hx
        simp only [List.mem_cons] at hx
        rcases hx with rfl | rfl | hx
        · exact .inr (by decide)
        · exact .inr (by decide)
        · exact later hx
      · rw [if_neg third] at hx
        rcases List.mem_cons.1 hx with rfl | hx
        · exact .inr (by decide)
        · exact later hx
    · rw [if_neg quote] at hx
      rcases List.mem_append.1 hx with hx | hx
      · refine (mem_escaped hx).imp_left fun h => ?_
        obtain ⟨rfl, control⟩ := h
        exact ⟨List.mem_cons_self, control⟩
      · exact later hx

/-- The line feed behind the opening quotes is dropped, and none of the text itself. -/
theorem skipOpeningBreak_openingBreak {cs body : List Char} (h : '\n' ∈ body → '\n' ∈ cs)
    {c : Char} (hc : c ≠ '\n') (rest : List Char) :
    skipOpeningBreak (openingBreak cs ++ (body ++ c :: rest)) = body ++ c :: rest := by
  unfold openingBreak
  split
  · rfl
  · next hn =>
    have none : '\n' ∉ body := fun hb => hn (by simpa using h hb)
    cases body with
    | nil =>
      rw [List.nil_append, List.nil_append, skipOpeningBreak]
      simpa using hc
    | cons d body =>
      have hd : d ≠ '\n' := fun e => none (by simp [e])
      rw [List.nil_append, List.cons_append, skipOpeningBreak]
      simpa using hd

/-- A body that does not start with two more quotes is one on a single line. -/
theorem stringValue_double {cs body rest : List Char} (h : ∀ more, cs ≠ '\"' :: '\"' :: more)
    (hb : basicLine cs = some (body, rest)) :
    stringValue ('\"' :: cs) = some (String.ofList body, rest) := by
  unfold stringValue
  dsimp only
  split
  all_goals simp_all

theorem stringValue_single {cs body rest : List Char} (h : ∀ more, cs ≠ '\'' :: '\'' :: more)
    (hb : literalLine cs = some (body, rest)) :
    stringValue ('\'' :: cs) = some (String.ofList body, rest) := by
  unfold stringValue
  dsimp only
  split
  all_goals simp_all

/-! ## Written strings -/

/-- A written string is read back from the front of a text that does not go on with a quote. -/
theorem stringValue_writtenAs {form : Form} {cs : List Char} (h : form.Shows cs) {rest : List Char}
    (hd : rest.head? ≠ some '\"') (hs : rest.head? ≠ some '\'') :
    stringValue (writtenAs form cs ++ rest) = some (String.ofList cs, rest) := by
  cases form with
  | basic =>
    have opened : writtenAs .basic cs ++ rest = '\"' :: (basicBody false 0 cs ++ '\"' :: rest) := by
      simp [writtenAs]
    rw [opened]
    refine stringValue_double ?_ (basicLine_basicBody cs rest)
    intro more both
    cases cs with
    | nil => simp_all [basicBody]
    | cons c cs =>
      by_cases hc : c = '\"'
      · simp [basicBody, hc] at both
      · obtain ⟨d, ds, hd, hq⟩ := head?_escaped false hc
        simp_all [basicBody]
  | literal =>
    have opened : writtenAs .literal cs ++ rest = '\'' :: (cs ++ '\'' :: rest) := by
      simp [writtenAs]
    rw [opened]
    refine stringValue_single ?_ (literalLine_append h rest)
    intro more both
    cases cs with
    | nil => simp_all
    | cons c cs => exact (h c List.mem_cons_self).2 (List.cons.inj both).1
  | multilineBasic =>
    have opened : writtenAs .multilineBasic cs ++ rest = '\"' :: '\"' :: '\"' ::
        (openingBreak cs ++ (basicBody true 0 cs ++ '\"' :: '\"' :: '\"' :: rest)) := by
      simp [writtenAs]
    have newline (h : '\n' ∈ basicBody true 0 cs) : '\n' ∈ cs :=
      (mem_basicBody h).elim And.left fun h => absurd h (by decide)
    rw [opened, stringValue]
    dsimp only
    rw [skipOpeningBreak_openingBreak newline (by decide)]
    have read := basicLines_basicBody (Nat.zero_le 2) cs hd
    rw [List.replicate_zero, List.nil_append, List.nil_append] at read
    rw [read]
    rfl
  | multilineLiteral =>
    have opened : writtenAs .multilineLiteral cs ++ rest = '\'' :: '\'' :: '\'' ::
        (openingBreak cs ++ (cs ++ '\'' :: '\'' :: '\'' :: rest)) := by
      simp [writtenAs]
    rw [opened, stringValue]
    dsimp only
    rw [skipOpeningBreak_openingBreak id (by decide)]
    have read := literalLines_append h.2 h.1 hs
    rw [List.replicate_zero, List.nil_append, List.nil_append] at read
    rw [read]
    rfl

theorem not_mem_writtenAs {form : Form} {cs : List Char} (h : form.Shows cs) :
    '\r' ∉ writtenAs form cs := by
  have basic (multiline : Bool) : '\r' ∉ basicBody multiline 0 cs := fun hm =>
    (mem_basicBody hm).elim (fun h => absurd h.2 (by decide)) fun h => absurd h (by decide)
  have opening : '\r' ∉ openingBreak cs := by
    unfold openingBreak
    split <;> simp
  cases form with
  | basic => simp [writtenAs, basic]
  | literal =>
    have body : '\r' ∉ cs := fun hm => absurd (h _ hm).1 (by decide)
    simp [writtenAs, body]
  | multilineBasic => simp [writtenAs, opening, basic]
  | multilineLiteral =>
    have body : '\r' ∉ cs := fun hm => absurd (h.1 _ hm) (by decide)
    simp [writtenAs, opening, body]

theorem stringValue_writtenString (s : String) {rest : List Char} (hd : rest.head? ≠ some '\"')
    (hs : rest.head? ≠ some '\'') :
    stringValue ((writtenString s).toList ++ rest) = some (s, rest) := by
  rw [writtenString, String.toList_ofList, stringValue_writtenAs (shows_formOf _) hd hs,
    String.ofList_toList]

theorem not_mem_writtenString (s : String) : '\r' ∉ (writtenString s).toList := by
  rw [writtenString, String.toList_ofList]
  exact not_mem_writtenAs (shows_formOf _)

theorem head?_writtenAs (form : Form) (cs : List Char) :
    ∃ q more, (q = '\"' ∨ q = '\'') ∧ writtenAs form cs = q :: more := by
  cases form with
  | basic => exact ⟨_, _, .inl rfl, rfl⟩
  | literal => exact ⟨_, _, .inr rfl, rfl⟩
  | multilineBasic => exact ⟨_, _, .inl rfl, rfl⟩
  | multilineLiteral => exact ⟨_, _, .inr rfl, rfl⟩

end ProtoWorkspace.Toml
