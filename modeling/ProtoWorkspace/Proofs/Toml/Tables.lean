import Mathlib.Tactic
import ProtoWorkspace.Proofs.Toml.Strings
import ProtoWorkspace.Toml.Document

/-!
# Written tables read back

A document of lines `key = value`, the first ones before all headers and the others in the tables of
one array. Main statement: it is read back as the table of the first lines with the array behind
them (`parse?_writtenTables`).
-/

namespace ProtoWorkspace.Toml

/-! ## Lines -/

/-- Characters that make up a bare key. -/
def IsBareKey (key : String) : Prop :=
  key.toList ≠ [] ∧ ∀ c ∈ key.toList, isKeyChar c = true

instance (key : String) : Decidable (IsBareKey key) :=
  decidable_of_iff (key.toList ≠ [] ∧ key.toList.all isKeyChar = true)
    (and_congr_right' List.all_eq_true)

/-- A key and a value, with a text of the value that reads back. -/
structure Line where
  key : String
  text : String
  value : Value
  isBareKey : IsBareKey key
  return_notMem : '\r' ∉ text.toList
  reads : ∀ {fuel : Nat} {rest : List Char}, text.length < fuel →
    Toml.value fuel 0 (skipBlanks (text.toList ++ '\n' :: rest)) = some (value, '\n' :: rest)

namespace Line

def entry (line : Line) : Entry :=
  ⟨[line.key], line.value⟩

def field (line : Line) : String × Value :=
  (line.key, line.value)

def written (line : Line) : String :=
  writtenLine line.key line.text

end Line

def linesText (lines : List Line) : String :=
  String.join (lines.map Line.written)

theorem linesText_singleton (line : Line) : linesText [line] = line.written := by
  simp [linesText]

theorem skipBlanks_of_not_blank {c : Char} (h : isLineBlank c = false) (rest : List Char) :
    skipBlanks (c :: rest) = c :: rest := by
  simp [skipBlanks, h]

theorem value_of_scalar {fuel depth : Nat} {c : Char} (hl : c ≠ '[') (hr : c ≠ '\x7b')
    (rest : List Char) : value (fuel + 1) depth (c :: rest) = scalar (c :: rest) := by
  rw [value]
  all_goals simp_all

theorem toList_writtenString_eq (s : String) :
    ∃ q more, (q = '\"' ∨ q = '\'') ∧ (writtenString s).toList = q :: more := by
  obtain ⟨q, more, hq, head⟩ := head?_writtenAs (formOf s.toList) s.toList
  exact ⟨q, more, hq, by rw [writtenString, String.toList_ofList, head]⟩

theorem skipBlanks_writtenString (s : String) (rest : List Char) :
    skipBlanks ((writtenString s).toList ++ rest) = (writtenString s).toList ++ rest := by
  obtain ⟨q, more, hq, text⟩ := toList_writtenString_eq s
  have notBlank : isLineBlank q = false := by rcases hq with rfl | rfl <;> rfl
  rw [text, List.cons_append, skipBlanks_of_not_blank notBlank]

/-- A written string is a value in front of any text that does not go on with a quote. -/
theorem value_writtenString (s : String) {rest : List Char} (hd : rest.head? ≠ some '\"')
    (hs : rest.head? ≠ some '\'') (fuel depth : Nat) :
    value (fuel + 1) depth ((writtenString s).toList ++ rest) = some (.string s, rest) := by
  obtain ⟨q, more, hq, text⟩ := toList_writtenString_eq s
  have read := stringValue_writtenString s hd hs
  have hl : q ≠ '[' := by rcases hq with rfl | rfl <;> decide
  have hr : q ≠ '\x7b' := by rcases hq with rfl | rfl <;> decide
  rw [text, List.cons_append] at read ⊢
  rw [value_of_scalar hl hr, scalar, read]

/-- The line of a string. -/
def Line.string (key s : String) (hk : IsBareKey key) : Line where
  key := key
  text := writtenString s
  value := .string s
  isBareKey := hk
  return_notMem := not_mem_writtenString s
  reads := by
    intro fuel rest hf
    obtain ⟨fuel, rfl⟩ := Nat.exists_eq_succ_of_ne_zero (Nat.ne_zero_of_lt hf)
    rw [skipBlanks_writtenString, value_writtenString s (by simp) (by simp)]

/-- The line of an array without elements. -/
def Line.noElements (key : String) (hk : IsBareKey key) : Line where
  key := key
  text := "[]"
  value := .array []
  isBareKey := hk
  return_notMem := by decide
  reads := by
    intro fuel rest hf
    obtain ⟨fuel, rfl⟩ : ∃ more, fuel = more + 3 := ⟨fuel - 3, (Nat.sub_add_cancel hf).symm⟩
    change Toml.value (fuel + 3) 0 ('[' :: ']' :: '\n' :: rest) = _
    simp [Toml.value, elements, depthLimit, skipLines, isLineBlank]

/-! ## Keys -/

theorem ne_of_isKeyChar {c d : Char} (hc : isKeyChar c = true) (hd : isKeyChar d = false) :
    c ≠ d := by
  rintro rfl
  exact absurd hc (by simp [hd])

theorem isLineBlank_of_isKeyChar {c : Char} (hc : isKeyChar c = true) : isLineBlank c = false := by
  simp [isLineBlank, ne_of_isKeyChar hc (d := ' ') rfl, ne_of_isKeyChar hc (d := '\t') rfl]

section Keys

variable {key : String} {rest : List Char}

theorem IsBareKey.toList_eq (hk : IsBareKey key) :
    ∃ c cs, key.toList = c :: cs ∧ isKeyChar c = true := by
  obtain ⟨hn, hc⟩ := hk
  cases h : key.toList with
  | nil => exact absurd h hn
  | cons c cs => exact ⟨c, cs, rfl, hc c (by simp [h])⟩

theorem span_isKeyChar (hk : IsBareKey key) (hr : ∀ c ∈ rest.head?, isKeyChar c = false) :
    (key.toList ++ rest).span isKeyChar = (key.toList, rest) := by
  rw [List.span_eq_takeWhile_dropWhile, List.takeWhile_append_of_pos hk.2,
    List.dropWhile_append_of_pos hk.2]
  cases rest with
  | nil => simp
  | cons c rest => simp [hr c rfl]

theorem keyPart_bare (hk : IsBareKey key) (hr : ∀ c ∈ rest.head?, isKeyChar c = false) :
    keyPart (key.toList ++ rest) = some (key, rest) := by
  obtain ⟨c, cs, hcs, hc⟩ := hk.toList_eq
  have span := span_isKeyChar hk hr
  have hd : c ≠ '\"' := ne_of_isKeyChar hc rfl
  have hs : c ≠ '\'' := ne_of_isKeyChar hc rfl
  rw [hcs, List.cons_append] at span ⊢
  rw [keyPart, span]
  · dsimp only
    rw [← hcs, String.ofList_toList]
  all_goals simp_all

theorem key_bare (hk : IsBareKey key) (hr : ∀ c ∈ rest.head?, isKeyChar c = false)
    (hd : (skipBlanks rest).head? ≠ some '.') :
    Toml.key (key.toList ++ rest) = some ([key], skipBlanks rest) := by
  obtain ⟨c, cs, hcs, hc⟩ := hk.toList_eq
  have start : skipBlanks (key.toList ++ rest) = key.toList ++ rest := by
    rw [hcs]
    exact skipBlanks_of_not_blank (isLineBlank_of_isKeyChar hc) _
  have noMore : moreKeyParts depthLimit rest = some ([], skipBlanks rest) := by
    rw [depthLimit, moreKeyParts]
    split
    · next h => simp [h] at hd
    · rfl
  rw [Toml.key, start, keyPart_bare hk hr]
  dsimp only [Option.bind_eq_bind, Option.bind_some]
  rw [noMore]
  rfl

end Keys

/-! ## Lines read back -/

theorem lineEnd_newline (rest : List Char) : lineEnd ('\n' :: rest) = some rest := by
  rw [lineEnd, skipBlanks_of_not_blank rfl, skipComment]
  · rfl
  · simp

theorem Line.toList_written (line : Line) :
    line.written.toList = line.key.toList ++ " = ".toList ++ line.text.toList ++ ['\n'] := by
  simp [Line.written, writtenLine]

theorem Line.length_text_lt (line : Line) : line.text.length + 4 < line.written.toList.length := by
  have key : 0 < line.key.toList.length := List.length_pos_iff.2 line.isBareKey.1
  have equals : " = ".toList.length = 3 := rfl
  have text : line.text.toList.length = line.text.length := String.length_toList
  rw [line.toList_written, List.length_append, List.length_append, List.length_append, equals,
    List.length_singleton]
  omega

theorem entryLine_written (line : Line) {fuel : Nat} (hf : line.text.length < fuel)
    (rest : List Char) :
    entryLine fuel (line.written.toList ++ rest) = some (line.entry, rest) := by
  have opened : line.written.toList ++ rest =
      line.key.toList ++ (' ' :: '=' :: ' ' :: (line.text.toList ++ '\n' :: rest)) := by
    rw [line.toList_written]
    simp
  have key : Toml.key (line.key.toList ++
      (' ' :: '=' :: ' ' :: (line.text.toList ++ '\n' :: rest))) = some ([line.key], _) :=
    key_bare line.isBareKey (by simp [isKeyChar]) (by simp [skipBlanks, isLineBlank])
  have blanks : skipBlanks (' ' :: '=' :: ' ' :: (line.text.toList ++ '\n' :: rest)) =
      '=' :: ' ' :: (line.text.toList ++ '\n' :: rest) := rfl
  have equals : skipBlanks ('=' :: ' ' :: (line.text.toList ++ '\n' :: rest)) =
      '=' :: ' ' :: (line.text.toList ++ '\n' :: rest) := rfl
  have value : skipBlanks (' ' :: (line.text.toList ++ '\n' :: rest)) =
      skipBlanks (line.text.toList ++ '\n' :: rest) := rfl
  rw [opened, entryLine, key, blanks]
  simp [equals, mark, value, line.reads hf, lineEnd_newline, Line.entry]

theorem Line.toList_written_eq (line : Line) :
    ∃ c cs, line.written.toList = c :: cs ∧ isKeyChar c = true := by
  obtain ⟨c, cs, hcs, hc⟩ := line.isBareKey.toList_eq
  exact ⟨c, _, by rw [line.toList_written, hcs]; rfl, hc⟩

theorem skipLines_of_isKeyChar {c : Char} (hc : isKeyChar c = true) (fuel : Nat)
    (rest : List Char) : skipLines fuel (c :: rest) = some (c :: rest) := by
  have newline : c ≠ '\n' := ne_of_isKeyChar hc rfl
  have comment : c ≠ '#' := ne_of_isKeyChar hc rfl
  cases fuel with
  | zero => rfl
  | succ fuel => simp [skipLines, isLineBlank_of_isKeyChar hc, newline, comment]

/-- Nothing but blanks and line feeds, behind which the text ends or a header follows. -/
def EndsLines (cs last : List Char) : Prop :=
  (cs.dropWhile fun c => isLineBlank c || c == '\n') = last ∧
    (last = [] ∨ ∃ more, last = '[' :: more)

theorem skipLines_of_endsLines {cs last : List Char} (h : EndsLines cs last) {fuel : Nat}
    (hf : cs.length ≤ fuel) : skipLines fuel cs = some last := by
  obtain ⟨rfl, hl⟩ := h
  cases fuel with
  | zero =>
    obtain rfl := List.length_eq_zero_iff.1 (Nat.le_zero.1 hf)
    rfl
  | succ fuel =>
    rw [skipLines]
    rcases hl with hl | ⟨more, hl⟩
    · rw [hl]
    · rw [hl]
      rfl

theorem linesText_cons (line : Line) (lines : List Line) :
    (linesText (line :: lines)).toList = line.written.toList ++ (linesText lines).toList := by
  simp [linesText]

theorem entryLines_linesText (lines : List Line) {rest last : List Char} (hr : EndsLines rest last)
    {fuel : Nat} (hf : (linesText lines).toList.length + rest.length < fuel) :
    entryLines fuel ((linesText lines).toList ++ rest) = some (lines.map Line.entry, last) := by
  induction lines generalizing fuel with
  | nil =>
    obtain ⟨fuel, rfl⟩ := Nat.exists_eq_succ_of_ne_zero (Nat.ne_zero_of_lt hf)
    have enough : rest.length ≤ fuel := by
      simp [linesText] at hf
      omega
    have skip := skipLines_of_endsLines hr enough
    change entryLines (fuel + 1) rest = _
    rw [entryLines, skip]
    rcases hr.2 with rfl | ⟨more, rfl⟩ <;> rfl
  | cons line lines ih =>
    obtain ⟨fuel, rfl⟩ := Nat.exists_eq_succ_of_ne_zero (Nat.ne_zero_of_lt hf)
    rw [linesText_cons, List.length_append] at hf
    have long := line.length_text_lt
    have enough : line.text.length < fuel := by omega
    have enoughBelow : (linesText lines).toList.length + rest.length < fuel := by omega
    have read := entryLine_written line enough ((linesText lines).toList ++ rest)
    have more := ih enoughBelow
    obtain ⟨c, cs, hcs, hc⟩ := line.toList_written_eq
    rw [linesText_cons, List.append_assoc]
    rw [hcs, List.cons_append] at read ⊢
    rw [entryLines, skipLines_of_isKeyChar hc]
    have header : c ≠ '[' := ne_of_isKeyChar hc rfl
    simp [header, read, more]

/-! ## Tables of an array -/

/-- A header and the lines below it. -/
def tableText (key : String) (lines : List Line) : String :=
  "[[" ++ key ++ "]]\n" ++ linesText lines

def tablesText (key : String) (tables : List (List Line)) : String :=
  "\n".intercalate (tables.map (tableText key))

def elementOf (key : String) (lines : List Line) : Section :=
  ⟨.element [key], lines.map Line.entry⟩

theorem headerLine_element {key : String} (hk : IsBareKey key) (rest : List Char) :
    headerLine ("[[".toList ++ key.toList ++ "]]\n".toList ++ rest) =
      some (.element [key], rest) := by
  have opened : "[[".toList ++ key.toList ++ "]]\n".toList ++ rest =
      '[' :: '[' :: (key.toList ++ (']' :: ']' :: '\n' :: rest)) := by
    simp
  have key : Toml.key (key.toList ++ (']' :: ']' :: '\n' :: rest)) = some ([key], _) :=
    key_bare hk (by simp [isKeyChar]) (by simp [skipBlanks, isLineBlank])
  have blanks : skipBlanks (']' :: ']' :: '\n' :: rest) = ']' :: ']' :: '\n' :: rest := rfl
  rw [opened, headerLine, key, blanks]
  simp [blanks, word, lineEnd_newline]

theorem toList_tableText (key : String) (lines : List Line) :
    (tableText key lines).toList =
      "[[".toList ++ key.toList ++ "]]\n".toList ++ (linesText lines).toList := by
  simp [tableText]

/-- Between two tables there is a line feed. -/
theorem tablesText_cons (key : String) (lines : List Line) (tables : List (List Line)) :
    ∃ gap : List Char, (∀ c ∈ gap, c = '\n') ∧
      (tablesText key (lines :: tables)).toList =
        (tableText key lines).toList ++ (gap ++ (tablesText key tables).toList) := by
  cases tables with
  | nil => exact ⟨[], by simp, by simp [tablesText]⟩
  | cons next tables =>
    exact ⟨['\n'], by simp, by simp [tablesText, String.intercalate_cons_cons]⟩

theorem endsLines_tablesText (key : String) (tables : List (List Line)) {gap : List Char}
    (hg : ∀ c ∈ gap, c = '\n') :
    EndsLines (gap ++ (tablesText key tables).toList) (tablesText key tables).toList := by
  rw [EndsLines, List.dropWhile_append_of_pos fun c hc => by simp [hg c hc]]
  cases tables with
  | nil => exact ⟨rfl, .inl rfl⟩
  | cons lines tables =>
    obtain ⟨more, -, text⟩ := tablesText_cons key lines tables
    rw [toList_tableText] at text
    rw [text]
    exact ⟨rfl, .inr ⟨_, rfl⟩⟩

theorem sectionLines_tablesText {key : String} (hk : IsBareKey key) (tables : List (List Line))
    {fuel : Nat} (hf : (tablesText key tables).toList.length < fuel) :
    sectionLines fuel (tablesText key tables).toList = some (tables.map (elementOf key)) := by
  induction tables generalizing fuel with
  | nil => simp [tablesText, sectionLines]
  | cons lines tables ih =>
    obtain ⟨gap, hg, text⟩ := tablesText_cons key lines tables
    obtain ⟨fuel, rfl⟩ := Nat.exists_eq_succ_of_ne_zero (Nat.ne_zero_of_lt hf)
    rw [text, toList_tableText, List.append_assoc] at hf ⊢
    have ends := endsLines_tablesText key tables hg
    generalize (tablesText key tables).toList = last at ih hf ends ⊢
    have length : "[[".toList.length = 2 := rfl
    simp only [List.length_append, length] at hf
    have enough : (linesText lines).toList.length + (gap ++ last).length < fuel := by
      rw [List.length_append]
      omega
    have enoughBelow : last.length < fuel := by omega
    have below := entryLines_linesText lines ends enough
    have more := ih enoughBelow
    rw [sectionLines, headerLine_element hk]
    · simp [below, more, elementOf]
    · simp

/-! ## Documents -/

theorem withLineFeeds_of_notMem {cs : List Char} (h : '\r' ∉ cs) : withLineFeeds cs = cs := by
  induction cs with
  | nil => rfl
  | cons c cs ih =>
    rw [List.mem_cons, not_or] at h
    rw [withLineFeeds, ih h.2]
    rintro _ rfl
    exact absurd rfl h.1

theorem IsBareKey.return_notMem {key : String} (hk : IsBareKey key) : '\r' ∉ key.toList :=
  fun hm => absurd (hk.2 _ hm) (by decide)

theorem return_notMem_linesText (lines : List Line) : '\r' ∉ (linesText lines).toList := by
  induction lines with
  | nil => simp [linesText]
  | cons line lines ih =>
    rw [linesText_cons, line.toList_written]
    simp [line.isBareKey.return_notMem, line.return_notMem, ih]

theorem return_notMem_tablesText {key : String} (hk : IsBareKey key)
    (tables : List (List Line)) : '\r' ∉ (tablesText key tables).toList := by
  induction tables with
  | nil => simp [tablesText]
  | cons lines tables ih =>
    obtain ⟨gap, hg, text⟩ := tablesText_cons key lines tables
    have gap : '\r' ∉ gap := fun hm => absurd (hg _ hm) (by decide)
    rw [text, toList_tableText]
    simp [hk.return_notMem, return_notMem_linesText, gap, ih]

/-- A text of lines and tables is read as its statements. -/
theorem parse?_of_toList_eq {key : String} (hk : IsBareKey key) {text : String}
    {start : List Line} {gap : List Char} {tables : List (List Line)} (hg : ∀ c ∈ gap, c = '\n')
    (ht : text.toList = (linesText start).toList ++ (gap ++ (tablesText key tables).toList))
    (hb : withoutByteOrderMark text.toList = text.toList) :
    parse? text = document (start.map Line.entry) (tables.map (elementOf key)) := by
  have noReturn : '\r' ∉ text.toList := by
    have gap : '\r' ∉ gap := fun hm => absurd (hg _ hm) (by decide)
    rw [ht]
    simp [return_notMem_linesText, return_notMem_tablesText hk, gap]
  have enough : (linesText start).toList.length + (gap ++ (tablesText key tables).toList).length <
      fuelFor text.toList := by
    rw [fuelFor, ht]
    simp only [List.length_append]
    omega
  have enoughBelow : (tablesText key tables).toList.length <
      fuelFor (tablesText key tables).toList := by
    rw [fuelFor]
    omega
  have first := entryLines_linesText start (endsLines_tablesText key tables hg) enough
  have rest := sectionLines_tablesText hk tables enoughBelow
  rw [← ht] at first
  rw [parse?, hb, withLineFeeds_of_notMem noReturn]
  simp [first, rest]

/-! ## Assembly -/

def nodesOf (lines : List Line) : Nodes :=
  lines.map fun line => (line.key, .value line.value)

theorem find?_eq_none {nodes : Nodes} {key : String} (h : key ∉ nodes.map Prod.fst) :
    nodes.find? key = none := by
  rw [Nodes.find?, List.lookup_eq_none_iff]
  intro node hn
  rw [bne_iff_ne]
  rintro rfl
  exact h (List.mem_map_of_mem hn)

theorem find?_append_self {nodes : Nodes} {key : String} (h : key ∉ nodes.map Prod.fst)
    (node : Node) : Nodes.find? (nodes ++ [(key, node)]) key = some node := by
  have none := find?_eq_none h
  rw [Nodes.find?] at none ⊢
  simp [List.lookup_append, none]

theorem replace_append_self {nodes : Nodes} {key : String} (h : key ∉ nodes.map Prod.fst)
    (old node : Node) :
    Nodes.replace (nodes ++ [(key, old)]) key node = nodes ++ [(key, node)] := by
  induction nodes with
  | nil => simp [Nodes.replace]
  | cons first nodes ih =>
    simp only [List.map_cons, List.mem_cons, not_or] at h
    simp only [Nodes.replace, List.cons_append, List.map_cons, if_neg (Ne.symm h.1)] at ih ⊢
    rw [ih h.2]

theorem addEntry_new {nodes : Nodes} (line : Line) (h : line.key ∉ nodes.map Prod.fst) :
    addEntry nodes line.entry = some (nodes ++ [(line.key, .value line.value)]) := by
  simp [addEntry, Line.entry, changeAt, find?_eq_none h]

theorem ofEntries_lines {start : Nodes} {lines : List Line}
    (h : (start.map Prod.fst ++ lines.map Line.key).Nodup) :
    ofEntries start (lines.map Line.entry) = some (start ++ nodesOf lines) := by
  induction lines generalizing start with
  | nil => simp [ofEntries, nodesOf]
  | cons line lines ih =>
    have fresh : line.key ∉ start.map Prod.fst := fun hm =>
      (List.nodup_append.1 h).2.2 _ hm _ List.mem_cons_self rfl
    have more : ofEntries (start ++ [(line.key, .value line.value)]) (lines.map Line.entry) =
        some (start ++ [(line.key, .value line.value)] ++ nodesOf lines) :=
      ih (by simpa using h)
    rw [ofEntries] at more ⊢
    rw [List.map_cons, List.foldlM_cons, addEntry_new line fresh]
    simpa [nodesOf] using more

theorem ofEntries_nil_lines {lines : List Line} (h : (lines.map Line.key).Nodup) :
    ofEntries [] (lines.map Line.entry) = some (nodesOf lines) :=
  ofEntries_lines (by simpa using h)

variable {start : Nodes} {key : String} {lines : List Line}

theorem addSection_first (hk : key ∉ start.map Prod.fst) (h : (lines.map Line.key).Nodup) :
    addSection start (elementOf key lines) =
      some (start ++ [(key, .elements [nodesOf lines])]) := by
  simp [addSection, elementOf, changeAt, ofEntries_nil_lines h, find?_eq_none hk]

theorem addSection_next (hk : key ∉ start.map Prod.fst) (h : (lines.map Line.key).Nodup)
    (earlier : List Nodes) :
    addSection (start ++ [(key, .elements earlier)]) (elementOf key lines) =
      some (start ++ [(key, .elements (nodesOf lines :: earlier))]) := by
  simp [addSection, elementOf, changeAt, ofEntries_nil_lines h, find?_append_self hk,
    replace_append_self hk]

theorem addSections_next (hk : key ∉ start.map Prod.fst) {tables : List (List Line)}
    (h : ∀ lines ∈ tables, (lines.map Line.key).Nodup) (earlier : List Nodes) :
    (tables.map (elementOf key)).foldlM addSection (start ++ [(key, .elements earlier)]) =
      some (start ++ [(key, .elements ((tables.map nodesOf).reverse ++ earlier))]) := by
  induction tables generalizing earlier with
  | nil => rfl
  | cons lines tables ih =>
    rw [List.forall_mem_cons] at h
    rw [List.map_cons, List.foldlM_cons, addSection_next hk h.1]
    simpa using ih h.2 (nodesOf lines :: earlier)

theorem valuesOfNodes_append (nodes more : Nodes) :
    valuesOfNodes (nodes ++ more) = valuesOfNodes nodes ++ valuesOfNodes more := by
  induction nodes with
  | nil => rfl
  | cons node nodes ih => simp [valuesOfNodes, ih]

theorem valuesOfNodes_nodesOf (lines : List Line) :
    valuesOfNodes (nodesOf lines) = lines.map Line.field := by
  induction lines with
  | nil => rfl
  | cons line lines ih =>
    simp only [nodesOf, List.map_cons] at ih ⊢
    rw [valuesOfNodes, ih]
    rfl

theorem valuesOfTables_eq (tables : List (List Line)) :
    valuesOfTables (tables.map nodesOf) = tables.map fun lines => .table (lines.map Line.field) := by
  induction tables with
  | nil => rfl
  | cons lines tables ih =>
    simp only [List.map_cons, valuesOfTables, ih, valuesOfNodes_nodesOf]

/-- The first lines and the array of the tables behind them. -/
def tableOf (start : List Line) (key : String) (tables : List (List Line)) : Table :=
  start.map Line.field ++ [(key, .array (tables.map fun lines => .table (lines.map Line.field)))]

theorem document_tables {start : List Line} (hs : (start.map Line.key).Nodup)
    (hk : key ∉ start.map Line.key) (first : List Line) {tables : List (List Line)}
    (h : ∀ lines ∈ first :: tables, (lines.map Line.key).Nodup) :
    document (start.map Line.entry) ((first :: tables).map (elementOf key)) =
      some (tableOf start key (first :: tables)) := by
  have keys : (nodesOf start).map Prod.fst = start.map Line.key := by
    simp [nodesOf, Function.comp_def]
  rw [List.forall_mem_cons] at h
  have hn : key ∉ (nodesOf start).map Prod.fst := by rwa [keys]
  have sections : ((first :: tables).map (elementOf key)).foldlM addSection (nodesOf start) =
      some (nodesOf start ++ [(key, .elements ((first :: tables).map nodesOf).reverse)]) := by
    rw [List.map_cons, List.foldlM_cons, addSection_first hn h.1]
    simpa using addSections_next hn h.2 [nodesOf first]
  have values : valuesOfNodes [(key, .elements ((first :: tables).map nodesOf).reverse)] =
      [(key, .array ((first :: tables).map fun lines => .table (lines.map Line.field)))] := by
    rw [← List.map_reverse, valuesOfNodes, Node.toValue, valuesOfTables_eq, List.map_reverse,
      List.reverse_reverse]
    rfl
  simp only [document, ofEntries_nil_lines hs, sections, Option.bind_eq_bind, Option.bind_some,
    valuesOfNodes_append, valuesOfNodes_nodesOf, values, tableOf]

theorem document_lines {start : List Line} (hs : (start.map Line.key).Nodup) :
    document (start.map Line.entry) [] = some (start.map Line.field) := by
  simp [document, ofEntries_nil_lines hs, valuesOfNodes_nodesOf]

/-! ## Written documents -/

theorem linesText_append (lines more : List Line) :
    linesText (lines ++ more) = linesText lines ++ linesText more := by
  rw [← String.toList_inj]
  simp [linesText]

theorem withoutByteOrderMark_cons {c : Char} (hc : c ≠ '\uFEFF') (rest : List Char) :
    withoutByteOrderMark (c :: rest) = c :: rest := by
  rw [withoutByteOrderMark]
  simpa using hc

theorem withoutByteOrderMark_linesText (lines : List Line) (hl : lines ≠ []) (rest : List Char) :
    withoutByteOrderMark ((linesText lines).toList ++ rest) =
      (linesText lines).toList ++ rest := by
  obtain ⟨line, lines, rfl⟩ := List.exists_cons_of_ne_nil hl
  obtain ⟨c, cs, hcs, hc⟩ := line.toList_written_eq
  rw [linesText_cons, hcs]
  exact withoutByteOrderMark_cons (ne_of_isKeyChar hc (by decide)) _

/-- Before the first table there is a line feed, if there are lines before it. -/
theorem writtenTables_cons (start : List Line) (key : String) (first : List Line)
    (tables : List (List Line)) :
    ∃ gap : List Char, (∀ c ∈ gap, c = '\n') ∧
      (writtenTables (linesText start) key ((first :: tables).map linesText)).toList =
        (linesText start).toList ++ (gap ++ (tablesText key (first :: tables)).toList) ∧
      (start = [] → gap = []) := by
  have blocks : (((first :: tables).map linesText).map fun lines => "[[" ++ key ++ "]]\n" ++ lines) =
      (first :: tables).map (tableText key) := by
    rw [List.map_map]
    rfl
  have notEmpty : ((first :: tables).map linesText).isEmpty = false := rfl
  refine ⟨(if (linesText start).isEmpty then "" else "\n").toList, ?_, ?_, ?_⟩
  · intro c hc
    split at hc
    · simp at hc
    · simpa using hc
  · rw [writtenTables, notEmpty, if_neg Bool.false_ne_true, blocks, String.toList_append,
      String.toList_append, List.append_assoc]
    rfl
  · rintro rfl
    rfl

/-- A written document is read back as the table of its first lines with the array of its tables
behind them. -/
theorem parse?_writtenTables {start : List Line} (hs : (start.map Line.key).Nodup) {key : String}
    (hk : IsBareKey key) (hn : key ∉ start.map Line.key) {tables : List (List Line)}
    (h : ∀ lines ∈ tables, (lines.map Line.key).Nodup) :
    parse? (writtenTables (linesText start) key (tables.map linesText)) =
      some (tableOf start key tables) := by
  cases tables with
  | nil =>
    have text : writtenTables (linesText start) key [] =
        linesText (start ++ [Line.noElements key hk]) := by
      rw [linesText_append]
      simp [writtenTables, linesText, Line.written, Line.noElements]
    have keys : ((start ++ [Line.noElements key hk]).map Line.key).Nodup := by
      simpa [List.nodup_append, Line.noElements, hs] using fun line hl => fun e =>
        hn (List.mem_map.2 ⟨line, hl, e⟩)
    have mark := withoutByteOrderMark_linesText (start ++ [Line.noElements key hk]) (by simp) []
    rw [List.append_nil] at mark
    have lines : (linesText (start ++ [Line.noElements key hk])).toList =
        (linesText (start ++ [Line.noElements key hk])).toList ++
          ([] ++ (tablesText key []).toList) := by
      simp [tablesText]
    have read := parse?_of_toList_eq hk (by simp) lines mark
    rw [List.map_nil, text, read, List.map_nil, document_lines keys]
    simp [tableOf, Line.noElements, Line.field]
  | cons first tables =>
    obtain ⟨gap, hg, text, none⟩ := writtenTables_cons start key first tables
    rw [parse?_of_toList_eq hk hg text ?_, document_tables hs hn first h]
    rw [text]
    by_cases hl : start = []
    · obtain ⟨_, -, tables⟩ := tablesText_cons key first tables
      rw [none hl, hl, tables, toList_tableText]
      rfl
    · exact withoutByteOrderMark_linesText start hl _

end ProtoWorkspace.Toml
