import ProtoWorkspace.Error
import ProtoWorkspace.Text.Blank
import ProtoWorkspace.Text.Fields

/-!
# Imports of a Protobuf file

The imports of a file are found without reading the rest of its grammar: comments are replaced by
blanks, the text is cut into statements, and a statement `import "x"`, perhaps with the word
`public` or `weak`, imports `x`. Quoted literals are recognized so that a comment marker inside of
one stays. Whether a quote opens a literal depends on what follows it; so that this is not looked up
again for every quote, the text is first marked from its end to its start.
-/

namespace ProtoWorkspace.Imports

/-- Where a scan of the text is. -/
inductive Place where
  | code
  | lineComment
  /-- Before the star that opens a block comment. -/
  | opening
  | blockComment
  /-- Before the slash that closes a block comment. -/
  | closing
  /-- In a literal that ends at the next `quote` not behind a backslash. -/
  | literal (quote : Char)
  /-- Behind a backslash in a literal. -/
  | escaped (quote : Char)
  deriving DecidableEq

/-- Whether a literal opened by `quote` ends in the text behind it, and on the same line unless a
backslash stands before the end of the line. -/
def closes (quote : Char) : List Char → Bool
  | [] => false
  | ['\\'] => false
  | '\\' :: _ :: rest => closes quote rest
  | c :: rest => c == quote || (c != '\n' && closes quote rest)

def isQuote (c : Char) : Bool :=
  c == '\"' || c == '\''

/-- A character of a text, and whether it is a quote that a proper end follows. -/
structure Mark where
  char : Char
  isOpener : Bool
  deriving DecidableEq

/-- Of a text, whether it ends a literal opened by a double and by a single quote. -/
structure Ends where
  double : Bool := false
  single : Bool := false
  deriving DecidableEq

/-- What a text ends. -/
def Ends.ofText (cs : List Char) : Ends :=
  ⟨closes '\"' cs, closes '\'' cs⟩

/-- Whether a text ends what a quote opens. -/
def Ends.closes (e : Ends) (quote : Char) : Bool :=
  if quote = '\"' then e.double else e.single

/-- What a text ends that consists of a character and of the text that `e` is about; `later` is
about that one without its first character. -/
def Ends.before (c : Char) (e later : Ends) : Ends :=
  if c = '\\' then later
  else ⟨c == '\"' || (c != '\n' && e.double), c == '\'' || (c != '\n' && e.single)⟩

/-- A marked text, what it ends, and what it ends without its first character. -/
structure Marking where
  marks : List Mark := []
  here : Ends := {}
  later : Ends := {}
  deriving DecidableEq

/-- The marking with one more character in front. -/
def Marking.push (c : Char) (m : Marking) : Marking :=
  ⟨⟨c, isQuote c && m.here.closes c⟩ :: m.marks, .before c m.here m.later, m.here⟩

def Marking.ofText (cs : List Char) : Marking :=
  cs.foldr Marking.push {}

def marked (cs : List Char) : List Mark :=
  (Marking.ofText cs).marks

/-- The text with a blank in place of each comment. A quote that opens no literal is an ordinary
character, and a block comment that is not closed reaches to the end. -/
def withoutComments : Place → List Mark → List Char
  | _, [] => []
  | .code, ⟨c, isOpener⟩ :: rest =>
    let next := rest.head?.map Mark.char
    if c = '/' ∧ next = some '/' then ' ' :: withoutComments .lineComment rest
    else if c = '/' ∧ next = some '*' then ' ' :: withoutComments .opening rest
    else if isOpener then c :: withoutComments (.literal c) rest
    else c :: withoutComments .code rest
  | .lineComment, ⟨c, _⟩ :: rest =>
    if c = '\n' then c :: withoutComments .code rest else withoutComments .lineComment rest
  | .opening, _ :: rest => withoutComments .blockComment rest
  | .blockComment, ⟨c, _⟩ :: rest =>
    if c = '*' ∧ rest.head?.map Mark.char = some '/' then withoutComments .closing rest
    else withoutComments .blockComment rest
  | .closing, _ :: rest => withoutComments .code rest
  | .literal quote, ⟨c, _⟩ :: rest =>
    if c = quote then c :: withoutComments .code rest
    else if c = '\\' then c :: withoutComments (.escaped quote) rest
    else c :: withoutComments (.literal quote) rest
  | .escaped quote, ⟨c, _⟩ :: rest => c :: withoutComments (.literal quote) rest

/-- Whether a character ends a statement. -/
def endsStatement (c : Char) : Bool :=
  c == ';' || c == '\x7b' || c == '\x7d'

/-- The pieces of a text between the ends of statements. -/
def statements (cs : List Char) : List (List Char) :=
  Text.fields ';' (cs.map fun c => if endsStatement c then ';' else c)

def after? (word : String) (cs : List Char) : Option (List Char) :=
  if word.toList.isPrefixOf cs then some (cs.drop word.toList.length) else none

/-- A text without the ASCII blanks at its start. -/
def unindented (cs : List Char) : List Char :=
  cs.dropWhile Text.isAsciiBlank

/-- Passes over a modifier, which must stand behind a blank. -/
def afterModifier (cs : List Char) : List Char :=
  let word := unindented cs
  if cs.head?.any Text.isAsciiBlank then
    match (after? "public" word).or (after? "weak" word) with
    | some rest => unindented rest
    | none => word
  else word

/-- The text between two equal quotes, with no such quote inside, when there is nothing else. -/
def unquoted? : List Char → Option (List Char)
  | [] => none
  | quote :: rest =>
    if isQuote quote ∧ rest.getLast? = some quote ∧ quote ∉ rest.dropLast then some rest.dropLast
    else none

def imported? (statement : List Char) : Option String :=
  ((after? "import" (Text.trim statement)).bind fun rest =>
    unquoted? (afterModifier rest)).map String.ofList

/-- The imports of a text, in order. -/
def ofText (text : String) : List String :=
  (statements (withoutComments .code (marked text.toList))).filterMap imported?

/-- The imports of the file at `path` with the given bytes, which must be UTF-8. -/
def ofFile (path : String) (data : ByteArray) : Except Error (List String) :=
  match String.fromUTF8? data with
  | some text => .ok (ofText text)
  | none => .error (.notUtf8 path)

/-- Files that every Protobuf compiler brings along. Importing one needs no module. -/
def wellKnown : List String :=
  ["google/protobuf/any.proto", "google/protobuf/api.proto",
    "google/protobuf/compiler/plugin.proto", "google/protobuf/descriptor.proto",
    "google/protobuf/duration.proto", "google/protobuf/empty.proto",
    "google/protobuf/field_mask.proto", "google/protobuf/source_context.proto",
    "google/protobuf/struct.proto", "google/protobuf/timestamp.proto",
    "google/protobuf/type.proto", "google/protobuf/wrappers.proto"]

/-- What a text ends is known from its first character and the rest. -/
theorem ends_cons (c : Char) (cs : List Char) :
    Ends.ofText (c :: cs) = .before c (.ofText cs) (.ofText cs.tail) := by
  by_cases h : c = '\\'
  · subst h
    cases cs <;> simp [Ends.ofText, Ends.before, closes]
  · simp [Ends.ofText, Ends.before, closes, h]

theorem here_later_ofText (cs : List Char) :
    (Marking.ofText cs).here = .ofText cs ∧ (Marking.ofText cs).later = .ofText cs.tail := by
  induction cs with
  | nil => exact ⟨rfl, rfl⟩
  | cons c cs ih =>
    refine ⟨?_, ih.1⟩
    rw [ends_cons, ← ih.1, ← ih.2]
    rfl

theorem marked_cons (c : Char) (cs : List Char) :
    marked (c :: cs) = ⟨c, isQuote c && closes c cs⟩ :: marked cs := by
  have h : (Marking.ofText (c :: cs)).marks =
      ⟨c, isQuote c && (Marking.ofText cs).here.closes c⟩ :: (Marking.ofText cs).marks := rfl
  rw [marked, h, (here_later_ofText cs).1, marked]
  congr 2
  by_cases hd : c = '\"'
  · simp [Ends.closes, Ends.ofText, hd]
  · by_cases hs : c = '\''
    · simp [Ends.closes, Ends.ofText, hs]
    · have : isQuote c = false := by simp [isQuote, hd, hs]
      simp [this]

/-- Outside of literals a text without slashes and quotes stays as it is. -/
theorem withoutComments_code_of_plain {cs : List Char}
    (h : ∀ c ∈ cs, c ≠ '/' ∧ isQuote c = false) (rest : List Char) :
    withoutComments .code (marked (cs ++ rest)) = cs ++ withoutComments .code (marked rest) := by
  induction cs with
  | nil => rfl
  | cons c cs ih =>
    have hc := h c (by simp)
    have := ih fun d hd => h d (by simp [hd])
    simp [marked_cons, withoutComments, hc.1, hc.2, this]

end ProtoWorkspace.Imports
