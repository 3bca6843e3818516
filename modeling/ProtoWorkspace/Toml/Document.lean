import ProtoWorkspace.Toml.Assembly
import ProtoWorkspace.Toml.Scalar

/-!
# Reading TOML documents

Values with arrays and inline tables, the statements of a document, and the document as a whole. The
nesting of values is limited. Recursion is bounded by fuel, of which the length of the text gives
enough: every other step takes a character, and so does every comment that is skipped.
-/

namespace ProtoWorkspace.Toml

/-- The text behind a comment, if the comment holds no control character. -/
def skipComment : List Char → Option (List Char)
  | '#' :: rest =>
    match rest.dropWhile isPlain with
    | [] => some []
    | c :: more => if c = '\n' then some (c :: more) else none
  | cs => some cs

def skipLines : Nat → List Char → Option (List Char)
  | 0, cs => some cs
  | fuel + 1, cs =>
    match cs.dropWhile fun c => isLineBlank c || c == '\n' with
    | '#' :: rest => skipComment ('#' :: rest) >>= skipLines fuel
    | rest => some rest

/-- The end of a line: blanks, perhaps a comment, and a line feed or the end of the text. -/
def lineEnd (cs : List Char) : Option (List Char) := do
  match ← skipComment (skipBlanks cs) with
  | [] => some []
  | c :: rest => if c = '\n' then some rest else none

mutual

/-- A value at the given depth of nesting. -/
def value : (fuel depth : Nat) → Reader Value
  | 0, _, _ => none
  | fuel + 1, depth, '[' :: rest =>
    if depth + 1 < depthLimit then
      (elements fuel (depth + 1) rest).map fun (vs, rest) => (.array vs, rest)
    else none
  | fuel + 1, depth, '{' :: rest =>
    if depth + 1 < depthLimit then do
      let (entries, rest) ← inlineEntries fuel (depth + 1) rest
      let table ← inlineTable entries
      some (table, rest)
    else none
  | _, _, cs => scalar cs

/-- The elements of an array up to and with its closing bracket; a comma may follow the last. -/
def elements : (fuel depth : Nat) → Reader (List Value)
  | 0, _, _ => none
  | fuel + 1, depth, cs => do
    match ← skipLines fuel cs with
    | ']' :: rest => some ([], rest)
    | cs =>
      let (v, rest) ← value fuel depth cs
      match ← skipLines fuel rest with
      | ',' :: rest => (elements fuel depth rest).map fun (vs, rest) => (v :: vs, rest)
      | ']' :: rest => some ([v], rest)
      | _ => none

/-- The entries of an inline table up to and with its closing brace. -/
def inlineEntries : (fuel depth : Nat) → Reader (List Entry)
  | 0, _, _ => none
  | fuel + 1, depth, cs =>
    match skipBlanks cs with
    | '}' :: rest => some ([], rest)
    | cs => moreInlineEntries fuel depth cs

/-- One or more entries up to and with the closing brace. -/
def moreInlineEntries : (fuel depth : Nat) → Reader (List Entry)
  | 0, _, _ => none
  | fuel + 1, depth, cs => do
    let (path, rest) ← key cs
    let (_, rest) ← mark '=' (skipBlanks rest)
    let (v, rest) ← value fuel depth (skipBlanks rest)
    match skipBlanks rest with
    | ',' :: rest =>
      (moreInlineEntries fuel depth rest).map fun (entries, rest) => (⟨path, v⟩ :: entries, rest)
    | '}' :: rest => some ([⟨path, v⟩], rest)
    | _ => none

end

/-- Enough fuel for a text. -/
def fuelFor (cs : List Char) : Nat :=
  2 * cs.length + 2

def entryLine (fuel : Nat) : Reader Entry := fun cs => do
  let (path, rest) ← key cs
  let (_, rest) ← mark '=' (skipBlanks rest)
  let (v, rest) ← value fuel 0 (skipBlanks rest)
  let rest ← lineEnd rest
  some (⟨path, v⟩, rest)

def headerLine : Reader Header
  | '[' :: '[' :: rest => do
    let (path, rest) ← key rest
    let (_, rest) ← word "]]".toList (skipBlanks rest)
    let rest ← lineEnd rest
    some (.element path, rest)
  | '[' :: rest => do
    let (path, rest) ← key rest
    let (_, rest) ← mark ']' (skipBlanks rest)
    let rest ← lineEnd rest
    some (.table path, rest)
  | _ => none

/-- Entries up to the next header or the end of the text. -/
def entryLines : Nat → Reader (List Entry)
  | 0, _ => none
  | fuel + 1, cs => do
    match ← skipLines fuel cs with
    | [] => some ([], [])
    | '[' :: rest => some ([], '[' :: rest)
    | cs =>
      let (entry, rest) ← entryLine fuel cs
      (entryLines fuel rest).map fun (entries, rest) => (entry :: entries, rest)

def sectionLines : Nat → List Char → Option (List Section)
  | _, [] => some []
  | 0, _ => none
  | fuel + 1, cs => do
    let (header, rest) ← headerLine cs
    let (entries, rest) ← entryLines fuel rest
    (sectionLines fuel rest).map (⟨header, entries⟩ :: ·)

/-- The text with a line feed alone at the end of each line. -/
def withLineFeeds : List Char → List Char
  | '\r' :: '\n' :: rest => '\n' :: withLineFeeds rest
  | c :: rest => c :: withLineFeeds rest
  | [] => []

/-- The text without the byte order mark it may start with. -/
def withoutByteOrderMark : List Char → List Char
  | '\uFEFF' :: rest => rest
  | cs => cs

/-- Reads a document; `none` if its text is no TOML. -/
def parse? (text : String) : Option Table := do
  let cs := withLineFeeds (withoutByteOrderMark text.toList)
  let (entries, rest) ← entryLines (fuelFor cs) cs
  let sections ← sectionLines (fuelFor rest) rest
  document entries sections

end ProtoWorkspace.Toml
