import ProtoWorkspace.Toml.Value

/-!
# Written forms of TOML

How strings, keys and values are written. A string takes the first of four forms that shows it
without escapes: basic, literal, multi-line basic, multi-line literal. Where none does, it is
written with escapes in a basic form, on several lines if it holds a line feed.
-/

namespace ProtoWorkspace.Toml

/-- The four ways to write a string. -/
inductive Form where
  | basic
  | literal
  | multilineBasic
  | multilineLiteral
  deriving DecidableEq

/-- The control characters of ASCII apart from tab and line feed. -/
def isEscapedControl (c : Char) : Bool :=
  (c.toNat < 0x20 && c != '\t' && c != '\n') || c.toNat == 0x7F

/-- The length of the longest run of a character, given that `run` of them went before. -/
def longestRun (x : Char) (run : Nat) : List Char → Nat
  | [] => run
  | c :: rest => if c = x then longestRun x (run + 1) rest else max run (longestRun x 0 rest)

/-- The form in which a string is written. -/
def formOf (cs : List Char) : Form :=
  let control := cs.any isEscapedControl
  let backslash := cs.contains '\\'
  let newline := cs.contains '\n'
  let double := longestRun '\"' 0 cs
  let single := longestRun '\'' 0 cs
  if !control && !backslash && double == 0 && !newline then .basic
  else if !control && single == 0 && !newline then .literal
  else if !control && !backslash && double ≤ 2 then .multilineBasic
  else if !control && single ≤ 2 then .multilineLiteral
  else if newline then .multilineBasic
  else .basic

/-- The last four hexadecimal digits of a number, in upper case. -/
def fourDigits (n : Nat) : List Char :=
  [n / 4096, n / 256, n / 16, n].map fun d => Char.toUpper (Nat.digitChar (d % 16))

/-- A character other than a double quote as it stands in a basic form. -/
def escaped (multiline : Bool) (c : Char) : List Char :=
  if c = '\x08' then ['\\', 'b']
  else if c = '\t' then ['\\', 't']
  else if c = '\n' then if multiline then ['\n'] else ['\\', 'n']
  else if c = '\x0c' then ['\\', 'f']
  else if c = '\r' then ['\\', 'r']
  else if c = '\\' then ['\\', '\\']
  else if isEscapedControl c then '\\' :: 'u' :: fourDigits c.toNat
  else [c]

/-- The body of a basic form. Of a run of double quotes, `run` of which went before, each third one
is escaped on several lines and each one on a single line. -/
def basicBody (multiline : Bool) (run : Nat) : List Char → List Char
  | [] => []
  | c :: rest =>
    if c = '\"' then
      if run = if multiline then 2 else 0 then '\\' :: '\"' :: basicBody multiline 0 rest
      else '\"' :: basicBody multiline (run + 1) rest
    else escaped multiline c ++ basicBody multiline 0 rest

/-- The line feed that follows the opening delimiter of a string on several lines. -/
def openingBreak (cs : List Char) : List Char :=
  if cs.contains '\n' then ['\n'] else []

def writtenAs (form : Form) (cs : List Char) : List Char :=
  match form with
  | .basic => '\"' :: basicBody false 0 cs ++ ['\"']
  | .literal => '\'' :: cs ++ ['\'']
  | .multilineBasic =>
    "\"\"\"".toList ++ openingBreak cs ++ basicBody true 0 cs ++ "\"\"\"".toList
  | .multilineLiteral => "'''".toList ++ openingBreak cs ++ cs ++ "'''".toList

def writtenString (s : String) : String :=
  String.ofList (writtenAs (formOf s.toList) s.toList)

/-- The characters of keys that need no quotes. -/
def isBare (c : Char) : Bool :=
  c.isAlphanum || c == '_' || c == '-'

/-- A key: bare if it can be, else as a string on one line. -/
def writtenKey (key : String) : String :=
  let cs := key.toList
  if !cs.isEmpty && cs.all isBare then key
  else
    match formOf cs with
    | .literal => String.ofList (writtenAs .literal cs)
    | _ => String.ofList (writtenAs .basic cs)

def commaSeparated (texts : List String) : String :=
  ", ".intercalate texts

mutual

def Value.written : Value → String
  | .string s => writtenString s
  | .integer i => toString i
  | .float x => if isNaN x then "nan" else numberText x
  | .boolean b => if b then "true" else "false"
  | .dateTime d => d.text
  | .array elements => "[" ++ commaSeparated (writtenElements elements) ++ "]"
  | .table entries =>
    if entries.isEmpty then "\x7b\x7d"
    else "\x7b " ++ commaSeparated (writtenEntries entries) ++ " \x7d"

def writtenElements : List Value → List String
  | [] => []
  | v :: rest => v.written :: writtenElements rest

def writtenEntries : List (String × Value) → List String
  | [] => []
  | (key, v) :: rest => (writtenKey key ++ " = " ++ v.written) :: writtenEntries rest

end

/-- A value by itself: a date-time is shown as the table it may be taken for. -/
def Value.shown : Value → String
  | .dateTime d => (Value.table [(DateTime.key, .string d.text)]).written
  | v => v.written

/-- Why something has no text in TOML. -/
inductive WriteFault where
  /-- A path that is no text. -/
  | path
  deriving DecidableEq

def WriteFault.message : WriteFault → String
  | .path => "path contains invalid UTF-8 characters"

/-- An array of strings in a document: each of several elements has a line of its own. -/
def writtenStrings : List String → String
  | [] => "[]"
  | [s] => "[" ++ writtenString s ++ "]"
  | strings => "[\n" ++ String.join (strings.map fun s => "    " ++ writtenString s ++ ",\n") ++ "]"

def writtenLine (key value : String) : String :=
  key ++ " = " ++ value ++ "\n"

/-- A document that consists of an array of tables, each given by its lines. Behind `start`, an
earlier part of the document, the first table has a blank line in front of it as the others do. -/
def writtenTables (start key : String) (tables : List String) : String :=
  if tables.isEmpty then start ++ writtenLine key "[]"
  else
    let blocks := tables.map fun lines => "[[" ++ key ++ "]]\n" ++ lines
    start ++ (if start.isEmpty then "" else "\n") ++ "\n".intercalate blocks

end ProtoWorkspace.Toml
