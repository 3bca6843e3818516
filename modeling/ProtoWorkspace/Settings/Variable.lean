/-!
# Names of variables

The name of a variable, in lower case, tells behind a common start which setting the variable is
for. Steps into the value of the setting may follow: a point and a key lead into a table, a number
between brackets leads into an array.
-/

namespace ProtoWorkspace.Settings

/-- A step into the value of a setting. -/
inductive Step where
  | key (name : String)
  | index
  deriving DecidableEq

/-- The start of the names of all variables, in lower case. -/
def marker : String := "protomodule_"

/-- A character in lower case where that is a character of ASCII; the Kelvin sign is the only one
beyond ASCII for which it is. -/
def lowerCase (c : Char) : Char :=
  if c = '\u212A' then 'k' else c.toLower

/-- The characters of the names of settings and of keys. -/
def isNameChar (c : Char) : Bool :=
  c.isAlphanum || c == '_' || c == '-'

def skipSpaces (cs : List Char) : List Char :=
  cs.dropWhile fun c => c == ' ' || c == '\t'

/-- What follows an index and its closing bracket. An index fits 64 bits. -/
def afterIndex? (cs : List Char) : Option (List Char) :=
  let cs := skipSpaces cs
  let (limit, cs) :=
    match cs with
    | '-' :: rest => (9223372036854775808, rest)
    | _ => (9223372036854775807, cs)
  match cs.span Char.isDigit with
  | ([], _) => none
  | (digits, rest) =>
    let n := digits.foldl (fun n d => 10 * n + (d.toNat - '0'.toNat)) 0
    match skipSpaces rest with
    | ']' :: rest => if n ≤ limit then some rest else none
    | _ => none

/-- The steps that a text consists of. Each takes a character at least, so the length of the text is
fuel enough. -/
def steps? : Nat → List Char → Option (List Step)
  | _, [] => some []
  | fuel + 1, '.' :: rest =>
    match rest.span isNameChar with
    | ([], _) => none
    | (name, rest) => (steps? fuel rest).map (.key (String.ofList name) :: ·)
  | fuel + 1, '[' :: rest => do
    let rest ← afterIndex? rest
    (steps? fuel rest).map (.index :: ·)
  | _, _ => none

/-- The setting for which a variable is, and the steps into its value. -/
def target? (name : String) : Option (String × List Step) :=
  let cs := name.toList.map lowerCase
  if marker.toList.isPrefixOf cs then
    let (setting, rest) := (cs.drop marker.toList.length).span isNameChar
    (steps? rest.length rest).map fun steps => (String.ofList setting, steps)
  else none

end ProtoWorkspace.Settings
