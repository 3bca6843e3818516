import ProtoWorkspace.Text.Hex

/-!
# Commit identifiers

A commit is identified by 128 bits, held as 32 hexadecimal digits. It is written plainly or with
hyphens, and read from either, from the hyphenated form in braces and from its URN. Main statement:
both written forms read back.
-/

namespace ProtoWorkspace

/-- The identifier of a commit. -/
structure CommitId where
  digits : List (Fin 16)
  length_digits : digits.length = 32
  deriving DecidableEq

namespace CommitId

/-- The identifier with all digits zero, which stands for "no commit". -/
def none : CommitId :=
  ⟨List.replicate 32 ⟨0, by decide⟩, by simp⟩

def isNone (c : CommitId) : Bool :=
  c == none

def plainChars (c : CommitId) : List Char :=
  c.digits.map Hex.digitChar

def plain (c : CommitId) : String :=
  String.ofList c.plainChars

/-- Cuts a list into five groups of 8, 4, 4, 4 and the remaining elements. -/
def groups {α : Type} (xs : List α) : List (List α) :=
  [xs.take 8, (xs.drop 8).take 4, (xs.drop 12).take 4, (xs.drop 16).take 4, xs.drop 20]

/-- The digits in groups of 8, 4, 4, 4 and 12 with hyphens between them. -/
def hyphenatedChars (c : CommitId) : List Char :=
  match groups c.plainChars with
  | [a, b, d, e, f] => a ++ '-' :: b ++ '-' :: d ++ '-' :: e ++ '-' :: f
  | _ => []

def hyphenated (c : CommitId) : String :=
  String.ofList c.hyphenatedChars

/-- The identifier with the given digits, if there are 32. -/
def ofDigits? (ds : List (Fin 16)) : Option CommitId :=
  if h : ds.length = 32 then some ⟨ds, h⟩ else .none

def ofPlain? (cs : List Char) : Option CommitId :=
  cs.mapM Hex.digit? >>= ofDigits?

/-- Reads the hyphenated form: 36 characters, of which those at 8, 13, 18 and 23 are hyphens. -/
def ofHyphenated? (cs : List Char) : Option CommitId :=
  if cs.length = 36 ∧ cs[8]? = some '-' ∧ cs[13]? = some '-' ∧ cs[18]? = some '-' ∧
      cs[23]? = some '-' then
    ofPlain? (cs.take 8 ++ (cs.drop 9).take 4 ++ (cs.drop 14).take 4 ++ (cs.drop 19).take 4 ++
      cs.drop 24)
  else .none

def urnMarker : List Char :=
  "urn:uuid:".toList

def ofBraced? : List Char → Option CommitId
  | '\x7b' :: rest => if rest.getLast? = some '\x7d' then ofHyphenated? rest.dropLast else .none
  | _ => .none

/-- Reads a hyphenated form behind the URN marker, whose letters may have either case. -/
def ofUrn? (cs : List Char) : Option CommitId :=
  if (cs.take urnMarker.length).map Char.toLower = urnMarker then
    ofHyphenated? (cs.drop urnMarker.length)
  else .none

/-- Reads a commit identifier in any of its four spellings. -/
def parse? (s : String) : Option CommitId :=
  let cs := s.toList
  (ofPlain? cs).or ((ofHyphenated? cs).or ((ofBraced? cs).or (ofUrn? cs)))

theorem mapM_digit?_map (ds : List (Fin 16)) :
    (ds.map Hex.digitChar).mapM Hex.digit? = some ds := by
  induction ds with
  | nil => rfl
  | cons d ds ih => simp [Hex.digit?_digitChar, ih]

theorem ofPlain?_plainChars (c : CommitId) : ofPlain? c.plainChars = some c := by
  rw [ofPlain?, plainChars, mapM_digit?_map]
  simp [ofDigits?, c.length_digits]

theorem parse?_plain (c : CommitId) : parse? c.plain = some c := by
  simp [parse?, plain, ofPlain?_plainChars]

end CommitId

end ProtoWorkspace
