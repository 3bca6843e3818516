import ProtoWorkspace.Text.Hex
import ProtoWorkspace.Toml.Value

/-!
# Reading TOML scalars

Readers of strings, numbers, date-times and keys. A reader takes what it reads from the front of
the text and leaves the rest; it gives `none` where the text does not start with what it reads. The
lines of the text are taken to end with a line feed alone.
-/

namespace ProtoWorkspace.Toml

/-- Takes a value from the front of a text. -/
abbrev Reader (α : Type) := List Char → Option (α × List Char)

def isLineBlank (c : Char) : Bool :=
  c == ' ' || c == '\t'

def skipBlanks (cs : List Char) : List Char :=
  cs.dropWhile isLineBlank

/-- Whether a character may stand in comments and, quotes and backslashes apart, in strings: any but
the control characters of ASCII, of which tab is allowed. -/
def isPlain (c : Char) : Bool :=
  c == '\t' || (0x20 ≤ c.toNat && c.toNat != 0x7F)

/-! ## Strings -/

/-- The character that a letter stands for behind a backslash. -/
def simpleEscape? (c : Char) : Option Char :=
  if c = 'b' then some '\x08'
  else if c = 't' then some '\t'
  else if c = 'n' then some '\n'
  else if c = 'f' then some '\x0c'
  else if c = 'r' then some '\r'
  else if c = '\"' then some '\"'
  else if c = '\\' then some '\\'
  else none

/-- The character whose number is written in hexadecimal digits. -/
def numberedChar? (digits : List Char) : Option Char := do
  let ds ← digits.mapM Hex.digit?
  let n := ds.foldl (fun n d => 16 * n + d.val) 0
  if n < 0xD800 ∨ (0xDFFF < n ∧ n < 0x110000) then some (Char.ofNat n) else none

def consChar (c : Char) : Option (List Char × List Char) → Option (List Char × List Char) :=
  Option.map fun (body, rest) => (c :: body, rest)

/-- Where a reader stands in a basic string: in its text, behind a backslash that must end the line,
or behind such a line end, where blanks and further line feeds are dropped. -/
inductive Margin where
  | text
  | lineEnd
  | indent
  deriving DecidableEq

/-- The quotes that belong to the text where three or more quotes end it: up to two more. -/
def closingQuotes (q : Char) : List Char → List Char × List Char
  | a :: b :: rest =>
    if a = q then if b = q then ([q, q], rest) else ([q], b :: rest) else ([], a :: b :: rest)
  | [a] => if a = q then ([q], []) else ([], [a])
  | [] => ([], [])

/-- The body of a basic string on one line, up to and without its closing quote. -/
def basicLine : Reader (List Char)
  | '\"' :: rest => some ([], rest)
  | '\\' :: 'u' :: a :: b :: c :: d :: rest =>
    (numberedChar? [a, b, c, d]).bind fun x => consChar x (basicLine rest)
  | '\\' :: 'U' :: a :: b :: c :: d :: e :: f :: g :: h :: rest =>
    (numberedChar? [a, b, c, d, e, f, g, h]).bind fun x => consChar x (basicLine rest)
  | '\\' :: e :: rest => (simpleEscape? e).bind fun x => consChar x (basicLine rest)
  | c :: rest => if isPlain c ∧ c ≠ '\\' then consChar c (basicLine rest) else none
  | [] => none

/-- The body of a basic string on several lines, up to and without its closing quotes. -/
def basicLines : Margin → Reader (List Char)
  | .lineEnd, c :: rest =>
    if isLineBlank c then basicLines .lineEnd rest
    else if c = '\n' then basicLines .indent rest
    else none
  | _, '\"' :: '\"' :: '\"' :: rest => some (closingQuotes '\"' rest)
  | _, '\\' :: 'u' :: a :: b :: c :: d :: rest =>
    (numberedChar? [a, b, c, d]).bind fun x => consChar x (basicLines .text rest)
  | _, '\\' :: 'U' :: a :: b :: c :: d :: e :: f :: g :: h :: rest =>
    (numberedChar? [a, b, c, d, e, f, g, h]).bind fun x => consChar x (basicLines .text rest)
  | _, '\\' :: e :: rest =>
    if isLineBlank e then basicLines .lineEnd rest
    else if e = '\n' then basicLines .indent rest
    else (simpleEscape? e).bind fun x => consChar x (basicLines .text rest)
  | margin, c :: rest =>
    if margin = .indent ∧ (isLineBlank c ∨ c = '\n') then basicLines .indent rest
    else if c = '\n' ∨ (isPlain c ∧ c ≠ '\\') then consChar c (basicLines .text rest)
    else none
  | _, [] => none

/-- The body of a literal string on one line, up to and without its closing quote. -/
def literalLine : Reader (List Char)
  | '\'' :: rest => some ([], rest)
  | c :: rest => if isPlain c then consChar c (literalLine rest) else none
  | [] => none

/-- The body of a literal string on several lines, up to and without its closing quotes. -/
def literalLines : Reader (List Char)
  | '\'' :: '\'' :: '\'' :: rest => some (closingQuotes '\'' rest)
  | c :: rest => if c = '\n' ∨ isPlain c then consChar c (literalLines rest) else none
  | [] => none

/-- The text behind the opening quotes without the line feed that may follow them. -/
def skipOpeningBreak : List Char → List Char
  | '\n' :: rest => rest
  | cs => cs

def stringValue : Reader String := fun cs =>
  let body : Option (List Char × List Char) :=
    match cs with
    | '\"' :: '\"' :: '\"' :: rest => basicLines .text (skipOpeningBreak rest)
    | '\"' :: rest => basicLine rest
    | '\'' :: '\'' :: '\'' :: rest => literalLines (skipOpeningBreak rest)
    | '\'' :: rest => literalLine rest
    | _ => none
  body.map fun (body, rest) => (String.ofList body, rest)

/-! ## Keys -/

/-- Letters, digits, underscores and hyphens. -/
def isKeyChar (c : Char) : Bool :=
  c.isAlphanum || c == '_' || c == '-'

def keyPart : Reader String
  | '\"' :: rest => (basicLine rest).map fun (body, rest) => (String.ofList body, rest)
  | '\'' :: rest => (literalLine rest).map fun (body, rest) => (String.ofList body, rest)
  | cs =>
    match cs.span isKeyChar with
    | ([], _) => none
    | (part, rest) => some (String.ofList part, rest)

/-- At most the given number of parts of a key behind the first one, each after a dot. -/
def moreKeyParts : Nat → Reader (List String)
  | 0, cs => some ([], cs)
  | most + 1, cs =>
    match skipBlanks cs with
    | '.' :: rest => do
      let (part, rest) ← keyPart (skipBlanks rest)
      let (parts, rest) ← moreKeyParts most rest
      some (part :: parts, rest)
    | cs => some ([], cs)

/-- The nesting of values and the number of parts of a key stay below this limit. -/
def depthLimit : Nat := 80

/-- A key of one or more parts with dots between them and blanks around each. -/
def key : Reader (List String) := fun cs => do
  let (part, rest) ← keyPart (skipBlanks cs)
  let (parts, rest) ← moreKeyParts depthLimit rest
  if parts.length + 1 < depthLimit then some (part :: parts, rest) else none

/-! ## Numbers -/

def digitsValue (base : Nat) (ds : List (Fin 16)) : Nat :=
  ds.foldl (fun n d => base * n + d.val) 0

def digitBelow? (base : Nat) (c : Char) : Option (Fin 16) :=
  (Hex.digit? c).bind fun d => if d.val < base then some d else none

def moreDigits (base : Nat) : List Char → List (Fin 16) × List Char
  | '_' :: c :: rest =>
    match digitBelow? base c with
    | some d => let (ds, rest) := moreDigits base rest; (d :: ds, rest)
    | none => ([], '_' :: c :: rest)
  | c :: rest =>
    match digitBelow? base c with
    | some d => let (ds, rest) := moreDigits base rest; (d :: ds, rest)
    | none => ([], c :: rest)
  | [] => ([], [])

/-- One or more digits with single underscores between them. -/
def digits (base : Nat) : Reader (List (Fin 16))
  | c :: rest =>
    (digitBelow? base c).map fun d => let (ds, rest) := moreDigits base rest; (d :: ds, rest)
  | [] => none

/-- An optional sign: whether it is a minus, and the text behind it. -/
def sign : List Char → Bool × List Char
  | '-' :: rest => (true, rest)
  | '+' :: rest => (false, rest)
  | cs => (false, cs)

/-- Decimal digits without a leading zero, or a single zero. -/
def decimalDigits : Reader (List (Fin 16))
  | '0' :: rest => (Hex.digit? '0').map fun d => ([d], rest)
  | cs => digits 10 cs

def fitsWord (i : Int) : Bool :=
  -9223372036854775808 ≤ i && i ≤ 9223372036854775807

/-- An integer in base ten with an optional sign, or in base sixteen, eight or two. -/
def integer : Reader Int := fun cs => do
  let (i, rest) ←
    match cs with
    | '0' :: 'x' :: rest => (digits 16 rest).map fun (ds, rest) => ((digitsValue 16 ds : Int), rest)
    | '0' :: 'o' :: rest => (digits 8 rest).map fun (ds, rest) => ((digitsValue 8 ds : Int), rest)
    | '0' :: 'b' :: rest => (digits 2 rest).map fun (ds, rest) => ((digitsValue 2 ds : Int), rest)
    | _ =>
      let (negative, rest) := sign cs
      (decimalDigits rest).map fun (ds, rest) =>
        let n : Int := digitsValue 10 ds
        (if negative then -n else n, rest)
  if fitsWord i then some (i, rest) else none

def fraction : Reader (List (Fin 16))
  | '.' :: rest => digits 10 rest
  | _ => none

/-- A power of ten behind `e` or `E`. -/
def exponent : Reader Int
  | c :: rest =>
    if c = 'e' ∨ c = 'E' then
      let (negative, rest) := sign rest
      (digits 10 rest).map fun (ds, rest) =>
        let n : Int := digitsValue 10 ds
        (if negative then -n else n, rest)
    else none
  | [] => none

/-- The number `± mantissa * 10 ^ exponent`, rounded to the nearest floating-point number. Beyond
the range of those numbers the power is cut off, which changes nothing. -/
def floatOf (negative : Bool) (mantissa : Nat) (length : Nat) (exponent : Int) : Float :=
  let x :=
    if mantissa = 0 ∨ (length : Int) + exponent < -400 then 0.0
    else if exponent > 400 then 1.0 / 0.0
    else Float.ofScientific mantissa (exponent < 0) exponent.natAbs
  if negative then -x else x

/-- A number with a fraction, an exponent or both; too large a positive number is refused. -/
def decimalFloat : Reader Float := fun cs => do
  let (negative, rest) := sign cs
  let (whole, rest) ← decimalDigits rest
  let (places, power, rest) ←
    match fraction rest with
    | some (places, rest) =>
      match exponent rest with
      | some (power, rest) => some (places, power, rest)
      | none => some (places, 0, rest)
    | none => (exponent rest).map fun (power, rest) => ([], power, rest)
  let ds := whole ++ places
  let x := floatOf negative (digitsValue 10 ds) ds.length (power - places.length)
  if x == 1.0 / 0.0 then none else some (x, rest)

def specialFloat : Reader Float := fun cs =>
  let (negative, rest) := sign cs
  match rest with
  | 'i' :: 'n' :: 'f' :: rest => some (if negative then -(1.0 / 0.0) else 1.0 / 0.0, rest)
  | 'n' :: 'a' :: 'n' :: rest => some (0.0 / 0.0, rest)
  | _ => none

/-! ## Dates and times -/

def fixedDigits (n : Nat) : Reader Nat := fun cs => do
  let ds ← (cs.take n).mapM (digitBelow? 10)
  if ds.length = n then some (digitsValue 10 ds, cs.drop n) else none

/-- Exactly `n` decimal digits of a number between two bounds. -/
def boundedDigits (n low high : Nat) : Reader Nat := fun cs => do
  let (x, rest) ← fixedDigits n cs
  if low ≤ x ∧ x ≤ high then some (x, rest) else none

def mark (c : Char) : Reader Unit
  | d :: rest => if d = c then some ((), rest) else none
  | [] => none

def date : Reader Date := fun cs => do
  let (year, rest) ← fixedDigits 4 cs
  let (_, rest) ← mark '-' rest
  let (month, rest) ← boundedDigits 2 1 12 rest
  let (_, rest) ← mark '-' rest
  let (day, rest) ← boundedDigits 2 1 (daysInMonth year month) rest
  some (⟨year, month, day⟩, rest)

/-- A fraction of a second in nanoseconds; digits beyond the ninth are cut off. -/
def nanoseconds : List Char → Option (Nat × List Char)
  | '.' :: rest =>
    match rest.span Char.isDigit with
    | ([], _) => none
    | (ds, rest) =>
      let ds := ds.take 9
      (ds.mapM Hex.digit?).map fun ds => (digitsValue 10 ds * Nat.pow 10 (9 - ds.length), rest)
  | cs => some (0, cs)

/-- A time of day; second 60 is a leap second. A point that no digit follows is left over. -/
def time : Reader Time := fun cs => do
  let (hour, rest) ← boundedDigits 2 0 23 cs
  let (_, rest) ← mark ':' rest
  let (minute, rest) ← boundedDigits 2 0 59 rest
  let (_, rest) ← mark ':' rest
  let (second, rest) ← boundedDigits 2 0 60 rest
  let (nanosecond, rest) := (nanoseconds rest).getD (0, rest)
  some (⟨hour, minute, second, nanosecond⟩, rest)

def offset : Reader Offset
  | c :: rest =>
    if c = 'Z' ∨ c = 'z' then some (.universal, rest)
    else if c = '+' ∨ c = '-' then do
      let (hours, rest) ← boundedDigits 2 0 23 rest
      let (_, rest) ← mark ':' rest
      let (minutes, rest) ← boundedDigits 2 0 59 rest
      let east : Int := hours * 60 + minutes
      some (.minutes (if c = '-' then -east else east), rest)
    else none
  | [] => none

/-- The time behind a date, after a `T` or a space. -/
def timeBehind : Reader Time
  | c :: rest => if c = 'T' ∨ c = 't' ∨ c = ' ' then time rest else none
  | [] => none

def dateTime : Reader DateTime := fun cs =>
  match date cs with
  | some (d, rest) =>
    match timeBehind rest with
    | some (t, rest) =>
      match offset rest with
      | some (o, rest) => some (.dateTime d t (some o), rest)
      | none => some (.dateTime d t none, rest)
    | none => some (.date d, rest)
  | none => (time cs).map fun (t, rest) => (.time t, rest)

/-! ## Scalars -/

def word (w : List Char) : Reader Unit := fun cs =>
  if w.isPrefixOf cs then some ((), cs.drop w.length) else none

/-- A value that is neither array nor table. Date-times are tried before numbers and floating-point
numbers before integers. -/
def scalar : Reader Value := fun cs =>
  match stringValue cs with
  | some (s, rest) => some (.string s, rest)
  | none =>
    match dateTime cs with
    | some (d, rest) => some (.dateTime d, rest)
    | none =>
      match (decimalFloat cs).or (specialFloat cs) with
      | some (x, rest) => some (.float x, rest)
      | none =>
        match integer cs with
        | some (i, rest) => some (.integer i, rest)
        | none =>
          match word "true".toList cs with
          | some (_, rest) => some (.boolean true, rest)
          | none => (word "false".toList cs).map fun (_, rest) => (.boolean false, rest)

end ProtoWorkspace.Toml
