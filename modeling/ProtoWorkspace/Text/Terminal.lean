/-!
# Text without terminal sequences

A terminal takes the escape character as the start of a command, which ends in a way that depends on
its kind. Here a text is cleared of such commands and of all control characters but tab, line feed,
form feed and carriage return. A blank control character inside of a short command is kept, and what
follows it is taken for text.
-/

namespace ProtoWorkspace.Text

/-- Where a terminal is in its input. -/
inductive TerminalState where
  | text
  /-- Behind an escape character. -/
  | escape
  /-- Behind an escape character and a mark that one more character must follow. -/
  | marked
  /-- In a command with parameters. -/
  | command
  /-- At the start of a command that takes a string. -/
  | deviceStart
  /-- In the parameters of a command that takes a string. -/
  | deviceParameters
  /-- In the marks behind the parameters of a command that takes a string. -/
  | deviceMarks
  /-- In a string that ends with the terminator of strings. -/
  | controlString
  /-- In a string that a bell may end. -/
  | titleString
  deriving DecidableEq

/-- The control characters that are kept: tab, line feed, form feed and carriage return. -/
def isKeptControl (c : Char) : Bool :=
  c == '\t' || c == '\n' || c == '\x0c' || c == '\r'

def isTerminalText (c : Char) : Bool :=
  isKeptControl c || (0x20 ≤ c.toNat && c.toNat != 0x7F)

/-- Whether the terminator of strings is among the bytes of a character. -/
def holdsTerminator (c : Char) : Bool :=
  c.toString.toUTF8.data.contains 0x9C

namespace TerminalState

/-- The state behind an escape character and one more character from `0` on. -/
def ofEscape (c : Char) : TerminalState :=
  if c = '[' then .command
  else if c = ']' then .titleString
  else if c = 'P' then .deviceStart
  else if c = 'X' ∨ c = '^' ∨ c = '_' then .controlString
  else .text

/-- The state behind a character of ASCII that is no control character. -/
def stepPrintable (s : TerminalState) (c : Char) : TerminalState :=
  let isMark := c.toNat < 0x30
  let isParameter := c.toNat < 0x40
  match s with
  | .text => .text
  | .escape => if isMark then .marked else ofEscape c
  | .marked => if isMark then .marked else .text
  | .command => if isParameter then .command else .text
  | .deviceStart =>
    if isMark then .deviceMarks else if isParameter then .deviceParameters else .controlString
  | .deviceParameters =>
    if isMark then .deviceMarks
    else if c.toNat < 0x3C then .deviceParameters
    else .controlString
  | .deviceMarks => if isMark then .deviceMarks else .controlString
  | .controlString => .controlString
  | .titleString => .titleString

/-- Whether control characters count in a state, so that a blank one is kept. -/
def heedsControls : TerminalState → Bool
  | .text | .escape | .marked | .command => true
  | _ => false

/-- The state behind a character, and whether the character is kept. -/
def step (s : TerminalState) (c : Char) : TerminalState × Bool :=
  if c = '\x1b' then (.escape, false)
  else if c = '\x18' ∨ c = '\x1a' then (.text, false)
  else if c.toNat < 0x20 then
    if s = .titleString ∧ c = '\x07' then (.text, false)
    else (s, s.heedsControls && isKeptControl c)
  else if c.toNat = 0x7F then (s, false)
  else if c.toNat < 0x7F then (s.stepPrintable c, s = .text)
  else if s = .text then (.text, true)
  else if s = .controlString ∧ holdsTerminator c then (.text, false)
  else (s, false)

end TerminalState

/-- The characters that are kept. Behind a kept character, `run` tells, text goes on whatever the
state, up to a character that is not kept outside of commands. -/
def withoutCommands (run : Bool) (s : TerminalState) : List Char → List Char
  | [] => []
  | c :: rest =>
    if run && isTerminalText c then
      c :: withoutCommands true (if c.toNat < 0x80 then s else .text) rest
    else
      let (s, kept) := s.step c
      if kept then c :: withoutCommands true s rest else withoutCommands false s rest

def plainText (s : String) : String :=
  String.ofList (withoutCommands false .text s.toList)

theorem withoutCommands_of_isTerminalText {cs : List Char}
    (h : ∀ c ∈ cs, isTerminalText c = true) (s : TerminalState) :
    withoutCommands true s cs = cs := by
  induction cs generalizing s with
  | nil => rfl
  | cons c rest ih =>
    have hc := h c (by simp)
    have := fun s => ih (fun d hd => h d (by simp [hd])) s
    simp [withoutCommands, hc, this]

end ProtoWorkspace.Text
