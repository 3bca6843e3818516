import ProtoWorkspace.Text.Fields
import ProtoWorkspace.Text.Terminal

/-!
# Log records

What the program tells of its work. A record has a level, the part of the program that it comes from
and a message. It is written on a line, and further lines of its message are indented.
-/

namespace ProtoWorkspace.Log

/-- How much a record matters. -/
inductive Level where
  | error
  | warn
  | info
  | debug
  | trace
  deriving DecidableEq

namespace Level

def label : Level → String
  | .error => "ERROR"
  | .warn => "WARN "
  | .info => "INFO "
  | .debug => "DEBUG"
  | .trace => "TRACE"

/-- The more detailed a level is, the higher its number; nothing has the number zero. -/
def detail : Level → Nat
  | .error => 1
  | .warn => 2
  | .info => 3
  | .debug => 4
  | .trace => 5

/-- The numbers of the terminal commands that color a level. -/
def colors : Level → List Nat
  | .error => [1, 31]
  | .warn => [33]
  | .info => [32]
  | .debug => [34]
  | .trace => [36]

end Level

/-- Something that the program tells. -/
structure Record where
  level : Level
  /-- The part of the program that tells it. -/
  origin : String
  message : String
  deriving DecidableEq

/-- How lines are written. -/
inductive Style where
  /-- Without terminal commands, not even those of a message. -/
  | plain
  | colored
  deriving DecidableEq

def Style.paint (style : Style) (colors : List Nat) (s : String) : String :=
  match style with
  | .plain => s
  | .colored =>
    String.join (colors.map fun n => "\x1b[" ++ toString n ++ "m") ++ s ++ "\x1b[0m"

/-- A message of which each line but the first is indented. -/
def indented (message : String) : String :=
  "\n    ".intercalate ((Text.fields '\n' message.toList).map String.ofList)

def Record.line (r : Record) (style : Style) : String :=
  let start := style.paint [90] "["
  let stop := style.paint [90] "]"
  let level := style.paint r.level.colors r.level.label
  let line := start ++ level ++ " " ++ r.origin ++ stop ++ " " ++ indented r.message ++ "\n"
  match style with
  | .plain => Text.plainText line
  | .colored => line

end ProtoWorkspace.Log
