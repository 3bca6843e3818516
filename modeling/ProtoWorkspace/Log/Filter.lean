import ProtoWorkspace.Log.Record
import ProtoWorkspace.Text.Blank

/-!
# Log filters

Which records are written. A filter is written as directives between commas: a level for all parts
of the program, or the start of the names of some parts, perhaps with an equals sign and a level. Of
the directives that concern a part the one with the longest start decides. Behind a slash may stand
a text that messages must hold.
-/

namespace ProtoWorkspace.Log

/-- Lets the records of some parts of the program pass up to a level. -/
structure Directive where
  /-- The start of the names of the parts; without one all parts are meant. -/
  origin : Option String
  /-- The number of the most detailed level that passes, or zero. -/
  detail : Nat
  deriving DecidableEq

/-- Which records are written. -/
structure Filter where
  directives : List Directive
  /-- A text that messages must hold. -/
  needle : Option String
  deriving DecidableEq

/-- A part of a written filter that is passed over. -/
inductive Filter.Fault where
  | malformed (text : String)
  /-- More than one slash. -/
  | manySlashes (text : String)
  deriving DecidableEq

def Filter.Fault.message : Filter.Fault → String
  | .malformed text => "invalid logging spec '" ++ text ++ "'"
  | .manySlashes text => "invalid logging spec '" ++ text ++ "' (too many '/'s)"

/-- Reads the number of a level, in any case of its letters. -/
def detail? (cs : List Char) : Option Nat :=
  let name := String.ofList (cs.map Char.toLower)
  ["off", "error", "warn", "info", "debug", "trace"].findIdx? (· == name)

namespace Directive

/-- Reads a directive. A level that is left out is the most detailed one. -/
def parse (cs : List Char) : Except Filter.Fault Directive :=
  let most := Level.trace.detail
  match Text.fields '=' cs with
  | [name] =>
    match detail? name with
    | some detail => .ok ⟨none, detail⟩
    | none => .ok ⟨some (String.ofList name), most⟩
  | [name, level] =>
    let level := Text.trim level
    if level = [] then .ok ⟨some (String.ofList name), most⟩
    else
      match detail? level with
      | some detail => .ok ⟨some (String.ofList name), detail⟩
      | none => .error (.malformed (String.ofList level))
  | _ => .error (.malformed (String.ofList cs))

/-- The length of the start of the names that a directive gives. -/
def length (d : Directive) : Nat :=
  (d.origin.map String.utf8ByteSize).getD 0

/-- Whether a directive is meant for a part of the program. -/
def concerns (d : Directive) (origin : String) : Bool :=
  d.origin.all fun start => start.toList.isPrefixOf origin.toList

/-- Puts a directive among others, in the place of one for the same parts if there is one. -/
def insert (d : Directive) (ds : List Directive) : List Directive :=
  if ds.any (·.origin == d.origin) then ds.map fun old => if old.origin = d.origin then d else old
  else ds ++ [d]

end Directive

namespace Filter

/-- Reads the directives between commas, and gives those that can be read and the faults of the
others. -/
def directivesOf (cs : List Char) : List Directive × List Fault :=
  let parts := ((Text.fields ',' cs).map Text.trim).filter (· ≠ [])
  parts.foldl (fun (ds, faults) part =>
    match Directive.parse part with
    | .ok d => (d.insert ds, faults)
    | .error fault => (ds, faults ++ [fault])) ([], [])

/-- Reads a filter, and gives the faults of what is passed over. -/
def parse (text : String) : Filter × List Fault :=
  match Text.fields '/' text.toList with
  | [directives] =>
    let (ds, faults) := directivesOf directives
    (⟨ds, none⟩, faults)
  | [directives, needle] =>
    let (ds, faults) := directivesOf directives
    (⟨ds, some (String.ofList needle)⟩, faults)
  | _ => (⟨[], none⟩, [.manySlashes text])

/-- The number of the most detailed level that passes for a part of the program. Without any
directive errors pass; of several directives of one length the last counts. -/
def detailOf (f : Filter) (origin : String) : Nat :=
  if f.directives = [] then Level.error.detail
  else
    let sorted := f.directives.mergeSort fun a b => decide (a.length ≤ b.length)
    ((sorted.reverse.find? (·.concerns origin)).map Directive.detail).getD 0

def holds (needle : List Char) : List Char → Bool
  | [] => needle.isEmpty
  | c :: rest => needle.isPrefixOf (c :: rest) || holds needle rest

/-- Whether a record is written. -/
def passes (f : Filter) (r : Record) : Bool :=
  decide (r.level.detail ≤ f.detailOf r.origin) &&
    f.needle.all fun needle => holds needle.toList r.message.toList

end Filter

/-- How the records of a run are written. -/
structure Options where
  filter : Filter
  style : Style
  /-- The parts of the written filter that were passed over. -/
  faults : List Filter.Fault

namespace Options

/-- Whether a variable is set to anything at all. -/
def isSet (env : List (String × String)) (name : String) : Bool :=
  (env.lookup name).any (· != "")

/-- The style that an environment asks for. By itself a style is plain; the common variables that
forbid and force colors are heeded, whatever their value is. -/
def styleOf (env : List (String × String)) : Style :=
  match env.lookup "RUST_LOG_STYLE" with
  | some "always" => .colored
  | some "never" => .plain
  | _ =>
    if !isSet env "NO_COLOR" && isSet env "CLICOLOR_FORCE" then .colored else .plain

/-- The options in an environment. Where it has no filter, all but details pass. -/
def load (env : List (String × String)) : Options :=
  let (filter, faults) := Filter.parse ((env.lookup "RUST_LOG").getD "info")
  ⟨filter, styleOf env, faults⟩

def text (o : Options) (records : List Record) : String :=
  let warnings := o.faults.map fun fault => "warning: " ++ fault.message ++ ", ignoring it\n"
  let lines := (records.filter o.filter.passes).map (·.line o.style)
  String.join (warnings ++ lines)

end Options

end ProtoWorkspace.Log
