import ProtoWorkspace.CommandLine.Options
import ProtoWorkspace.Digest

/-!
# The command line of the program

Three commands work on a workspace: `digest`, `deps` and `lock`. In front of the command stand the
options that tell where the workspace is.
-/

namespace ProtoWorkspace.CommandLine

/-- What is to be done. -/
inductive Command where
  /-- Print the digests of the targets. -/
  | digest (type : Option DigestType) (targets : List String)
  /-- List the dependencies of a module. -/
  | deps (module : String) (isDirect : Bool)
  /-- Bring the lock file up to date, or only check it. -/
  | lock (isLocked : Bool)
  deriving DecidableEq

/-- A command and where its workspace is. -/
structure Invocation where
  root : String
  workspaceFile : Option String
  lockFile : Option String
  command : Command
  deriving DecidableEq

/-- The options in front of the command. -/
structure Location where
  root : Option String := none
  workspaceFile : Option String := none
  lockFile : Option String := none
  deriving DecidableEq

/-- Reads the value of an option that may be given once and must not be empty. -/
def pathSetter {σ : Type} (get : σ → Option String) (set : String → σ → σ) : Setter σ :=
  fun value o =>
    if (get o).isSome then .error .repeated
    else if value = "" then .error .valueMissing
    else .ok (set value o)

def switchOn {σ : Type} (get : σ → Bool) (set : σ → σ) : Effect σ :=
  .switch fun o => if get o then .error .repeated else .ok (set o)

namespace Location

def rootOption : Effect Location :=
  .valued (pathSetter Location.root fun path o => { o with root := some path })

def workspaceOption : Effect Location :=
  .valued (pathSetter Location.workspaceFile fun path o => { o with workspaceFile := some path })

def lockOption : Effect Location :=
  .valued (pathSetter Location.lockFile fun path o => { o with lockFile := some path })

def commands : List String :=
  ["digest", "deps", "lock", "help"]

def grammar : Grammar Location where
  letter
    | 'r' => some rootOption
    | 'w' => some workspaceOption
    | 'l' => some lockOption
    | 'h' => some .help
    | 'V' => some .version
    | _ => none
  word
    | "root" => some rootOption
    | "workspace-location" => some workspaceOption
    | "lockfile-location" => some lockOption
    | "help" => some .help
    | "version" => some .version
    | _ => none
  operands := []
  commands := commands

end Location

/-- The options of `digest`. -/
structure DigestOptions where
  type : Option DigestType := none
  targets : List String := []

namespace DigestOptions

def typeOption : Effect DigestOptions :=
  .valued fun value o =>
    if o.type.isSome then .error .repeated
    else
      match DigestType.parse? value.toList with
      | some type => .ok { o with type := some type }
      | none => .error .valueMalformed

def targetOption : Effect DigestOptions :=
  .valued fun value o => .ok { o with targets := o.targets ++ [value] }

def grammar : Grammar DigestOptions where
  letter
    | 'd' => some typeOption
    | 't' => some targetOption
    | 'h' => some .help
    | _ => none
  word
    | "digest-type" => some typeOption
    | "target" => some targetOption
    | "help" => some .help
    | _ => none
  operands := []
  commands := []

end DigestOptions

/-- The options of `deps`. -/
structure DepsOptions where
  module : Option String := none
  isDirect : Bool := false

def DepsOptions.grammar : Grammar DepsOptions where
  letter
    | 'h' => some .help
    | _ => none
  word
    | "direct" => some (switchOn DepsOptions.isDirect fun o => { o with isDirect := true })
    | "help" => some .help
    | _ => none
  operands := [fun value o => .ok { o with module := some value }]
  commands := []

/-- The options of `lock`. -/
structure LockOptions where
  isLocked : Bool := false

def LockOptions.grammar : Grammar LockOptions where
  letter
    | 'h' => some .help
    | _ => none
  word
    | "locked" => some (switchOn LockOptions.isLocked fun o => { o with isLocked := true })
    | "help" => some .help
    | _ => none
  operands := []
  commands := []

/-- The outcome of `help` with the given words: help on a command, or on no known one. -/
def helpOn : List String → Fault
  | [] => .helpWanted
  | [name] => if name ∈ Location.commands then .helpWanted else .commandUnknown
  | _ => .commandUnknown

def Command.read (name : String) (words : List String) : Except Fault Command :=
  if name = "digest" then do
    let o ← DigestOptions.grammar.read {} words
    return .digest o.type o.targets
  else if name = "deps" then do
    let o ← DepsOptions.grammar.read {} words
    match o.module with
    | some module => return .deps module o.isDirect
    | none => throw .operandMissing
  else if name = "lock" then do
    let o ← LockOptions.grammar.read {} words
    return .lock o.isLocked
  else .error (helpOn words)

/-- Reads a command line without the name of the program. -/
def Invocation.read (words : List String) : Except Fault Invocation := do
  let (p, command) ← Progress.takeAll Location.grammar { options := {}, operands := [] } words
  match command with
  | none =>
    let p ← p.settle
    throw (if p.options = {} then .nothingGiven else .commandMissing)
  | some (name, words) =>
    let command ← Command.read name words
    let o := (← p.settle).options
    return ⟨o.root.getD ".", o.workspaceFile, o.lockFile, command⟩

def Fault.status : Fault → Nat
  | .helpWanted | .versionWanted => 0
  | _ => 2

end ProtoWorkspace.CommandLine
