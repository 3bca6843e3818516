import ProtoWorkspace.Digest
import ProtoWorkspace.Settings.Variable

/-!
# Settings

Three settings come from the environment: the digest type, the name of the workspace file and the
name of the lock file. Each has a default. A setting is a text; for the digest type a table with one
key stands for that key.
-/

namespace ProtoWorkspace

/-- The settings of the program. -/
structure Settings where
  digestType : DigestType := .b5
  workspaceFile : String := "protomodule.toml"
  lockFile : String := "protomodule.lock"
  deriving DecidableEq

namespace Settings

/-- What the environment makes of a setting. -/
inductive Given where
  | text (s : String)
  | table (keys : List String)
  | array
  deriving DecidableEq

/-- Why a setting is not accepted. -/
inductive Fault where
  /-- The value does not name a digest type in exactly its lower-case spelling. -/
  | unknownDigestType (value : String)
  /-- What should name a digest type is neither a text nor a table with one key. -/
  | unnamedDigestType
  /-- What should be a text is a table or an array. -/
  | notText (setting found : String)
  deriving DecidableEq

def Fault.message : Fault → String
  | .unknownDigestType value =>
    "enum DigestType does not have variant constructor " ++ value ++ " for key " ++
      Text.cited "digest_type"
  | .unnamedDigestType =>
    "value of enum DigestType should be represented by either string or table with exactly one " ++
      "key for key " ++ Text.cited "digest_type"
  | .notText setting found =>
    "invalid type: " ++ found ++ ", expected a string for key " ++ Text.cited setting

/-- What a variable makes of a setting: its value is the setting, or an entry of the table or array
that the setting then is. -/
def Given.put (old : Option Given) (steps : List Step) (value : String) : Given :=
  match steps with
  | [] => .text value
  | .index :: _ => .array
  | .key name :: _ =>
    match old with
    | some (.table keys) => .table (name :: keys.filter (· ≠ name))
    | _ => .table [name]

/-- What the variables make of a setting, one after the other. -/
def given (env : List (String × String)) (setting : String) : Option Given :=
  env.foldl (fun old (name, value) =>
    match target? name with
    | some (s, steps) => if s = setting then some (.put old steps value) else old
    | none => old) none

def digestTypeNamed (name : String) : Except Fault DigestType :=
  if name = DigestType.b4.text then .ok .b4
  else if name = DigestType.b5.text then .ok .b5
  else .error (.unknownDigestType name)

def loadDigestType (env : List (String × String)) : Except Fault DigestType :=
  match given env "digest_type" with
  | none => .ok .b5
  | some (.text name) => digestTypeNamed name
  | some (.table [name]) => digestTypeNamed name
  | some _ => .error .unnamedDigestType

def loadText (env : List (String × String)) (setting default : String) : Except Fault String :=
  match given env setting with
  | none => .ok default
  | some (.text s) => .ok s
  | some (.table _) => .error (.notText setting "map")
  | some .array => .error (.notText setting "sequence")

def load (env : List (String × String)) : Except Fault Settings := do
  let digestType ← loadDigestType env
  let workspaceFile ← loadText env "workspace_file" "protomodule.toml"
  let lockFile ← loadText env "lock_file" "protomodule.lock"
  return ⟨digestType, workspaceFile, lockFile⟩

end Settings

end ProtoWorkspace
