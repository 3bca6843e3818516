import ProtoWorkspace.CommitId
import ProtoWorkspace.Error
import ProtoWorkspace.Toml.DateTime.Embedded
import ProtoWorkspace.Toml.Document

/-!
# Lock files

A lock file records which commit of a module, and which digest, a workspace uses. It states the
version of its own format, and of these there is one so far.
-/

namespace ProtoWorkspace

/-- A module pinned to a commit. -/
structure LockedModule where
  name : FullName
  commit : String
  digest : Digest
  deriving DecidableEq

/-- The pinned modules of a workspace. -/
structure LockFile where
  modules : List LockedModule
  deriving DecidableEq

namespace LockedModule

/-- A module of which some fields have been read. -/
structure Draft where
  name : Option FullName := none
  commit : Option String := none
  digest : Option Digest := none

def fieldNames : List String :=
  ["name", "commit", "digest"]

def recordName : String := "LockedModule"

/-- Reads one field; fields with other names are passed over. -/
def Draft.set (d : Draft) (field : String × Toml.Value) : Except Toml.Fault Draft := do
  let (name, v) := field
  if name = "name" then
    return { d with name := some (← v.toFullName .string) }
  else if name = "commit" then
    return { d with commit := some (← v.toText .string .string) }
  else if name = "digest" then
    return { d with digest := some (← v.toDigest .string) }
  else return d

/-- The module of a draft; `missing` tells the fault of the field at a position. -/
def Draft.finish (d : Draft) (missing : Nat → String → Toml.Fault) :
    Except Toml.Fault LockedModule :=
  match d.name, d.commit, d.digest with
  | some name, some commit, some digest => .ok ⟨name, commit, digest⟩
  | none, _, _ => .error (missing 0 "name")
  | _, none, _ => .error (missing 1 "commit")
  | _, _, none => .error (missing 2 "digest")

def ofValue (v : Toml.Value) : Except Toml.Fault LockedModule := do
  match ← v.toFields .string recordName with
  | .named entries =>
    let draft ← entries.foldlM Draft.set {}
    draft.finish fun _ name => .missingField name
  | .positional values =>
    let draft ← (fieldNames.zip values).foldlM Draft.set {}
    let module ← draft.finish fun position _ =>
      .wrongLength position (.recordOf recordName fieldNames.length)
    if values.length ≤ fieldNames.length then return module
    else throw (.wrongLength values.length .fewerElements)

def shown (m : LockedModule) : String :=
  "LockedModule \x7b name: " ++ m.name.shown ++ ", commit: " ++ Text.quoted m.commit ++
    ", digest: " ++ m.digest.shown ++ " \x7d"

def lines (m : LockedModule) : String :=
  Toml.writtenLine "name" (Toml.writtenString m.name.text) ++
    Toml.writtenLine "commit" (Toml.writtenString m.commit) ++
    Toml.writtenLine "digest" (Toml.writtenString m.digest.text)

end LockedModule

namespace LockFile

/-- The version of the format. -/
def version : Int := 1

def text (l : LockFile) : String :=
  Toml.writtenTables (Toml.writtenLine "version" (toString version)) "modules"
    (l.modules.map LockedModule.lines)

def shown (l : LockFile) : String :=
  "LockFile \x7b modules: [" ++ ", ".intercalate (l.modules.map LockedModule.shown) ++ "] \x7d"

/-- Decodes the modules of a document; without any the lock file is empty. -/
def ofTable (t : Toml.Table) : Except Toml.Fault LockFile :=
  match t.lookup "modules" with
  | none => .ok ⟨[]⟩
  | some v => LockFile.mk <$> v.toElements .string LockedModule.ofValue

/-- Whether a value states the version that is supported. -/
def isSupported : Toml.Value → Bool
  | .integer i => i == version
  | _ => false

/-- Reads a lock file: its TOML, in which tables may stand for date-times, its version, and then its
modules. -/
def parse (s : String) : Except DocumentError LockFile :=
  match Toml.parse? s >>= Toml.resolveEntries? with
  | none => .error .notToml
  | some table =>
    match table.lookup "version" with
    | none => .error .missingVersion
    | some v =>
      if isSupported v then (ofTable table).mapError .data else .error (.unsupportedVersion v)

end LockFile

end ProtoWorkspace
