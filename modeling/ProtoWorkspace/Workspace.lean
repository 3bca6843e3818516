import ProtoWorkspace.CommitId
import ProtoWorkspace.Error
import ProtoWorkspace.SystemPath
import ProtoWorkspace.Toml.DateTime.Embedded
import ProtoWorkspace.Toml.Document

/-!
# Workspace descriptors

A workspace file lists the local modules of a workspace: each with the directory it is in, and
perhaps a name, a commit, a description and the paths to which its targets are restricted.
-/

namespace ProtoWorkspace

/-- One module of a workspace. -/
structure WorkspaceModule where
  /-- Its directory, relative to the root of the workspace. -/
  path : SystemPath
  name : Option FullName
  commit : Option String
  description : Option String
  includes : List String
  excludes : List String
  deriving DecidableEq

/-- The modules of a workspace. -/
structure Workspace where
  modules : List WorkspaceModule
  deriving DecidableEq

namespace WorkspaceModule

def commitId (m : WorkspaceModule) : Except DocumentError (Option CommitId) :=
  match m.commit with
  | none => .ok none
  | some text =>
    match CommitId.parse? text with
    | some id => .ok (some id)
    | none => .error (.commit text)

/-- The identifier of the module's directory: its normalized path as it is shown, or `.` for the root. -/
def bucketId (m : WorkspaceModule) : Except DocumentError String :=
  match Path.normalize (Path.join (Path.parts m.path.shown)) with
  | .ok "" => .ok "."
  | .ok place => .ok place
  | .error fault => .error (.path fault)

/-- A commit needs a name and must be an identifier, and the path must stay under the root. -/
def check (m : WorkspaceModule) : Except DocumentError Unit := do
  if m.commit.isSome ∧ m.name.isNone then
    throw (.missingKey ("modules.name for " ++ m.path.shown))
  let _ ← m.commitId
  let _ ← m.bucketId

/-- A module of which some fields have been read. -/
structure Draft where
  path : Option SystemPath := none
  name : Option FullName := none
  commit : Option String := none
  description : Option String := none
  includes : List String := []
  excludes : List String := []

def fieldNames : List String :=
  ["path", "name", "commit", "description", "includes", "excludes"]

/-- Reads one field; fields with other names are passed over. -/
def Draft.set (d : Draft) (field : String × Toml.Value) : Except Toml.Fault Draft := do
  let (name, v) := field
  if name = "path" then
    return { d with path := some (.ofText (← v.toText .table .path)) }
  else if name = "name" then
    return { d with name := some (← v.toFullName .table) }
  else if name = "commit" then
    return { d with commit := some (← v.toText .table .string) }
  else if name = "description" then
    return { d with description := some (← v.toText .table .string) }
  else if name = "includes" then
    return { d with includes := ← v.toElements .table (·.toText .table .string) }
  else if name = "excludes" then
    return { d with excludes := ← v.toElements .table (·.toText .table .string) }
  else return d

def Draft.finish (d : Draft) (missing : Toml.Fault) : Except Toml.Fault WorkspaceModule :=
  match d.path with
  | some path => .ok ⟨path, d.name, d.commit, d.description, d.includes, d.excludes⟩
  | none => .error missing

def recordName : String := "WorkspaceModule"

def ofValue (v : Toml.Value) : Except Toml.Fault WorkspaceModule := do
  match ← v.toFields .table recordName with
  | .named entries =>
    let draft ← entries.foldlM Draft.set {}
    draft.finish (.missingField "path")
  | .positional values =>
    let draft ← (fieldNames.zip values).foldlM Draft.set {}
    draft.finish (.wrongLength 0 (.recordOf recordName fieldNames.length))

/-- The lines of a module, whose path must be a text. -/
def lines (m : WorkspaceModule) : Except Toml.WriteFault String :=
  let optional (key : String) (value : Option String) : String :=
    match value with
    | some s => Toml.writtenLine key (Toml.writtenString s)
    | none => ""
  let list (key : String) (values : List String) : String :=
    if values.isEmpty then "" else Toml.writtenLine key (Toml.writtenStrings values)
  match m.path.text? with
  | none => .error .path
  | some path =>
    .ok (Toml.writtenLine "path" (Toml.writtenString path) ++
      optional "name" (m.name.map FullName.text) ++ optional "commit" m.commit ++
      optional "description" m.description ++ list "includes" m.includes ++
      list "excludes" m.excludes)

end WorkspaceModule

namespace Workspace

/-- The text of a workspace file. -/
def text (w : Workspace) : Except Toml.WriteFault String :=
  Toml.writtenTables "" "modules" <$> w.modules.mapM WorkspaceModule.lines

/-- Decodes the modules of a document; without any the workspace is empty. -/
def ofTable (t : Toml.Table) : Except Toml.Fault Workspace :=
  match t.lookup "modules" with
  | none => .ok ⟨[]⟩
  | some v => Workspace.mk <$> v.toElements .table WorkspaceModule.ofValue

/-- The error for a fault in the modules of a document. Where a table stands for no date-time as it
should, the document counts as no TOML. -/
def misfit (t : Toml.Table) (fault : Toml.Fault) : DocumentError :=
  if (Toml.resolveEntries? t).isSome then .data fault else .notToml

/-- Reads a workspace file: its TOML, its modules, and then what each module must satisfy. -/
def parse (s : String) : Except DocumentError Workspace := do
  match Toml.parse? s with
  | none => throw .notToml
  | some table =>
    let w ← (ofTable table).mapError (misfit table)
    w.modules.forM WorkspaceModule.check
    return w

end Workspace

end ProtoWorkspace
