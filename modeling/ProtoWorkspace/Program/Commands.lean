import ProtoWorkspace.LockFile.Keys
import ProtoWorkspace.Session
import ProtoWorkspace.Workspace

/-!
# The commands

What the commands of the program do in a session: load the workspace, compute the digests of its
targets, list the dependencies of a module, bring the lock file up to date.
-/

namespace ProtoWorkspace

/-- Why a command fails. -/
inductive CommandError where
  | module (error : Error)
  | document (error : DocumentError)
  | unknownModule (reference : String)
  | outdatedLock (path : String)
  | unwritable (fault : Disk.Fault)

def CommandError.message : CommandError → String
  | .module error => error.message
  | .document error => error.message
  | .unknownModule reference => "Module " ++ reference ++ " is not part of the workspace"
  | .outdatedLock path => "Lock file " ++ path ++ " is out of date"
  | .unwritable fault => fault.message

/-- Something a command does in a session. -/
abbrev CommandM := ExceptT CommandError (StateM Session)

namespace Commands

/-- Does something that may fail with an error of a module. -/
def onModules {α : Type} (x : SessionM α) : CommandM α :=
  ExceptT.adapt CommandError.module x

/-- Does something that may fail with the error of a document. -/
def onDocument {α : Type} (x : Except DocumentError α) : CommandM α :=
  MonadExcept.ofExcept (x.mapError CommandError.document)

def tell (level : Log.Level) (message : String) : CommandM Unit :=
  onModules (Session.note (.told ⟨level, "protomodule::cli::command_handlers", message⟩))

def readText (disk : Disk) (path : String) : Except DocumentError String :=
  match disk.read path with
  | .error fault => .error (.unreadable fault.message)
  | .ok data =>
    match String.fromUTF8? data with
    | some text => .ok text
    | none => .error (.unreadable "stream did not contain valid UTF-8")

def readWorkspace (disk : Disk) (path : String) : Except DocumentError Workspace :=
  readText disk path >>= Workspace.parse

def readLock (disk : Disk) (path : String) : Except DocumentError LockFile :=
  readText disk path >>= LockFile.parse

/-- A configuration file of a module, which need not be there. -/
def objectOf (folder name : String) : Supply (Option ObjectData) :=
  .deferred fun disk =>
    let path := Path.under folder name
    match disk.read path with
    | .ok data => .ok (some ⟨name, data⟩)
    | .error .notFound => .ok none
    | .error fault => .error (fault.toError path)

/-- A module of a workspace as an addition: a target with the files of its directory. The path of the
directory came from a workspace file, so it is shown as it is. -/
def additionOf (root : String) (x : WorkspaceModule) : Except DocumentError Addition := do
  let folder := Path.under root x.path.shown
  let commit ← x.commitId
  let bucketId ← x.bucketId
  return .ofLocal (Bucket.folder folder) bucketId {
    description := x.description
    name := x.name
    commit := commit
    isTarget := true
    includes := x.includes
    excludes := x.excludes
    yaml := objectOf folder "buf.yaml"
    lock := objectOf folder "buf.lock" }

/-- The set of the modules that a workspace file lists. -/
def loadModules (root file : String) : CommandM ModuleSet := do
  let workspace ← onDocument (readWorkspace (← get).disk (Path.under root file))
  tell .debug ("Loaded workspace with " ++ toString workspace.modules.length ++ " modules")
  let additions ← onDocument (workspace.modules.mapM (additionOf root))
  onModules (Session.build .standard additions)

/-- The module that is meant by an identity or a directory. -/
def resolve (set : ModuleSet) (reference : String) : CommandM Module :=
  match (set.find? reference).or (set.findBucket? reference) with
  | some x => return x
  | none => throw (.unknownModule reference)

/-- What comes of something, be it a value or an error. -/
def attempt {α : Type} (x : SessionM α) : SessionM (Except Error α) :=
  tryCatch (Except.ok <$> x) fun e => return .error e

/-- The set with the modules that are meant as targets; with no references, the set itself. -/
def selectTargets (set : ModuleSet) (references : List String) : CommandM ModuleSet :=
  if references.isEmpty then return set
  else do
    let modules ← references.mapM (resolve set)
    onModules (Session.retarget set (modules.map Module.identity))

/-- The digests of the targets with their labels, in the order of the set. All are computed, then
the first error counts. -/
def digests (set : ModuleSet) (type : DigestType) (references : List String) :
    CommandM (List (String × Digest)) := do
  let set ← selectTargets set references
  onModules do
    let results ← set.targets.mapM fun x => do
      return (x.description, ← attempt (set.digest Session.access x type))
    results.mapM fun (description, result) => do
      return (description, ← MonadExcept.ofExcept result)

def digestLines (digests : List (String × Digest)) : String :=
  String.join (digests.map fun (description, d) => d.text ++ " " ++ description ++ "\n")

/-- The dependencies of a module, perhaps only the direct ones. -/
def dependencies (set : ModuleSet) (reference : String) (isDirect : Bool) :
    CommandM (List Dependency) := do
  let x ← resolve set reference
  let all ← onModules (set.dependencies Session.access x)
  return all.filter fun d => d.isDirect || !isDirect

def dependencyLines (dependencies : List Dependency) : String :=
  String.join (dependencies.map fun d =>
    d.module.identity ++ (if d.isDirect then " direct\n" else " transitive\n"))

/-- The lock file of a set: the digests of all modules with a name and a commit. -/
def lockOf (set : ModuleSet) (type : DigestType) : SessionM LockFile := do
  let pinned := set.modules.filter fun x => x.name.isSome && !x.commit.isNone
  let keys ← pinned.mapM fun x => MonadExcept.ofExcept (x.toKey set.number type)
  LockFile.ofKeys Session.access keys

/-- Brings the lock file at a path up to date; tells whether it was written. When it is locked it
must be up to date already. -/
def lock (set : ModuleSet) (type : DigestType) (path : String) (isLocked : Bool) :
    CommandM (LockFile × Bool) := do
  let lock ← onModules (lockOf set type)
  tell .debug ("Generated lockfile: " ++ lock.shown)
  let disk := (← get).disk
  let old ← if disk.hasPath path then some <$> onDocument (readLock disk path) else pure none
  if old = some lock then
    tell .debug "Lockfile is up to date"
    return (lock, false)
  else if isLocked then throw (.outdatedLock path)
  else
    match disk.write path lock.text.toUTF8 with
    | .error fault => throw (.unwritable fault)
    | .ok disk =>
      modify fun s => { s with disk := disk }
      tell .info ("Wrote lockfile to " ++ path)
      return (lock, true)

end Commands

end ProtoWorkspace
