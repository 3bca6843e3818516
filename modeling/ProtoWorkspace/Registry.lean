import ProtoWorkspace.ModuleDigest
import ProtoWorkspace.ModuleSet.Build

/-!
# Registries

A registry keeps modules at commits and lets labels point to commits. Publishing a module stores
its files, pins its dependencies to commits and moves the label `main`. Nothing that was stored is
ever changed.
-/

namespace ProtoWorkspace

/-- A module as it was published. -/
structure StoredCommit where
  name : FullName
  files : FileTable
  dependencies : List ModuleKey
  yaml : Option ObjectData
  lock : Option ObjectData
  b4 : Digest
  b5 : Digest

/-- Commits and the labels that point to them, the latest ones first. -/
structure Registry where
  commits : List (CommitId × StoredCommit) := []
  labels : List ((FullName × String) × CommitId) := []

/-- A module as a registry delivers it. -/
structure ModuleData where
  key : ModuleKey
  bucket : Bucket
  /-- The dependencies that it was published with. -/
  dependencies : List ModuleKey
  yaml : Option ObjectData
  lock : Option ObjectData

def ModuleData.shown (d : ModuleData) : String :=
  "ModuleData \x7b module_key: " ++ d.key.shown ++ ", dep_module_keys: " ++
    shownList (d.dependencies.map ModuleKey.shown) ++ " \x7d"

/-- What delivers modules and digests for keys, in the order of the keys. -/
structure Provider where
  datas : List ModuleKey → Except Error (List ModuleData)
  digests : List ModuleKey → DigestType → Except Error (List Digest)

namespace Registry

/-- The label that publishing moves. -/
def mainLabel : String := "main"

def labeled? (r : Registry) (name : FullName) (label : String) : Option CommitId :=
  r.labels.lookup (name, label)

def commit? (r : Registry) (commit : CommitId) : Option StoredCommit :=
  r.commits.lookup commit

/-- What is stored at a commit under a name. -/
def stored? (r : Registry) (name : FullName) (commit : CommitId) : Option StoredCommit :=
  (r.commit? commit).filter (·.name == name)

def find (r : Registry) (key : ModuleKey) : Except Error StoredCommit :=
  match r.stored? key.name key.commit with
  | some stored => .ok stored
  | none => .error (.provider (.notFound key.text))

/-- The key for a reference to a module: a label, or else a commit. -/
def keyForRef (r : Registry) (name : FullName) (reference : String) :
    Except Error ModuleKey :=
  let missing : Error := .provider (.notFound (name.text ++ ":" ++ reference))
  match (r.labeled? name reference).or (CommitId.parse? reference) with
  | none => .error missing
  | some commit =>
    match r.stored? name commit with
    | some stored => ModuleKey.make name commit (.known stored.b5)
    | none => .error missing

def data (r : Registry) (key : ModuleKey) : Except Error ModuleData := do
  let stored ← r.find key
  return ⟨key, Bucket.memory stored.files, stored.dependencies, stored.yaml, stored.lock⟩

def digest (r : Registry) (type : DigestType) (key : ModuleKey) : Except Error Digest := do
  let stored ← r.find key
  return match type with
    | .b4 => stored.b4
    | .b5 => stored.b5

/-- A registry as a provider. -/
def provider (r : Registry) : Provider where
  datas keys := keys.mapM r.data
  digests keys type := keys.mapM (r.digest type)

variable {m : Type → Type} [Monad m] [MonadExcept Error m]

/-- The commit to which a published module pins a dependency with the given name and `b5` digest:
the dependency's own, or else the commit labeled `main`, which must have the same digest. -/
def pin (r : Registry) (x : Module) (name : FullName) (digest : Digest) :
    Except Error CommitId :=
  if x.commit.isNone then
    match r.labeled? name mainLabel with
    | none => .error (.commitRequired x.description)
    | some commit =>
      if (r.commit? commit).map StoredCommit.b5 = some digest then .ok commit
      else .error (.dependencyNotPushed x.description commit.plain)
  else .ok x.commit

def requiredName (x : Module) : Except Error FullName :=
  match x.name with
  | some name => .ok name
  | none => .error (.nameRequired x.description)

/-- The key under which a published module keeps a dependency. -/
def pinnedKey (r : Registry) (s : ModuleSet) (io : Access m) (d : Dependency) : m ModuleKey := do
  let name ← MonadExcept.ofExcept (requiredName d.module)
  let digest ← s.digest io d.module .b5
  let commit ← MonadExcept.ofExcept (r.pin d.module name digest)
  MonadExcept.ofExcept (ModuleKey.make name commit (.known digest))

/-- What is to be stored for a module. -/
def snapshot (r : Registry) (s : ModuleSet) (io : Access m) (x : Module) : m StoredCommit := do
  let name ← MonadExcept.ofExcept (requiredName x)
  let files ← x.contents io
  let dependencies ← (← s.dependencies io x).mapM (r.pinnedKey s io)
  let yaml ← x.yaml io
  let lock ← x.lock io
  let b4 ← s.digest io x .b4
  let b5 ← s.digest io x .b5
  return ⟨name, FileTable.ofList files, dependencies, yaml, lock, b4, b5⟩

/-- The registry with one more commit, to which the label `main` then points. -/
def insert (r : Registry) (commit : CommitId) (stored : StoredCommit) : Registry where
  commits := (commit, stored) :: r.commits
  labels := ((stored.name, mainLabel), commit) :: r.labels

/-- Publishes a module at a new commit, and hands the registry on when that succeeds. -/
def push (r : Registry) (fresh : CommitId) (s : ModuleSet) (io : Access m) (x : Module) :
    m (Registry × ModuleKey) := do
  let stored ← r.snapshot s io x
  let key ← MonadExcept.ofExcept (ModuleKey.make stored.name fresh (.known stored.b5))
  return (r.insert fresh stored, key)

end Registry

namespace Provider

def failing (e : Error) : Provider where
  datas _ := .error e
  digests _ _ := .error e

/-- Keys without those that name a module at a commit that was named before. -/
def distinctKeys (keys : List ModuleKey) : List ModuleKey :=
  keys.foldl (fun kept key => if kept.any (·.isSame key) then kept else kept ++ [key]) []

def additionOf (isTarget : Bool) (d : ModuleData) : Addition :=
  .ofRemote d.key {
    bucket := .ready d.bucket
    yaml := .ready d.yaml
    lock := .ready d.lock
    declaredKeys := .ready d.dependencies } isTarget

/-- The modules for the given keys as targets, and the dependencies that they were published
with. -/
def additions (p : Provider) (keys : List ModuleKey) : Except Error (List Addition) := do
  let datas ← p.datas keys
  let dependencies := distinctKeys (datas.flatMap ModuleData.dependencies)
  let others ← if dependencies.isEmpty then pure [] else p.datas dependencies
  return datas.map (additionOf true) ++ others.map (additionOf false)

end Provider

/-- What a registry delivers for keys, as a set. -/
def Registry.resolve (r : Registry) (number : Nat) (keys : List ModuleKey) : Except Error ModuleSet :=
  r.provider.additions keys >>= ModuleSet.build number .standard

end ProtoWorkspace
