import ProtoWorkspace.Access

/-!
# The files of a module

Of the files in its bucket a module has those of a known kind, in ascending order of their paths.
There must be a Protobuf file among them. All views of a module's files are views of this list.
-/

namespace ProtoWorkspace

/-- A file of a module and whether it is a target file. -/
structure FileInfo where
  path : String
  kind : FileKind
  isTarget : Bool
  deriving DecidableEq

/-- Texts in ascending order, each once. -/
def ascending (texts : List String) : List String :=
  (texts.foldr List.insert []).mergeSort fun a b => decide (a ≤ b)

/-- The paths among the given ones that belong to a module, with their kinds. -/
def moduleEntries (paths : List String) : List FileEntry :=
  (ascending paths).filterMap fun path => (FileKind.ofPath? path).map (FileEntry.mk path)

/-- The paths in a listing that do not belong to a module. -/
def ignoredPaths (listing : Listing) : List String :=
  listing.paths.filter fun path => (FileKind.ofPath? path).isNone

/-- The files of a module with the given label whose bucket has the given listing. -/
def indexOfListing (description : String) (listing : Listing) :
    Except Error (List FileEntry) :=
  match listing.failure with
  | some e => .error e
  | none =>
    let entries := moduleEntries listing.paths
    if entries.any (·.kind == .proto) then .ok entries else .error (.noProtoFiles description)

namespace Module

variable {m : Type → Type} [Monad m] [MonadExcept Error m]

def openBucket (x : Module) (io : Access m) : m Bucket :=
  io.remember (.bucket x.source) (io.load (.openedBucket x.source) x.inputs.bucket)

def yaml (x : Module) (io : Access m) : m (Option ObjectData) :=
  io.remember (.yaml x.source) (io.load (.loadedYaml x.source) x.inputs.yaml)

def lock (x : Module) (io : Access m) : m (Option ObjectData) :=
  io.remember (.lock x.source) (io.load (.loadedLock x.source) x.inputs.lock)

def declaredKeys (x : Module) (io : Access m) : m (List ModuleKey) :=
  io.remember (.declaredKeys x.source) (io.load (.loadedKeys x.source) x.inputs.declaredKeys)

def fileIndex (x : Module) (io : Access m) : m (List FileEntry) :=
  io.remember (.fileIndex x.source) do
    let bucket ← x.openBucket io
    let listing := bucket.list (← io.disk)
    io.note (.walkedBucket x.source x.description (ignoredPaths listing))
    MonadExcept.ofExcept (indexOfListing x.description listing)

def infoOf (x : Module) (entry : FileEntry) : FileInfo :=
  ⟨entry.path, entry.kind, x.isTargetPath entry.path⟩

def fileInfos (x : Module) (io : Access m) : m (List FileInfo) :=
  List.map x.infoOf <$> x.fileIndex io

/-- The target files of a module. -/
def targetFileInfos (x : Module) (io : Access m) : m (List FileInfo) :=
  List.filter FileInfo.isTarget <$> x.fileInfos io

def filePaths (x : Module) (io : Access m) : m (List String) :=
  List.map FileEntry.path <$> x.fileIndex io

def protoPaths (x : Module) (io : Access m) : m (List String) := do
  let entries ← x.fileIndex io
  return (entries.filter (·.kind == .proto)).map FileEntry.path

/-- Visits the files of a module until a visit fails; gives the visited files and the outcome. -/
def visitFiles (x : Module) (io : Access m) (visit : FileInfo → Except Error Unit) :
    m (List FileInfo × Except Error Unit) :=
  visitAll visit <$> x.fileInfos io

def stat (x : Module) (io : Access m) (path : String) : m FileInfo := do
  match (← x.fileIndex io).find? (·.path == path) with
  | some entry => return x.infoOf entry
  | none => throw (.fileNotFound path)

def hasProto (x : Module) (io : Access m) (path : String) : m Bool := do
  return (← x.fileIndex io).any fun entry => entry.path == path && entry.kind == .proto

def read (x : Module) (io : Access m) (path : String) : m ByteArray := do
  let entries ← x.fileIndex io
  if entries.any (·.path == path) then
    let bucket ← x.openBucket io
    io.note (.fetchedFile x.source path)
    MonadExcept.ofExcept (bucket.read (← io.disk) path)
  else throw (.fileNotFound path)

/-- All files of a module with their bytes, in ascending order of their paths. -/
def contents (x : Module) (io : Access m) : m (List (String × ByteArray)) := do
  (← x.filePaths io).mapM fun path => do return (path, ← x.read io path)

end Module

end ProtoWorkspace
