import ProtoWorkspace.FileKind
import ProtoWorkspace.ModuleKey

/-!
# Modules

A module is a set of Protobuf files with a name or a directory that identifies it. Local modules
come from the workspace, remote ones from a registry. What a module is made of is loaded when it is
first needed.
-/

namespace ProtoWorkspace

/-- Tells what modules are made of: the module that was added at a position to the set with a
number. A module with another choice of targets keeps its source. -/
structure Source where
  set : Nat
  position : Nat
  deriving DecidableEq

/-- What a module is made of. -/
structure Inputs where
  bucket : Supply Bucket
  /-- The configuration file, byte for byte, for `b4` digests. -/
  yaml : Supply (Option ObjectData)
  /-- The old lock file, byte for byte, for `b4` digests. -/
  lock : Supply (Option ObjectData)
  /-- The dependencies that a remote module was published with. -/
  declaredKeys : Supply (List ModuleKey)

/-- A module of a module set. -/
structure Module where
  source : Source
  /-- Identifies the directory of a local module; empty for other modules. -/
  bucketId : String
  /-- The label of the module in messages. -/
  description : String
  name : Option FullName
  commit : CommitId
  isTarget : Bool
  isLocal : Bool
  /-- The normalized paths to which the target files are restricted, if there are any. -/
  includes : List String
  /-- The normalized paths whose files are no target files. -/
  excludes : List String
  inputs : Inputs
  identified : bucketId ≠ "" ∨ name.isSome
  named_of_remote : isLocal = false → name.isSome
  named_of_commit : commit.isNone = false → name.isSome

/-- What identifies a module: its name if it has one, its directory otherwise. -/
def identityOf (name : Option FullName) (bucketId : String) : String :=
  match name with
  | some name => name.text
  | none => bucketId

namespace Module

/-- What identifies the module in its set. -/
def identity (m : Module) : String :=
  identityOf m.name m.bucketId

def withTarget (m : Module) (isTarget : Bool) : Module :=
  { m with isTarget := isTarget }

/-- Whether the file at a path is a target file: the module is a target, the path is not excluded,
and it is included if there are includes. -/
def isTargetPath (m : Module) (path : String) : Bool :=
  m.isTarget && !m.excludes.any (Path.isWithin path) &&
    (m.includes.isEmpty || m.includes.any (Path.isWithin path))

def shown (m : Module) : String :=
  "Module \x7b opaque_id: " ++ Text.quoted m.identity ++ ", commit_id: " ++ m.commit.hyphenated ++
    ", is_target: " ++ toString m.isTarget ++ ", is_local: " ++ toString m.isLocal ++ " \x7d"

/-- The key of a module at its commit; its digest is computed when it is first needed. -/
def toKey (m : Module) (set : Nat) (type : DigestType) : Except Error ModuleKey :=
  match m.name with
  | none => .error (.nameRequired m.description)
  | some name =>
    if m.commit.isNone then .error (.commitRequired m.description)
    else ModuleKey.make name m.commit (.ofModule set m.identity type)

/-- Another target flag does not change what identifies a module. -/
@[simp] theorem identity_withTarget (m : Module) (isTarget : Bool) :
    (m.withTarget isTarget).identity = m.identity := rfl

/-- Another target flag does not change the directory of a module. -/
@[simp] theorem bucketId_withTarget (m : Module) (isTarget : Bool) :
    (m.withTarget isTarget).bucketId = m.bucketId := rfl

end Module

/-- A module on which another module depends. -/
structure Dependency where
  module : Module
  /-- Whether a file of the dependent module imports a file of this one. -/
  isDirect : Bool

def Dependency.shown (d : Dependency) : String :=
  "ModuleDep \x7b module: " ++ d.module.shown ++ ", is_direct: " ++ toString d.isDirect ++ " \x7d"

def shownList (elements : List String) : String :=
  "[" ++ ", ".intercalate elements ++ "]"

end ProtoWorkspace
