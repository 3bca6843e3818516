import ProtoWorkspace.Bucket
import ProtoWorkspace.CommitId

/-!
# Keys of modules and commits

A module key names a module at a commit, and knows how to come by the digest of the module's
content there. It never stands for "no commit". A commit key names a commit of a registry without
saying of which module.
-/

namespace ProtoWorkspace

/-- Where the digest of a key comes from. -/
inductive DigestOrigin where
  | known (digest : Digest)
  /-- It is loaded when it is first needed. The number tells such keys apart. -/
  | supplied (number : Nat) (load : Disk → Except Error Digest)
  /-- It is the digest of a module of a module set, both given by their identifiers. -/
  | ofModule (set : Nat) (id : String) (type : DigestType)

/-- A module at a commit. -/
structure ModuleKey where
  name : FullName
  commit : CommitId
  origin : DigestOrigin
  isNone_commit : commit.isNone = false

namespace ModuleKey

/-- The key of a module at a commit. -/
def make (name : FullName) (commit : CommitId) (origin : DigestOrigin) :
    Except Error ModuleKey :=
  if h : commit.isNone = false then .ok ⟨name, commit, origin, h⟩
  else .error (.invalidKey (.noCommit name.text))

def text (key : ModuleKey) : String :=
  key.name.text ++ ":" ++ key.commit.plain

def shown (key : ModuleKey) : String :=
  "ModuleKey(" ++ key.text ++ ")"

/-- Whether two keys name the same module at the same commit. -/
def isSame (a b : ModuleKey) : Bool :=
  a.name == b.name && a.commit == b.commit

end ModuleKey

/-- A commit of a registry. -/
structure CommitKey where
  registry : String
  commit : CommitId
  digestType : DigestType
  deriving DecidableEq

namespace CommitKey

/-- The key of a commit. -/
def make (registry : String) (commit : CommitId) (digestType : DigestType) :
    Except Error CommitKey :=
  if registry = "" then .error (.invalidKey .noRegistry)
  else if commit.isNone then .error (.invalidKey .noCommitId)
  else .ok ⟨registry, commit, digestType⟩

def text (key : CommitKey) : String :=
  key.registry ++ ":" ++ key.commit.plain

end CommitKey

/-- Whether two digests are equal; those of different types are not compared. -/
def Digest.isEqual (a b : Digest) : Except Error Bool :=
  if a.type ≠ b.type then .error (.digestTypeMismatch a.type b.type)
  else .ok (a.value == b.value)

end ProtoWorkspace
