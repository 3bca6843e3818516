import ProtoWorkspace.LockFile
import ProtoWorkspace.ModuleDigest

/-!
# Lock files and module keys

A lock file records module keys with their digests, sorted by name, and gives the keys back.
-/

namespace ProtoWorkspace

/-- The key of a pinned module. Its commit must be an identifier, and not that of no commit. -/
def LockedModule.toKey (l : LockedModule) : Except DocumentError ModuleKey :=
  match (CommitId.parse? l.commit).filter (!·.isNone) with
  | some commit => (ModuleKey.make l.name commit (.known l.digest)).mapError .moduleKey
  | none => .error (.commit l.commit)

def LockFile.toKeys (l : LockFile) : Except DocumentError (List ModuleKey) :=
  l.modules.mapM LockedModule.toKey

variable {m : Type → Type} [Monad m] [MonadExcept Error m]

def LockedModule.ofKey (io : Access m) (key : ModuleKey) : m LockedModule := do
  return ⟨key.name, key.commit.plain, ← key.digest io⟩

def LockFile.ofKeys (io : Access m) (keys : List ModuleKey) : m LockFile := do
  let modules ← keys.mapM (LockedModule.ofKey io)
  return ⟨modules.mergeSort fun a b => decide (a.name.text ≤ b.name.text)⟩

end ProtoWorkspace
