import ProtoWorkspace.Registry
import ProtoWorkspace.Session

/-!
# Registries in a session

A session makes a set of what a provider delivers for keys, and publishes modules of its sets in a
registry. What was written to the registry stays there, even when something fails afterwards.
-/

namespace ProtoWorkspace

/-- Makes a set of what a provider delivers for keys. -/
def Session.resolve (p : Provider) (keys : List ModuleKey) : SessionM ModuleSet := do
  let additions ← MonadExcept.ofExcept (p.additions keys)
  Session.build .standard additions

/-- Something done to a registry in a session. -/
abbrev RegistryM := ExceptT Error (StateT Registry (StateM Session))

namespace Registry

/-- Does something that leaves the registry alone. -/
def inSession {α : Type} (x : SessionM α) : RegistryM α := fun r σ =>
  let (result, σ) := x σ
  ((result, r), σ)

/-- Publishes a module at a new commit: stores what belongs to it, then gives its key. -/
def publish (fresh : CommitId) (s : ModuleSet) (x : Module) : RegistryM ModuleKey := do
  let stored ← inSession ((← get).snapshot s Session.access x)
  modify (insert · fresh stored)
  MonadExcept.ofExcept (ModuleKey.make stored.name fresh (.known stored.b5))

end Registry

end ProtoWorkspace
