import ProtoWorkspace.Dependencies
import ProtoWorkspace.Digest.Stream

/-!
# Digests of modules

The `b4` digest of a module covers its own files. The `b5` digest covers the `b5` digests of its
dependencies as well: a local module has the dependencies that its imports lead to, a remote one
those that it was published with. Local modules that depend on each other have no `b5` digest.

The search for a digest carries the modules of the set whose digests are not being computed, and
goes from a set only to sets made before it. Hence it ends.
-/

namespace ProtoWorkspace

variable {m : Type → Type} [Monad m] [MonadExcept Error m]

/-- The digest of a key, where `ofModule` gives the digests of modules. -/
def ModuleKey.digestBy (key : ModuleKey) (io : Access m)
    (ofModule : Nat → String → DigestType → m Digest) : m Digest :=
  match key.origin with
  | .known digest => pure digest
  | .supplied number load =>
    io.remember (.keyDigest number) (io.load (.loadedDigest number) (.deferred load))
  | .ofModule set identity type => ofModule set identity type

def sortedByName (keys : List ModuleKey) : List ModuleKey :=
  keys.mergeSort fun a b => decide (a.name.text ≤ b.name.text)

namespace ModuleSet

def others (identities : List String) (identity : String) : List String :=
  identities.filter (· ≠ identity)

theorem length_others_lt {identities : List String} {identity : String}
    (h : identity ∈ identities) : (others identities identity).length < identities.length :=
  List.length_filter_lt_length_iff_exists.2 ⟨identity, h, by simp⟩

/-- Fails when one of the given dependencies of a local module is local and depends on the module
in turn. -/
def checkNoCycle (s : ModuleSet) (io : Access m) (x : Module) :
    List Dependency → m Unit
  | [] => pure ()
  | d :: rest => do
    if d.module.isLocal then
      let back ← s.dependencies io d.module
      if back.any (·.module.identity == x.identity) then
        throw (.dependencyCycle x.description d.module.description)
    s.checkNoCycle io x rest

/-- The digest of a module, where `idle` has the identities of the modules of the set whose digests
are not being computed. -/
def digestWithin (s : ModuleSet) (io : Access m) (idle : List String) (x : Module)
    (type : DigestType) : m Digest :=
  io.remember (.digest s.number x.identity type) do
    match type with
    | .b4 =>
      let yaml ← x.yaml io
      let lock ← x.lock io
      return Digest.b4 (← x.contents io) yaml lock
    | .b5 =>
      if x.isLocal then
        let dependencies ← s.dependencies io x
        s.checkNoCycle io x dependencies
        let digests ← dependencies.mapM fun d =>
          if d.module.identity ∈ idle then
            s.digestWithin io (others idle d.module.identity) d.module .b5
          else throw (.digestInProgress d.module.identity)
        MonadExcept.ofExcept (Digest.b5 (← x.contents io) digests)
      else
        let keys := sortedByName (← x.declaredKeys io)
        let digests ← keys.mapM fun key =>
          key.digestBy io fun number identity type => do
            match (← io.findSet number) with
            | none => throw (.unknownModule identity)
            | some t =>
              if t.number < s.number then
                match t.find? identity with
                | some y =>
                  t.digestWithin io (others t.identities identity) y type
                | none => throw (.unknownModule identity)
              else throw (.digestInProgress identity)
        MonadExcept.ofExcept (Digest.b5 (← x.contents io) digests)
termination_by (s.number, idle.length)
decreasing_by
  · apply Prod.Lex.right
    exact length_others_lt ‹_ ∈ idle›
  · exact Prod.Lex.left _ _ ‹_›

/-- The digest of a module of a set. -/
def digest (s : ModuleSet) (io : Access m) (x : Module) (type : DigestType) : m Digest :=
  s.digestWithin io (others s.identities x.identity) x type

end ModuleSet

/-- The digest of a key. -/
def ModuleKey.digest (key : ModuleKey) (io : Access m) : m Digest :=
  key.digestBy io fun number identity type => do
    match ← io.findSet number with
    | none => throw (.unknownModule identity)
    | some s =>
      match s.find? identity with
      | some x => s.digest io x type
      | none => throw (.unknownModule identity)

/-- The one digest type of all keys. There must be a key. -/
def uniqueDigestType (io : Access m) : List ModuleKey → m DigestType
  | [] =>
    throw (.internal "empty module keys passed to unique_digest_type_for_module_keys")
  | first :: rest => do
    let type := (← first.digest io).type
    rest.forM fun key => do
      let other := (← key.digest io).type
      if other ≠ type then throw (.digestTypeMismatch type other)
    return type

def ModuleKey.toCommitKey (key : ModuleKey) (io : Access m) : m CommitKey := do
  let digest ← key.digest io
  MonadExcept.ofExcept (CommitKey.make key.name.registry key.commit digest.type)

end ProtoWorkspace
