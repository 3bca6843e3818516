import ProtoWorkspace.ModuleSet.Basic

/-!
# Access to what modules are made of

What is asked about modules is answered from their sources, which lie outside of the sets. The way
to the sources is a parameter of everything that asks: the direct way looks anew each time, a
session keeps every answer. The questions whose answers may be kept are listed here, together with
the events by which the way to an answer can be followed.
-/

namespace ProtoWorkspace

/-- A file of a module. -/
structure FileEntry where
  path : String
  kind : FileKind
  deriving DecidableEq

/-- A question whose answer may be kept. -/
inductive Question where
  | bucket (source : Source)
  /-- The files of a module. -/
  | fileIndex (source : Source)
  | yaml (source : Source)
  | lock (source : Source)
  | declaredKeys (source : Source)
  /-- The module of a set that has the Protobuf file at a path. -/
  | provider (set : Nat) (path : String)
  /-- The imports of a file, given by a text made of its module and its path. -/
  | imports (set : Nat) (file : String)
  | dependencies (set : Nat) (identity : String)
  | digest (set : Nat) (identity : String) (type : DigestType)
  /-- The digest that is loaded for a key. -/
  | keyDigest (number : Nat)
  deriving DecidableEq

@[reducible] def Question.Answer : Question → Type
  | .bucket _ => Bucket
  | .fileIndex _ => List FileEntry
  | .yaml _ => Option ObjectData
  | .lock _ => Option ObjectData
  | .declaredKeys _ => List ModuleKey
  | .provider _ _ => Option Module
  | .imports _ _ => List String
  | .dependencies _ _ => List Dependency
  | .digest _ _ _ => Digest
  | .keyDigest _ => Digest

/-- A step on the way to an answer. All but the last are uses of something that was given to the
library. -/
inductive Event where
  | openedBucket (source : Source)
  /-- The files of a bucket were listed for the module with a label; those at the ignored paths do
  not belong to it. -/
  | walkedBucket (source : Source) (label : String) (ignored : List String)
  | fetchedFile (source : Source) (path : String)
  | loadedYaml (source : Source)
  | loadedLock (source : Source)
  | loadedKeys (source : Source)
  | parsedFile (parser : Nat) (path : String)
  | loadedDigest (number : Nat)
  /-- The import of a well-known file led to no module. -/
  | metWellKnown (path imported : String)
  deriving DecidableEq

/-- A way to the sources. -/
structure Access (m : Type → Type) where
  disk : m Disk
  /-- The set with a number. -/
  findSet : Nat → m (Option ModuleSet)
  /-- The answer to a question, which is found by `ask` unless it was kept. -/
  remember : (q : Question) → (ask : m q.Answer) → m q.Answer
  /-- Records a step on the way to an answer. -/
  note : Event → m Unit

namespace Access

/-- The way that looks anew each time and keeps nothing. -/
def direct (disk : Disk) (sets : List ModuleSet) : Access (Except Error) where
  disk := .ok disk
  findSet number := .ok (sets.find? (·.number == number))
  remember _ ask := ask
  note _ := .ok ()

variable {m : Type → Type} [Monad m] [MonadExcept Error m]

/-- What a supply gives; loading it is recorded. -/
def load {α : Type} (io : Access m) (event : Event) : Supply α → m α
  | .ready a => pure a
  | .deferred load => do
    io.note event
    MonadExcept.ofExcept (load (← io.disk))

end Access

end ProtoWorkspace
