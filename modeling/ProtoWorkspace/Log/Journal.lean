import ProtoWorkspace.Session

/-!
# What a session tells

The log records for the journal of a session. Of the answers that are kept some have a cache with a
name, and each use of such a cache is told with the number of its uses so far.
-/

namespace ProtoWorkspace.Log

/-- The cache of a set that keeps the answer to a question: the number of the set and the name of
the cache. -/
def cacheOf? : Question → Option (Nat × String)
  | .provider set _ => some (set, "file path to module")
  | .imports set _ => some (set, "file imports")
  | _ => none

/-- How often a cache was asked, and how often it had the answer. -/
structure Usage where
  calls : Nat := 0
  hits : Nat := 0

abbrev Usages := List ((Nat × String) × Usage)

def Usages.count (usages : Usages) (cache : Nat × String) (isHit : Bool) : Usage :=
  let old := (usages.lookup cache).getD {}
  ⟨old.calls + 1, if isHit then old.hits + 1 else old.hits⟩

def labelOf (sets : List ModuleSet) (set : Nat) (identity : String) : String :=
  ((sets.find? (·.number == set)).bind (·.find? identity)).elim identity Module.description

def cacheRecord (name : String) (usage : Usage) : Record :=
  ⟨.trace, "protomodule::sync::keyed_cache", name ++ " cache: " ++ toString usage.calls ++
    " calls, " ++ toString usage.hits ++ " hits"⟩

def dependenciesRecord (label : String) (dependencies : List Dependency) : Record :=
  ⟨.debug, "protomodule::resolver", "Resolved " ++ toString dependencies.length ++
    " dependencies for " ++ label ++ ": " ++
    shownList (dependencies.map fun d => Text.quoted d.module.identity)⟩

def eventRecords : Event → List Record
  | .walkedBucket _ label ignored =>
    ignored.map fun path =>
      ⟨.trace, "protomodule::bucket", "Ignoring non-module file " ++ path ++ " in " ++ label⟩
  | .metWellKnown path imported =>
    [⟨.trace, "protomodule::resolver", path ++ " imports well-known type " ++ imported⟩]
  | _ => []

/-- The records for something that happened in a session with the given sets. The uses of caches are
told elsewhere. -/
def recordsOf (sets : List ModuleSet) : Happening → List Record
  | .event event => eventRecords event
  | .asked (.digest set identity type) =>
    [⟨.debug, "protomodule::module", "Computing " ++ type.text ++ " digest for " ++
      labelOf sets set identity⟩]
  | .answered (.dependencies set identity) (.ok dependencies) =>
    [dependenciesRecord (labelOf sets set identity) dependencies]
  | .built modules =>
    [⟨.debug, "protomodule::module_set", "Built module set with " ++ toString modules ++
      " modules"⟩]
  | .told record => [record]
  | _ => []

/-- The cache that was used, and whether it had the answer. -/
def useOf? : Happening → Option ((Nat × String) × Bool)
  | .answered question _ => (cacheOf? question).map (·, false)
  | .recalled question => (cacheOf? question).map (·, true)
  | _ => none

/-- Adds the records for something that happened to those for what happened before it. -/
def tell (sets : List ModuleSet) (h : Happening) (told : List Record × Usages) :
    List Record × Usages :=
  let (records, usages) := told
  match useOf? h with
  | some (cache, isHit) =>
    let usage := usages.count cache isHit
    (cacheRecord cache.2 usage :: records, (cache, usage) :: usages.filter (·.1 != cache))
  | none => ((recordsOf sets h).reverse ++ records, usages)

/-- The records for what happened in a session, in the order in which it happened. -/
def recordsFor (s : Session) : List Record :=
  (s.journal.foldr (tell s.sets) ([], [])).1.reverse

end ProtoWorkspace.Log
