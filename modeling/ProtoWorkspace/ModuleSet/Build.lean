import ProtoWorkspace.ModuleSet.Basic

/-!
# Building module sets

Modules are added to a set one after the other. Of modules with one name a local one takes the
place of remote ones, and remote ones must agree on the commit. What is then left must be
identified, and differently.
-/

namespace ProtoWorkspace

/-- A module as it is added to a set. -/
structure Addition where
  bucketId : String
  description : Option String
  name : Option FullName
  commit : CommitId
  isTarget : Bool
  isLocal : Bool
  includes : List String
  excludes : List String
  inputs : Inputs

/-- What is known of a local module apart from its files. -/
structure LocalOptions where
  description : Option String := none
  name : Option FullName := none
  commit : Option CommitId := none
  isTarget : Bool := false
  includes : List String := []
  excludes : List String := []
  yaml : Supply (Option ObjectData) := .ready none
  lock : Supply (Option ObjectData) := .ready none

namespace Addition

/-- A local module with the files of a bucket. It declares no dependencies. -/
def ofLocal (bucket : Bucket) (bucketId : String) (o : LocalOptions) : Addition where
  bucketId := bucketId
  description := o.description
  name := o.name
  commit := o.commit.getD .none
  isTarget := o.isTarget
  isLocal := true
  includes := o.includes
  excludes := o.excludes
  inputs := {
    bucket := .ready bucket
    yaml := o.yaml
    lock := o.lock
    declaredKeys := .deferred fun _ =>
      .error (.internal "declared dependency keys requested for a local module") }

def ofRemote (key : ModuleKey) (inputs : Inputs) (isTarget : Bool) : Addition where
  bucketId := ""
  description := none
  name := some key.name
  commit := key.commit
  isTarget := isTarget
  isLocal := false
  includes := []
  excludes := []
  inputs := inputs

/-- Normalizes paths; the first that leaves its module is reported. -/
def normalizeAll (paths : List String) : Except Error (List String) :=
  paths.mapM fun path => (Path.normalize path).mapError fun fault => .internal fault.message

def toModule (a : Addition) (source : Source) : Except Error Module :=
  if hi : a.bucketId = "" ∧ a.name.isNone then
    .error (.internal ("bucket id was empty and full name was absent when constructing a " ++
      "module, one of these must be set"))
  else if hr : a.isLocal = false ∧ a.name.isNone then
    .error (.internal "full name not present when constructing a remote module")
  else if hc : a.name.isNone ∧ a.commit.isNone = false then
    .error (.internal
      "full name not present and commit id present when constructing a module")
  else do
    let includes ← normalizeAll a.includes
    let excludes ← normalizeAll a.excludes
    return {
      source := source
      bucketId := a.bucketId
      description := (a.description.filter (· ≠ "")).getD (identityOf a.name a.bucketId)
      name := a.name
      commit := a.commit
      isTarget := a.isTarget
      isLocal := a.isLocal
      includes := includes
      excludes := excludes
      inputs := a.inputs
      identified := by
        cases h : a.name <;> simp_all
      named_of_remote := by
        cases h : a.name <;> simp_all
      named_of_commit := by
        cases h : a.name <;> simp_all }

end Addition

namespace ModuleSet

/-- Puts an addition among those that are kept. -/
def merge (incoming : Source × Addition) :
    List (Source × Addition) → Except Error (List (Source × Addition))
  | [] => .ok [incoming]
  | old :: rest =>
    match incoming.2.name with
    | none => (old :: ·) <$> merge incoming rest
    | some name =>
      if old.2.name ≠ some name then (old :: ·) <$> merge incoming rest
      else
        match old.2.isLocal, incoming.2.isLocal with
        | true, true => .ok (old :: rest ++ [incoming])
        | true, false => .ok (old :: rest)
        | false, true => .ok (incoming :: rest)
        | false, false =>
          if old.2.commit = incoming.2.commit then
            .ok ((old.1, { old.2 with isTarget := old.2.isTarget || incoming.2.isTarget }) :: rest)
          else
            .error (.conflictingCommits name.text old.2.commit.plain incoming.2.commit.plain)

def mergeAll (additions : List (Source × Addition)) :
    Except Error (List (Source × Addition)) :=
  additions.foldlM (fun kept incoming => merge incoming kept) []

/-- The set with a number made of the given additions. -/
def build (number : Nat) (parser : ImportParser) (additions : List Addition) :
    Except Error ModuleSet := do
  let kept ← mergeAll (additions.zipIdx.map fun (a, position) => (⟨number, position⟩, a))
  let modules ← kept.mapM fun (source, a) => a.toModule source
  ofModules number parser modules

end ModuleSet

end ProtoWorkspace
