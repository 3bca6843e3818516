import ProtoWorkspace.Imports
import ProtoWorkspace.Module

/-!
# Module sets

A module set holds modules that are looked at together. Within a set a module is identified by its
name or its directory, and no two modules have the same directory. A set with other targets is a
new set.
-/

namespace ProtoWorkspace

/-- How the imports of a file are found. -/
structure ImportParser where
  /-- Tells a parser given by the user from others; the library's own has no number. -/
  number : Option Nat
  /-- The imports of the file at a path with the given bytes. -/
  parse : String → ByteArray → Except Error (List String)

def ImportParser.standard : ImportParser :=
  ⟨none, Imports.ofFile⟩

/-- Modules that are looked at together. -/
structure ModuleSet where
  /-- Tells sets apart. A set has a higher number than any made before. -/
  number : Nat
  parser : ImportParser
  modules : List Module
  nodup_identity : (modules.map Module.identity).Nodup
  nodup_bucketId : ((modules.map Module.bucketId).filter (· ≠ "")).Nodup

namespace ModuleSet

/-- The error for the first module that has the identity or the directory of one before it, where
`identities` and `buckets` are those of earlier modules. -/
def firstClash (identities buckets : List String) : List Module → Option Error
  | [] => none
  | m :: rest =>
    if m.identity ∈ identities then some (.duplicateModule m.identity)
    else if m.bucketId ≠ "" ∧ m.bucketId ∈ buckets then some (.duplicateBucket m.bucketId)
    else firstClash (m.identity :: identities) (m.bucketId :: buckets) rest

/-- Without a clash all identities are different, and differ from the earlier ones. -/
theorem nodup_identity_of_firstClash {identities buckets : List String} {modules : List Module}
    (h : firstClash identities buckets modules = none) :
    (modules.map Module.identity).Nodup ∧ ∀ m ∈ modules, m.identity ∉ identities := by
  induction modules generalizing identities buckets with
  | nil => simp
  | cons m rest ih =>
    simp only [firstClash] at h
    split at h
    · simp at h
    · next hm =>
      split at h
      · simp at h
      · obtain ⟨hn, hi⟩ := ih h
        refine ⟨?_, ?_⟩
        · refine List.nodup_cons.2 ⟨fun hmem => ?_, hn⟩
          obtain ⟨m', hm', he⟩ := List.mem_map.1 hmem
          exact hi m' hm' (by simp [he])
        · intro m' hm'
          rcases List.mem_cons.1 hm' with rfl | hm'
          · exact hm
          · exact fun hmem => hi m' hm' (by simp [hmem])

/-- Without a clash all directories are different, and differ from the earlier ones. -/
theorem nodup_bucketId_of_firstClash {identities buckets : List String} {modules : List Module}
    (h : firstClash identities buckets modules = none) :
    ((modules.map Module.bucketId).filter (· ≠ "")).Nodup ∧
      ∀ m ∈ modules, m.bucketId ≠ "" → m.bucketId ∉ buckets := by
  induction modules generalizing identities buckets with
  | nil => simp
  | cons m rest ih =>
    simp only [firstClash] at h
    split at h
    · simp at h
    · split at h
      · simp at h
      · next hm =>
        obtain ⟨hn, hb⟩ := ih h
        refine ⟨?_, ?_⟩
        · by_cases he : m.bucketId = ""
          · simpa [he] using hn
          · rw [List.map_cons, List.filter_cons_of_pos (by simpa using he)]
            refine List.nodup_cons.2 ⟨fun hmem => ?_, hn⟩
            obtain ⟨m', hm', heq⟩ := List.mem_map.1 (List.mem_filter.1 hmem).1
            exact hb m' hm' (by rw [heq]; exact he) (by simp [heq])
        · intro m' hm' hne
          rcases List.mem_cons.1 hm' with rfl | hm'
          · exact fun hmem => hm ⟨hne, hmem⟩
          · exact fun hmem => hb m' hm' hne (by simp [hmem])

/-- The set of the given modules, unless two of them clash. -/
def ofModules (number : Nat) (parser : ImportParser) (modules : List Module) :
    Except Error ModuleSet :=
  match h : firstClash [] [] modules with
  | some e => .error e
  | none =>
    .ok ⟨number, parser, modules, (nodup_identity_of_firstClash h).1,
      (nodup_bucketId_of_firstClash h).1⟩

def identities (s : ModuleSet) : List String :=
  s.modules.map Module.identity

def find? (s : ModuleSet) (identity : String) : Option Module :=
  s.modules.find? (·.identity == identity)

def findName? (s : ModuleSet) (name : FullName) : Option Module :=
  s.find? name.text

/-- The module with a directory. Modules without one are not found. -/
def findBucket? (s : ModuleSet) (bucketId : String) : Option Module :=
  if bucketId = "" then none else s.modules.find? (·.bucketId == bucketId)

def targets (s : ModuleSet) : List Module :=
  s.modules.filter Module.isTarget

def nonTargets (s : ModuleSet) : List Module :=
  s.modules.filter (!·.isTarget)

def locals (s : ModuleSet) : List Module :=
  s.modules.filter Module.isLocal

/-- The names of the remote modules, in the order of their texts. -/
def remoteNames (s : ModuleSet) : List FullName :=
  ((s.modules.filter (!·.isLocal)).filterMap Module.name).mergeSort
    fun a b => decide (a.text ≤ b.text)

/-- The modules of the set as the elements of another list of identities. -/
def restrict (s : ModuleSet) (identities : List String) : List Module :=
  s.modules.filter fun m => identities.contains m.identity

def shown (s : ModuleSet) : String :=
  shownList (s.modules.map Module.shown)

/-- The set with exactly the given modules as targets, under a new number. -/
def retarget (s : ModuleSet) (number : Nat) (identities : List String) :
    Except Error ModuleSet :=
  match identities.find? fun identity => (s.find? identity).isNone with
  | some identity => .error (.unknownModule identity)
  | none =>
    .ok {
      number := number
      parser := s.parser
      modules := s.modules.map fun m => m.withTarget (identities.contains m.identity)
      nodup_identity := by
        simpa [List.map_map, Function.comp_def] using s.nodup_identity
      nodup_bucketId := by
        simpa [List.map_map, Function.comp_def] using s.nodup_bucketId }

end ModuleSet

end ProtoWorkspace
