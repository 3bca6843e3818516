import Mathlib.Data.String.Basic
import Mathlib.Tactic
import ProtoWorkspace.ModuleFiles
import ProtoWorkspace.Proofs.Fallible

/-!
# Plain access

A plain way to the sources looks at one disk and one list of sets and keeps no answer, except
perhaps what the imports of files are. Through a plain way every question about the files of a
module has the answer that can be read off the disk.
-/

namespace ProtoWorkspace

/-- Whether a question asks for the imports of a file. -/
def Question.isImports : Question → Bool
  | .imports _ _ => true
  | _ => false

/-- A way that finds everything on `disk` and among `sets`, and that keeps at most the imports of
files. -/
structure Access.IsPlain (io : Access (Except Error)) (disk : Disk) (sets : List ModuleSet) :
    Prop where
  disk_eq : io.disk = .ok disk
  findSet_eq (number : Nat) : io.findSet number = .ok (sets.find? (·.number == number))
  note_eq (event : Event) : io.note event = .ok ()
  remember_eq (q : Question) (ask : Except Error q.Answer) (h : q.isImports = false) :
    io.remember q ask = ask

theorem Access.isPlain_direct (disk : Disk) (sets : List ModuleSet) :
    (Access.direct disk sets).IsPlain disk sets where
  disk_eq := rfl
  findSet_eq _ := rfl
  note_eq _ := rfl
  remember_eq _ _ _ := rfl

/-- The way that looks anew each time, but takes the imports of files from a table. -/
def Access.recalling (disk : Disk) (sets : List ModuleSet)
    (imports : Nat → String → Except Error (List String)) : Access (Except Error) where
  disk := .ok disk
  findSet number := .ok (sets.find? (·.number == number))
  remember
    | .imports number mark, _ => imports number mark
    | _, ask => ask
  note _ := .ok ()

theorem Access.isPlain_recalling (disk : Disk) (sets : List ModuleSet)
    (imports : Nat → String → Except Error (List String)) :
    (Access.recalling disk sets imports).IsPlain disk sets where
  disk_eq := rfl
  findSet_eq _ := rfl
  note_eq _ := rfl
  remember_eq q ask h := by
    cases q with
    | imports number mark => cases h
    | _ => rfl

/-- What a supply gives on a disk. -/
def Supply.on {α : Type} (disk : Disk) : Supply α → Except Error α
  | .ready a => .ok a
  | .deferred load => load disk

namespace Module

def indexOn (x : Module) (disk : Disk) : Except Error (List FileEntry) := do
  let bucket ← x.inputs.bucket.on disk
  indexOfListing x.description (bucket.list disk)

def readOn (x : Module) (disk : Disk) (path : String) : Except Error ByteArray := do
  let bucket ← x.inputs.bucket.on disk
  bucket.read disk path

/-- All files of a module on a disk, with their bytes. -/
def contentsOn (x : Module) (disk : Disk) : Except Error (List (String × ByteArray)) := do
  let entries ← x.indexOn disk
  entries.mapM fun entry => do return (entry.path, ← x.readOn disk entry.path)

/-- Whether the bucket of a module lists a Protobuf file at a path. -/
def HasProtoOn (x : Module) (disk : Disk) (path : String) : Prop :=
  ∃ bucket, x.inputs.bucket.on disk = .ok bucket ∧ path ∈ (bucket.list disk).paths ∧
    FileKind.ofPath? path = some .proto

/-- Whether the files of a module can be listed and there is a Protobuf file among them. -/
def IsLoadable (x : Module) (disk : Disk) : Prop :=
  ∃ bucket, x.inputs.bucket.on disk = .ok bucket ∧ (bucket.list disk).failure = none ∧
    ∃ path ∈ (bucket.list disk).paths, FileKind.ofPath? path = some .proto

end Module

/-! ## Lists of files -/

theorem mem_foldr_insert {texts : List String} {text : String} :
    text ∈ texts.foldr List.insert [] ↔ text ∈ texts := by
  induction texts with
  | nil => simp
  | cons a texts ih => simp [ih]

theorem mem_ascending {texts : List String} {text : String} :
    text ∈ ascending texts ↔ text ∈ texts := by
  rw [ascending, List.mem_mergeSort, mem_foldr_insert]

theorem nodup_foldr_insert (texts : List String) : (texts.foldr List.insert []).Nodup := by
  induction texts with
  | nil => exact List.nodup_nil
  | cons a texts ih => exact ih.insert

theorem pairwise_ascending (texts : List String) : (ascending texts).Pairwise (· < ·) := by
  have sorted : (ascending texts).Pairwise (· ≤ ·) := by
    have h := List.pairwise_mergeSort' (r := fun a b : String => a ≤ b)
      (texts.foldr List.insert [])
    simpa [ascending] using h
  have distinct : (ascending texts).Nodup :=
    (List.mergeSort_perm _ _).nodup_iff.2 (nodup_foldr_insert texts)
  exact sorted.imp₂ (fun _ _ => lt_of_le_of_ne) distinct

theorem mem_moduleEntries {paths : List String} {entry : FileEntry} :
    entry ∈ moduleEntries paths ↔
      entry.path ∈ paths ∧ FileKind.ofPath? entry.path = some entry.kind := by
  simp only [moduleEntries, List.mem_filterMap, Option.map_eq_some_iff, mem_ascending]
  constructor
  · rintro ⟨path, hpath, kind, hkind, rfl⟩
    exact ⟨hpath, hkind⟩
  · intro ⟨hpath, hkind⟩
    exact ⟨entry.path, hpath, entry.kind, hkind, rfl⟩

theorem pairwise_moduleEntries (paths : List String) :
    (moduleEntries paths).Pairwise (·.path < ·.path) := by
  refine (pairwise_ascending paths).filterMap _ ?_
  intro a a' lt b hb b' hb'
  obtain ⟨kind, -, rfl⟩ := Option.map_eq_some_iff.1 hb
  obtain ⟨kind', -, rfl⟩ := Option.map_eq_some_iff.1 hb'
  exact lt

/-- The module files among some paths are the ones in ascending order that there are. -/
theorem moduleEntries_eq {paths : List String} {entries : List FileEntry}
    (sorted : entries.Pairwise (·.path < ·.path))
    (h : ∀ entry, entry ∈ moduleEntries paths ↔ entry ∈ entries) : moduleEntries paths = entries := by
  have antisymm : Std.Antisymm fun a b : FileEntry => a.path < b.path :=
    ⟨fun a b hab hba => absurd hab (not_lt_of_gt hba)⟩
  have irrefl : Std.Irrefl fun a b : FileEntry => a.path < b.path :=
    ⟨fun a => lt_irrefl a.path⟩
  exact (pairwise_moduleEntries _).eq_of_mem_iff sorted h

theorem indexOfListing_eq_ok {description : String} {listing : Listing}
    {entries : List FileEntry} :
    indexOfListing description listing = .ok entries ↔
      listing.failure = none ∧ entries = moduleEntries listing.paths ∧
        ∃ path ∈ listing.paths, FileKind.ofPath? path = some .proto := by
  have hasProto : (moduleEntries listing.paths).any (·.kind == .proto) = true ↔
      ∃ path ∈ listing.paths, FileKind.ofPath? path = some .proto := by
    simp only [List.any_eq_true, beq_iff_eq, mem_moduleEntries]
    constructor
    · rintro ⟨entry, ⟨hpath, hkind⟩, h⟩
      exact ⟨entry.path, hpath, by rw [hkind, h]⟩
    · rintro ⟨path, hpath, hkind⟩
      exact ⟨⟨path, .proto⟩, ⟨hpath, hkind⟩, rfl⟩
  unfold indexOfListing
  cases hf : listing.failure with
  | some e => simp
  | none =>
    by_cases hp : (moduleEntries listing.paths).any (·.kind == .proto) = true
    · simp only [hp, if_true, Except.ok.injEq, true_and, hasProto.1 hp, and_true]
      exact eq_comm
    · have none : ¬ ∃ path ∈ listing.paths, FileKind.ofPath? path = some .proto :=
        fun h => hp (hasProto.2 h)
      simp [hp, none]

namespace Module

theorem succeeds_indexOn {x : Module} {disk : Disk} :
    Succeeds (x.indexOn disk) ↔ x.IsLoadable disk := by
  unfold indexOn IsLoadable
  rw [Fallible.succeeds_bind]
  refine exists_congr fun bucket => and_congr_right fun _ => ?_
  constructor
  · rintro ⟨entries, h⟩
    obtain ⟨hf, -, hp⟩ := indexOfListing_eq_ok.1 h
    exact ⟨hf, hp⟩
  · rintro ⟨hf, hp⟩
    exact ⟨_, indexOfListing_eq_ok.2 ⟨hf, rfl, hp⟩⟩

theorem mem_indexOn_proto {x : Module} {disk : Disk} {entries : List FileEntry}
    (h : x.indexOn disk = .ok entries) {path : String} :
    ⟨path, .proto⟩ ∈ entries ↔ x.HasProtoOn disk path := by
  obtain ⟨bucket, hb, hi⟩ := Fallible.bind_eq_ok.1 h
  obtain ⟨-, rfl, -⟩ := indexOfListing_eq_ok.1 hi
  rw [mem_moduleEntries]
  constructor
  · intro ⟨hpath, hkind⟩
    exact ⟨bucket, hb, hpath, hkind⟩
  · rintro ⟨bucket', hb', hpath, hkind⟩
    rw [hb] at hb'
    cases hb'
    exact ⟨hpath, hkind⟩

theorem pairwise_indexOn {x : Module} {disk : Disk} {entries : List FileEntry}
    (h : x.indexOn disk = .ok entries) : entries.Pairwise (·.path < ·.path) := by
  obtain ⟨bucket, -, h⟩ := Fallible.bind_eq_ok.1 h
  obtain ⟨-, rfl, -⟩ := indexOfListing_eq_ok.1 h
  exact pairwise_moduleEntries _

end Module

theorem FileTable.get_eq_ok {t : FileTable} {path : String} {data : ByteArray} :
    t.get path = .ok data ↔ t.entries.lookup path = some data := by
  unfold FileTable.get
  split <;> simp [*]

/-! ## Questions to a plain way -/

namespace Access.IsPlain

variable {io : Access (Except Error)} {disk : Disk} {sets : List ModuleSet}

theorem load_eq (h : io.IsPlain disk sets) {α : Type} (event : Event) (supply : Supply α) :
    io.load event supply = supply.on disk := by
  cases supply with
  | ready a => rfl
  | deferred load => simp [Access.load, Supply.on, h.note_eq, h.disk_eq]

theorem openBucket_eq (h : io.IsPlain disk sets) (x : Module) :
    x.openBucket io = x.inputs.bucket.on disk :=
  (h.remember_eq _ _ rfl).trans (h.load_eq _ _)

theorem yaml_eq (h : io.IsPlain disk sets) (x : Module) :
    x.yaml io = x.inputs.yaml.on disk :=
  (h.remember_eq _ _ rfl).trans (h.load_eq _ _)

theorem lock_eq (h : io.IsPlain disk sets) (x : Module) :
    x.lock io = x.inputs.lock.on disk :=
  (h.remember_eq _ _ rfl).trans (h.load_eq _ _)

theorem declaredKeys_eq (h : io.IsPlain disk sets) (x : Module) :
    x.declaredKeys io = x.inputs.declaredKeys.on disk :=
  (h.remember_eq _ _ rfl).trans (h.load_eq _ _)

theorem fileIndex_eq (h : io.IsPlain disk sets) (x : Module) :
    x.fileIndex io = x.indexOn disk := by
  refine (h.remember_eq _ _ rfl).trans ?_
  rw [h.openBucket_eq, h.disk_eq, Module.indexOn]
  refine congrArg _ (funext fun bucket => ?_)
  dsimp only [Fallible.ok_bind]
  rw [h.note_eq]
  exact Fallible.ofExcept_eq _

theorem filePaths_eq (h : io.IsPlain disk sets) (x : Module) :
    x.filePaths io = List.map FileEntry.path <$> x.indexOn disk := by
  rw [Module.filePaths, h.fileIndex_eq]

theorem read_eq (h : io.IsPlain disk sets) {x : Module} {entries : List FileEntry}
    (hx : x.indexOn disk = .ok entries) {path : String} (hp : path ∈ entries.map FileEntry.path) :
    x.read io path = x.readOn disk path := by
  have listed : entries.any (·.path == path) = true := by
    simpa using hp
  rw [Module.read, h.fileIndex_eq, hx, Fallible.ok_bind, if_pos listed, h.openBucket_eq,
    Module.readOn]
  simp [h.disk_eq, h.note_eq]

theorem contents_eq (h : io.IsPlain disk sets) (x : Module) : x.contents io = x.contentsOn disk := by
  rw [Module.contents, h.filePaths_eq, Module.contentsOn]
  cases hx : x.indexOn disk with
  | error e => rfl
  | ok entries =>
    rw [Fallible.map_ok, Fallible.ok_bind, Fallible.ok_bind, List.mapM_map]
    refine Fallible.mapM_congr fun entry hentry => ?_
    rw [Function.comp_apply, h.read_eq hx (List.mem_map_of_mem hentry)]

theorem mem_protoPaths (h : io.IsPlain disk sets) {x : Module} {paths : List String}
    (hx : x.protoPaths io = .ok paths) {path : String} :
    path ∈ paths ↔ x.HasProtoOn disk path := by
  rw [Module.protoPaths, h.fileIndex_eq] at hx
  obtain ⟨entries, he, hx⟩ := Fallible.bind_eq_ok.1 hx
  cases hx
  rw [← Module.mem_indexOn_proto he, List.mem_map]
  constructor
  · rintro ⟨⟨path', kind⟩, hmem, rfl⟩
    obtain ⟨hmem, hkind⟩ := List.mem_filter.1 hmem
    rw [beq_iff_eq] at hkind
    exact hkind ▸ hmem
  · intro hmem
    exact ⟨⟨path, .proto⟩, List.mem_filter.2 ⟨hmem, rfl⟩, rfl⟩

theorem pairwise_protoPaths (h : io.IsPlain disk sets) {x : Module} {paths : List String}
    (hx : x.protoPaths io = .ok paths) : paths.Pairwise (· < ·) := by
  rw [Module.protoPaths, h.fileIndex_eq] at hx
  obtain ⟨entries, he, hx⟩ := Fallible.bind_eq_ok.1 hx
  cases hx
  exact List.pairwise_map.2 ((Module.pairwise_indexOn he).sublist List.filter_sublist)

theorem succeeds_protoPaths (h : io.IsPlain disk sets) {x : Module} :
    Succeeds (x.protoPaths io) ↔ x.IsLoadable disk := by
  rw [← Module.succeeds_indexOn, Module.protoPaths, h.fileIndex_eq, Fallible.succeeds_bind]
  exact exists_congr fun entries => and_iff_left (Fallible.succeeds_ok _)

/-- Modules with Protobuf files at the same paths give the same list of paths. -/
theorem sameValue_protoPaths {io' : Access (Except Error)} {disk' : Disk} {sets' : List ModuleSet}
    (h : io.IsPlain disk sets) (h' : io'.IsPlain disk' sets') {x x' : Module}
    (loadable : x.IsLoadable disk ↔ x'.IsLoadable disk')
    (hasProto : ∀ path, x.HasProtoOn disk path ↔ x'.HasProtoOn disk' path) :
    SameValue (x.protoPaths io) (x'.protoPaths io') := by
  rw [← h.succeeds_protoPaths, ← h'.succeeds_protoPaths] at loadable
  have equal : ∀ paths paths', x.protoPaths io = .ok paths → x'.protoPaths io' = .ok paths' →
      paths = paths' := by
    intro paths paths' hpaths hpaths'
    refine (h.pairwise_protoPaths hpaths).eq_of_mem_iff (h'.pairwise_protoPaths hpaths') ?_
    intro path
    rw [h.mem_protoPaths hpaths, h'.mem_protoPaths hpaths', hasProto]
  intro paths
  constructor
  · intro hpaths
    obtain ⟨paths', hpaths'⟩ := loadable.1 ⟨paths, hpaths⟩
    rw [equal paths paths' hpaths hpaths', hpaths']
  · intro hpaths'
    obtain ⟨paths', hpaths⟩ := loadable.2 ⟨paths, hpaths'⟩
    rw [← equal paths' paths hpaths hpaths', hpaths]

theorem hasProto_eq (h : io.IsPlain disk sets) {x : Module} (hx : x.IsLoadable disk)
    (path : String) :
    ∃ b, x.hasProto io path = .ok b ∧ (b = true ↔ x.HasProtoOn disk path) := by
  obtain ⟨entries, he⟩ := Module.succeeds_indexOn.2 hx
  refine ⟨_, by rw [Module.hasProto, h.fileIndex_eq, he]; rfl, ?_⟩
  rw [← Module.mem_indexOn_proto he, List.any_eq_true]
  constructor
  · rintro ⟨⟨path', kind⟩, hmem, hb⟩
    obtain ⟨rfl, rfl⟩ := by simpa using hb
    exact hmem
  · intro hmem
    exact ⟨_, hmem, by simp⟩

end Access.IsPlain

end ProtoWorkspace
