import ProtoWorkspace.Proofs.Access.Plain

/-!
# What buckets show

Of a bucket a module shows only the files that belong to it, and in an order of its own. Hence modules
whose buckets have the same module files have the same files, although the one bucket may list them in
another order than the other, and other files beside them.
-/

namespace ProtoWorkspace

open Fallible

/-- Whether two buckets have the same module files. They may list them in different orders, and other files
as they like. -/
structure Bucket.ShowsSame (disk : Disk) (b b' : Bucket) : Prop where
  failure : (b.list disk).failure = (b'.list disk).failure
  listed (path : String) : (FileKind.ofPath? path).isSome →
    (path ∈ (b.list disk).paths ↔ path ∈ (b'.list disk).paths)
  read (path : String) : (FileKind.ofPath? path).isSome → path ∈ (b.list disk).paths →
    b.read disk path = b'.read disk path

namespace Bucket.ShowsSame

variable {disk : Disk} {b b' : Bucket}

theorem refl (disk : Disk) (b : Bucket) : b.ShowsSame disk b :=
  ⟨rfl, fun _ _ => Iff.rfl, fun _ _ _ => rfl⟩

variable (h : b.ShowsSame disk b')

include h

theorem moduleEntries : moduleEntries (b.list disk).paths = moduleEntries (b'.list disk).paths := by
  refine moduleEntries_eq (pairwise_moduleEntries _) fun entry => ?_
  rw [mem_moduleEntries, mem_moduleEntries]
  exact and_congr_left fun hkind => h.listed entry.path (by rw [hkind]; rfl)

theorem indexOfListing (description : String) :
    indexOfListing description (b.list disk) = indexOfListing description (b'.list disk) := by
  rw [ProtoWorkspace.indexOfListing, ProtoWorkspace.indexOfListing, h.failure, h.moduleEntries]

end Bucket.ShowsSame

namespace Module

/-- Whether two modules have one identity and one label, and the same files. -/
structure ShowsSame (disk : Disk) (x y : Module) : Prop where
  identity : x.identity = y.identity
  description : x.description = y.description
  bucket : Agree (Bucket.ShowsSame disk) (x.inputs.bucket.on disk) (y.inputs.bucket.on disk)

namespace ShowsSame

variable {disk : Disk} {sets sets' : List ModuleSet} {io io' : Access (Except Error)} {x y : Module}
variable {path : String}
variable (h : x.ShowsSame disk y)

include h

theorem indexOn : x.indexOn disk = y.indexOn disk := by
  rw [Module.indexOn, Module.indexOn, h.description]
  exact h.bucket.bind_eq fun _ _ same => same.indexOfListing y.description

theorem isLoadable_iff : x.IsLoadable disk ↔ y.IsLoadable disk := by
  rw [← succeeds_indexOn, ← succeeds_indexOn, h.indexOn]

theorem hasProtoOn_iff : x.HasProtoOn disk path ↔ y.HasProtoOn disk path :=
  h.bucket.exists_iff fun _ _ same =>
    and_congr_left fun hkind => same.listed path (by rw [hkind]; rfl)

theorem readOn_of_listed (kind : (FileKind.ofPath? path).isSome)
    (listed : ∃ bucket, x.inputs.bucket.on disk = .ok bucket ∧ path ∈ (bucket.list disk).paths) :
    x.readOn disk path = y.readOn disk path := by
  obtain ⟨bucket, hb, hpath⟩ := listed
  have buckets := h.bucket
  rw [Module.readOn, Module.readOn]
  rw [hb] at buckets ⊢
  generalize y.inputs.bucket.on disk = b' at buckets ⊢
  cases buckets with
  | ok same => exact same.read path kind hpath

theorem readOn_of_hasProtoOn (hp : x.HasProtoOn disk path) : x.readOn disk path = y.readOn disk path := by
  obtain ⟨bucket, hb, hpath, hkind⟩ := hp
  exact h.readOn_of_listed (by rw [hkind]; rfl) ⟨bucket, hb, hpath⟩

theorem readOn_of_indexOn {entries : List FileEntry} (hentries : x.indexOn disk = .ok entries)
    (hpath : path ∈ entries.map FileEntry.path) : x.readOn disk path = y.readOn disk path := by
  obtain ⟨entry, hentry, rfl⟩ := List.mem_map.1 hpath
  obtain ⟨bucket, hb, hindex⟩ := bind_eq_ok.1 hentries
  obtain ⟨-, rfl, -⟩ := indexOfListing_eq_ok.1 hindex
  obtain ⟨hpath, hkind⟩ := mem_moduleEntries.1 hentry
  exact h.readOn_of_listed (by rw [hkind]; rfl) ⟨bucket, hb, hpath⟩

theorem contentsOn : x.contentsOn disk = y.contentsOn disk := by
  rw [Module.contentsOn, Module.contentsOn, ← h.indexOn]
  refine bind_congr fun entries hentries => mapM_congr fun entry hentry => ?_
  rw [h.readOn_of_indexOn hentries (List.mem_map_of_mem hentry)]

/-- Whichever path is asked for, the modules have the same file there, or fail in the same way. -/
theorem read (plain : io.IsPlain disk sets) (plain' : io'.IsPlain disk sets') (path : String) :
    x.read io path = y.read io' path := by
  cases hentries : x.indexOn disk with
  | error e =>
    have hentries' := h.indexOn.symm.trans hentries
    rw [Module.read, Module.read, plain.fileIndex_eq, plain'.fileIndex_eq, hentries, hentries']
    rfl
  | ok entries =>
    have hentries' := h.indexOn.symm.trans hentries
    by_cases hpath : path ∈ entries.map FileEntry.path
    · rw [plain.read_eq hentries hpath, plain'.read_eq hentries' hpath]
      exact h.readOn_of_indexOn hentries hpath
    · have unlisted : entries.any (·.path == path) = false := by
        simpa using hpath
      rw [Module.read, Module.read, plain.fileIndex_eq, plain'.fileIndex_eq, hentries, hentries', ok_bind,
        ok_bind, unlisted]
      rfl

end ShowsSame

end Module

end ProtoWorkspace
