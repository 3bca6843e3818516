import ProtoWorkspace.Proofs.Access.Plain

/-!
# Files kept in a table

The files of a module can be put into a table in memory. A module with that table as its bucket has
the same files, since a table keeps files that come in ascending order as they are, and those that
belong to a module belong to it again.
-/

namespace ProtoWorkspace

namespace FileTable

theorem insertInto_of_lt {entries : List (String × ByteArray)} {path : String}
    (h : ∀ entry ∈ entries, entry.1 < path) (data : ByteArray) :
    insertInto path data entries = entries ++ [(path, data)] := by
  induction entries with
  | nil => rfl
  | cons entry rest ih =>
    obtain ⟨hlt, hrest⟩ := List.forall_mem_cons.1 h
    rw [insertInto, if_neg (not_lt_of_gt hlt), if_neg (ne_of_gt hlt), ih hrest,
      List.cons_append]

/-- A table keeps files that come in ascending order as they are. -/
theorem ofList_of_pairwise {files : List (String × ByteArray)}
    (h : files.Pairwise (·.1 < ·.1)) : ofList files = ⟨files⟩ := by
  have appended : ∀ (kept rest : List (String × ByteArray)),
      (kept ++ rest).Pairwise (·.1 < ·.1) →
        rest.foldl (fun (t : FileTable) file => t.insert file.1 file.2) ⟨kept⟩ = ⟨kept ++ rest⟩ := by
    intro kept rest
    induction rest generalizing kept with
    | nil => simp
    | cons file rest ih =>
      intro h
      have before : ∀ entry ∈ kept, entry.1 < file.1 := fun entry hentry =>
        (List.pairwise_append.1 h).2.2 entry hentry file List.mem_cons_self
      rw [List.append_cons] at h
      rw [List.foldl_cons, FileTable.insert, insertInto_of_lt before, ih _ h,
        ← List.append_cons]
  exact appended [] files h

theorem get_of_mem {files : List (String × ByteArray)} (h : files.Pairwise (·.1 < ·.1))
    {file : String × ByteArray} (hf : file ∈ files) :
    (FileTable.mk files).get file.1 = .ok file.2 := by
  rw [get_eq_ok]
  induction files with
  | nil => cases hf
  | cons other rest ih =>
    obtain ⟨hother, hrest⟩ := List.pairwise_cons.1 h
    rcases List.mem_cons.1 hf with rfl | hf
    · exact List.lookup_cons_self
    · rw [List.lookup_cons, beq_false_of_ne (ne_of_gt (hother file hf))]
      exact ih hrest hf

end FileTable

theorem moduleEntries_map_path (paths : List String) :
    moduleEntries ((moduleEntries paths).map FileEntry.path) = moduleEntries paths := by
  refine moduleEntries_eq (pairwise_moduleEntries _) fun entry => ?_
  rw [mem_moduleEntries]
  constructor
  · intro ⟨hpath, hkind⟩
    obtain ⟨entry', hmem, same⟩ := List.mem_map.1 hpath
    rw [mem_moduleEntries, same] at hmem
    exact mem_moduleEntries.2 ⟨hmem.1, hkind⟩
  · intro hmem
    exact ⟨List.mem_map_of_mem hmem, (mem_moduleEntries.1 hmem).2⟩

/-- Files that are read one after the other stand at the given paths with the bytes that are
there. -/
theorem mapM_read_eq_ok {read : String → Except Error ByteArray} {entries : List FileEntry}
    {files : List (String × ByteArray)} :
    (entries.mapM fun entry => do return (entry.path, ← read entry.path)) = .ok files ↔
      files.map Prod.fst = entries.map FileEntry.path ∧
        ∀ file ∈ files, read file.1 = .ok file.2 := by
  rw [Fallible.mapM_eq_ok]
  constructor
  · intro h
    induction h with
    | nil => simp
    | cons hread _ ih =>
      obtain ⟨data, hdata, hread⟩ := Fallible.bind_eq_ok.1 hread
      cases hread
      exact ⟨congrArg _ ih.1, List.forall_mem_cons.2 ⟨hdata, ih.2⟩⟩
  · intro ⟨paths, hread⟩
    induction entries generalizing files with
    | nil =>
      obtain rfl := List.map_eq_nil_iff.1 paths
      exact .nil
    | cons entry entries ih =>
      obtain ⟨file, rest, rfl, same, paths⟩ := List.map_eq_cons_iff.1 paths
      obtain ⟨hfile, hrest⟩ := List.forall_mem_cons.1 hread
      refine .cons (Fallible.bind_eq_ok.2 ⟨file.2, same ▸ hfile, ?_⟩) (ih paths hrest)
      rw [← same]
      rfl

namespace Module

variable {x y : Module} {disk : Disk} {files : List (String × ByteArray)}

/-- The files of a module, each with the bytes in its bucket. -/
theorem contentsOn_eq_ok : x.contentsOn disk = .ok files ↔
    ∃ bucket, x.inputs.bucket.on disk = .ok bucket ∧ (bucket.list disk).failure = none ∧
      (∃ path ∈ (bucket.list disk).paths, FileKind.ofPath? path = some .proto) ∧
      files.map Prod.fst = (moduleEntries (bucket.list disk).paths).map FileEntry.path ∧
      ∀ file ∈ files, bucket.read disk file.1 = .ok file.2 := by
  constructor
  · intro h
    obtain ⟨entries, hentries, h⟩ := Fallible.bind_eq_ok.1 h
    obtain ⟨bucket, hb, hindex⟩ := Fallible.bind_eq_ok.1 hentries
    obtain ⟨hf, rfl, hp⟩ := indexOfListing_eq_ok.1 hindex
    obtain ⟨paths, hread⟩ := mapM_read_eq_ok.1 h
    refine ⟨bucket, hb, hf, hp, paths, fun file hfile => ?_⟩
    have read := hread file hfile
    rwa [readOn, hb] at read
  · rintro ⟨bucket, hb, hf, hp, paths, hread⟩
    refine Fallible.bind_eq_ok.2 ⟨moduleEntries (bucket.list disk).paths, ?_, ?_⟩
    · exact Fallible.bind_eq_ok.2 ⟨bucket, hb, indexOfListing_eq_ok.2 ⟨hf, rfl, hp⟩⟩
    · refine mapM_read_eq_ok.2 ⟨paths, fun file hfile => ?_⟩
      rw [readOn, hb]
      exact hread file hfile

theorem pairwise_contentsOn (h : x.contentsOn disk = .ok files) : files.Pairwise (·.1 < ·.1) := by
  obtain ⟨bucket, -, -, -, paths, -⟩ := contentsOn_eq_ok.1 h
  have sorted := List.pairwise_map.2 (pairwise_moduleEntries (bucket.list disk).paths)
  rw [← paths] at sorted
  exact List.pairwise_map.1 sorted

/-- A module with the files of another in its bucket has the same files, also on another disk. -/
theorem contentsOn_of_bucket (h : x.contentsOn disk = .ok files) {disk' : Disk}
    (hy : y.inputs.bucket = .ready (Bucket.memory (FileTable.ofList files))) :
    y.contentsOn disk' = .ok files := by
  have sorted := pairwise_contentsOn h
  obtain ⟨bucket, hb, hf, ⟨path, hpath, hkind⟩, paths, -⟩ := contentsOn_eq_ok.1 h
  rw [FileTable.ofList_of_pairwise sorted] at hy
  refine contentsOn_eq_ok.2 ⟨_, by rw [hy]; rfl, rfl, ?_, ?_, fun file hfile => ?_⟩
  · have listed : (⟨path, .proto⟩ : FileEntry) ∈ moduleEntries (bucket.list disk).paths :=
      mem_moduleEntries.2 ⟨hpath, hkind⟩
    refine ⟨path, ?_, hkind⟩
    change path ∈ files.map Prod.fst
    rw [paths]
    exact List.mem_map_of_mem listed
  · change files.map Prod.fst = (moduleEntries (files.map Prod.fst)).map FileEntry.path
    rw [paths, moduleEntries_map_path]
  · exact FileTable.get_of_mem sorted hfile

theorem isLoadable_of_contentsOn (h : x.contentsOn disk = .ok files) : x.IsLoadable disk := by
  obtain ⟨bucket, hb, hf, hproto, -⟩ := contentsOn_eq_ok.1 h
  exact ⟨bucket, hb, hf, hproto⟩

/-- The Protobuf files of a module are those among its files. -/
theorem hasProtoOn_iff_of_contentsOn (h : x.contentsOn disk = .ok files) {path : String} :
    x.HasProtoOn disk path ↔ path ∈ files.map Prod.fst ∧ FileKind.ofPath? path = some .proto := by
  obtain ⟨bucket, hb, -, -, paths, -⟩ := contentsOn_eq_ok.1 h
  have listed : FileKind.ofPath? path = some .proto →
      (path ∈ files.map Prod.fst ↔ path ∈ (bucket.list disk).paths) := by
    intro hkind
    rw [paths, List.mem_map]
    constructor
    · rintro ⟨entry, hentry, rfl⟩
      exact (mem_moduleEntries.1 hentry).1
    · intro hpath
      exact ⟨⟨path, .proto⟩, mem_moduleEntries.2 ⟨hpath, hkind⟩, rfl⟩
  constructor
  · rintro ⟨bucket', hb', hpath, hkind⟩
    obtain rfl := Except.ok.inj (hb.symm.trans hb')
    exact ⟨(listed hkind).2 hpath, hkind⟩
  · rintro ⟨hpath, hkind⟩
    exact ⟨bucket, hb, (listed hkind).1 hpath, hkind⟩

theorem readOn_of_contentsOn (h : x.contentsOn disk = .ok files) {file : String × ByteArray}
    (hfile : file ∈ files) : x.readOn disk file.1 = .ok file.2 := by
  obtain ⟨bucket, hb, -, -, -, hread⟩ := contentsOn_eq_ok.1 h
  rw [readOn, hb]
  exact hread file hfile

end Module

end ProtoWorkspace
