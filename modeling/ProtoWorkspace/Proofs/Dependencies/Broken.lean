import ProtoWorkspace.Proofs.Dependencies.Exact

/-!
# Modules whose files cannot be listed

To find the module that has a path, the files of all modules of a set are listed. Hence one module whose
files cannot be listed is in the way of every import in the set, also of those that lead elsewhere. Only
the dependencies of a module that imports nothing are found all the same.
-/

namespace ProtoWorkspace.ModuleSet

/-- Whether the files of a module of the set cannot be listed, and the reason is the same for all
modules whose files cannot be listed. -/
structure IsBroken (s : ModuleSet) (disk : Disk) (e : Error) : Prop where
  exists_error : ∃ y ∈ s.modules, y.indexOn disk = .error e
  loadable_or (y : Module) : y ∈ s.modules → y.IsLoadable disk ∨ y.indexOn disk = .error e

/-- Whether no Protobuf file of a module imports anything. -/
def ImportsNothing (s : ModuleSet) (disk : Disk) (x : Module) : Prop :=
  ∀ path imports, x.HasProtoOn disk path → s.importsOn disk x path = .ok imports → imports = []

/-- Whether the files of a module can be listed, and each Protobuf file among them can be read and
parsed, which gives the imports that a way gives too. -/
structure ReadsFiles (s : ModuleSet) (io : Access (Except Error)) (disk : Disk) (x : Module) :
    Prop where
  loadable : x.IsLoadable disk
  importsOf (path : String) : x.HasProtoOn disk path →
    s.importsOf io x path = s.importsOn disk x path
  succeeds (path : String) : x.HasProtoOn disk path → Succeeds (s.importsOn disk x path)

theorem readsFiles_direct {s : ModuleSet} {disk : Disk} {sets : List ModuleSet} {x : Module}
    (loadable : x.IsLoadable disk)
    (succeeds : ∀ path, x.HasProtoOn disk path → Succeeds (s.importsOn disk x path)) :
    s.ReadsFiles (.direct disk sets) disk x where
  loadable := loadable
  importsOf _ hp := readImports_eq (Access.isPlain_direct disk sets) loadable hp
  succeeds := succeeds

section Plain

variable {s : ModuleSet} {io : Access (Except Error)} {disk : Disk} {sets : List ModuleSet}
variable {x : Module} {e : Error} (h : io.IsPlain disk sets)

include h

theorem providersAmong_eq_error (path : String) {modules : List Module}
    (all : ∀ y ∈ modules, y.IsLoadable disk ∨ y.indexOn disk = .error e)
    (some : ∃ y ∈ modules, y.indexOn disk = .error e) :
    providersAmong io path modules = .error e := by
  induction modules with
  | nil => simp at some
  | cons x rest ih =>
    obtain ⟨hx, hrest⟩ := List.forall_mem_cons.1 all
    have failing : x.indexOn disk = .error e →
        providersAmong io path (x :: rest) = .error e := by
      intro he
      have hasProto : x.hasProto io path = .error e := by
        rw [Module.hasProto, h.fileIndex_eq, he]
        rfl
      rw [providersAmong, hasProto]
      rfl
    rcases hx with loadable | he
    · obtain ⟨y, hy, he⟩ := some
      rcases List.mem_cons.1 hy with rfl | hy
      · exact failing he
      · obtain ⟨b, hb, -⟩ := h.hasProto_eq loadable path
        rw [providersAmong, hb, Fallible.ok_bind, ih hrest ⟨y, hy, he⟩]
        rfl
    · exact failing he

theorem provider_eq_error (broken : s.IsBroken disk e) (path : String) :
    s.provider io path = .error e := by
  rw [provider_eq, h.remember_eq _ _ rfl,
    providersAmong_eq_error h path broken.loadable_or broken.exists_error]
  rfl

/-- Where a path can be looked up, the files of all modules can be listed. -/
theorem isLoadable_of_provider {path : String} (hs : Succeeds (s.provider io path)) :
    s.IsLoadable disk := by
  have listed : ∀ modules : List Module, Succeeds (providersAmong io path modules) →
      ∀ y ∈ modules, y.IsLoadable disk := by
    intro modules
    induction modules with
    | nil => simp
    | cons x rest ih =>
      intro hs
      rw [providersAmong, Fallible.succeeds_bind] at hs
      obtain ⟨b, hb, hs⟩ := hs
      obtain ⟨ys, hys, -⟩ := Fallible.succeeds_bind.1 hs
      rw [Module.hasProto, h.fileIndex_eq] at hb
      obtain ⟨entries, hentries, -⟩ := Fallible.bind_eq_ok.1 hb
      exact List.forall_mem_cons.2 ⟨Module.succeeds_indexOn.1 ⟨entries, hentries⟩, ih ⟨ys, hys⟩⟩
  rw [provider_eq, h.remember_eq _ _ rfl] at hs
  obtain ⟨ys, hys, -⟩ := Fallible.succeeds_bind.1 hs
  exact listed s.modules ⟨ys, hys⟩

section Files

/-- Where the imports of a module can be followed, its files can be read and parsed and each import can
be looked up. -/
theorem exists_imports_of_succeeds (hs : Succeeds (s.importedIdentities io x)) {path : String}
    (hp : x.HasProtoOn disk path) : ∃ imports, s.importsOf io x path = .ok imports ∧
      ∀ imported ∈ imports, Succeeds (s.provider io imported) := by
  obtain ⟨paths, hpaths, hs⟩ := Fallible.succeeds_bind.1 hs
  obtain ⟨files, hfiles, -⟩ := Fallible.succeeds_bind.1 hs
  obtain ⟨file, -, hfile⟩ := Fallible.exists_mem_of_mapM hfiles ((h.mem_protoPaths hpaths).2 hp)
  obtain ⟨imports, himports, hfile⟩ := Fallible.bind_eq_ok.1 hfile
  obtain ⟨targets, htargets, -⟩ := Fallible.bind_eq_ok.1 hfile
  refine ⟨imports, himports, fun imported himported => ?_⟩
  obtain ⟨target, -, htarget⟩ := Fallible.exists_mem_of_mapM htargets himported
  rw [importTarget_eq] at htarget
  obtain ⟨provider, hprovider, -⟩ := Fallible.bind_eq_ok.1 htarget
  exact ⟨provider, hprovider⟩

variable (files : s.ReadsFiles io disk x)

include files

theorem importedIdentities_eq_nil (nothing : s.ImportsNothing disk x) :
    s.importedIdentities io x = .ok [] := by
  obtain ⟨paths, hpaths⟩ := h.succeeds_protoPaths.2 files.loadable
  have none : ∀ path ∈ paths, s.importedByFile io x path = .ok [] := by
    intro path hpath
    have hp := (h.mem_protoPaths hpaths).1 hpath
    obtain ⟨imports, himports⟩ := files.succeeds path hp
    rw [importedByFile, files.importsOf path hp, himports, nothing path imports hp himports]
    rfl
  obtain ⟨found, hfound⟩ := Fallible.succeeds_mapM.2 fun path hpath => ⟨[], none path hpath⟩
  have empty : found.flatten = [] := by
    refine List.flatten_eq_nil_iff.2 fun file hfile => ?_
    obtain ⟨path, hpath, hfile⟩ := Fallible.exists_of_mem_mapM hfound hfile
    rw [none path hpath] at hfile
    exact (Except.ok.inj hfile).symm
  rw [importedIdentities, hpaths, Fallible.ok_bind, hfound, Fallible.ok_bind, empty]
  rfl

/-- In a broken set a file that imports something is lost. -/
theorem importedByFile_eq_error (broken : s.IsBroken disk e) {path : String} {imports : List String}
    (hp : x.HasProtoOn disk path) (himports : s.importsOn disk x path = .ok imports)
    (hne : imports ≠ []) : s.importedByFile io x path = .error e := by
  have fails : ∀ imported, s.importTarget io x path imported = .error e := by
    intro imported
    rw [importTarget_eq, provider_eq_error h broken]
    rfl
  obtain ⟨imported, himported⟩ := List.exists_mem_of_ne_nil imports hne
  rw [importedByFile, files.importsOf path hp, himports, Fallible.ok_bind,
    Fallible.mapM_eq_error (fun imported _ => .inr (fails imported)) ⟨imported, himported, fails _⟩]
  rfl

theorem importedIdentities_eq_error (broken : s.IsBroken disk e)
    (some : ¬ s.ImportsNothing disk x) : s.importedIdentities io x = .error e := by
  obtain ⟨paths, hpaths⟩ := h.succeeds_protoPaths.2 files.loadable
  have lost : paths.mapM (s.importedByFile io x) = .error e := by
    refine Fallible.mapM_eq_error (fun path hpath => ?_) ?_
    · have hp := (h.mem_protoPaths hpaths).1 hpath
      obtain ⟨imports, himports⟩ := files.succeeds path hp
      by_cases hnone : imports = []
      · rw [importedByFile, files.importsOf path hp, himports, hnone]
        exact .inl (Fallible.succeeds_ok _)
      · exact .inr (importedByFile_eq_error h files broken hp himports hnone)
    · simp only [ImportsNothing, not_forall] at some
      obtain ⟨path, imports, hp, himports, hne⟩ := some
      exact ⟨path, (h.mem_protoPaths hpaths).2 hp,
        importedByFile_eq_error h files broken hp himports hne⟩
  rw [importedIdentities, hpaths, Fallible.ok_bind, lost]
  rfl

end Files

theorem dependencies_eq_nil (hnone : s.importedIdentities io x = .ok []) :
    s.dependencies io x = .ok [] := by
  have nothing : s.restrict [] = [] := by
    simp [restrict]
  rw [dependencies_eq h, hnone, Fallible.ok_bind, nothing, reach_nil, Fallible.ok_bind,
    List.mergeSort_nil]
  rfl

theorem dependencies_eq_error (he : s.importedIdentities io x = .error e) :
    s.dependencies io x = .error e := by
  rw [dependencies_eq h, he]
  rfl

theorem succeeds_importedIdentities_of_dependencies (hs : Succeeds (s.dependencies io x)) :
    Succeeds (s.importedIdentities io x) := by
  rw [dependencies_eq h] at hs
  obtain ⟨found, hfound, -⟩ := Fallible.succeeds_bind.1 hs
  exact ⟨found, hfound⟩

end Plain

theorem readsFiles_of_dependencies {s : ModuleSet} {disk : Disk} {sets : List ModuleSet} {x : Module}
    (hs : Succeeds (s.dependencies (.direct disk sets) x)) :
    s.ReadsFiles (.direct disk sets) disk x := by
  have plain := Access.isPlain_direct disk sets
  have found := succeeds_importedIdentities_of_dependencies plain hs
  have loadable : x.IsLoadable disk := by
    obtain ⟨paths, hpaths, -⟩ := Fallible.succeeds_bind.1 found
    exact plain.succeeds_protoPaths.1 ⟨paths, hpaths⟩
  refine readsFiles_direct loadable fun path hp => ?_
  obtain ⟨imports, himports, -⟩ := exists_imports_of_succeeds plain found hp
  exact ⟨imports, (readImports_eq plain loadable hp).symm.trans himports⟩

/-- Where the dependencies of a module are found that imports something, the files of all modules can be
listed. -/
theorem isLoadable_of_dependencies {s : ModuleSet} {disk : Disk} {sets : List ModuleSet} {x : Module}
    (hs : Succeeds (s.dependencies (.direct disk sets) x)) (some : ¬ s.ImportsNothing disk x) :
    s.IsLoadable disk := by
  have plain := Access.isPlain_direct disk sets
  have files := readsFiles_of_dependencies hs
  simp only [ImportsNothing, not_forall] at some
  obtain ⟨path, imports, hp, himports, hne⟩ := some
  obtain ⟨imports', himports', lookedUp⟩ :=
    exists_imports_of_succeeds plain (succeeds_importedIdentities_of_dependencies plain hs) hp
  cases himports.symm.trans ((files.importsOf path hp).symm.trans himports')
  obtain ⟨imported, himported⟩ := List.exists_mem_of_ne_nil imports hne
  exact isLoadable_of_provider plain (lookedUp imported himported)

end ProtoWorkspace.ModuleSet
