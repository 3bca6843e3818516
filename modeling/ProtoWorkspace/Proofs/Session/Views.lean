import ProtoWorkspace.Proofs.Path
import ProtoWorkspace.Proofs.Session.Retargeted

/-!
# The views of a module

Whatever a session is asked about the files of a module whose bucket can be listed, the answer is read
off one and the same list: the module files of the bucket, each once, in ascending order of their paths.
Which of them are target files is told by the components of their paths and of those to which the
module was restricted when it was added.
-/

namespace ProtoWorkspace

open Fallible

open Session (access)

/-! ## What a module was made of -/

/-- Whether a module was made of an addition; it may have been given another target flag since. -/
def Module.IsMadeOf (x : Module) (a : Addition) : Prop :=
  Addition.toModule { a with isTarget := x.isTarget } x.source = .ok x

namespace Addition

/-- Whether the paths to which an addition is restricted, once they are normalized, let the file at a path
be a target file. -/
def Selects (a : Addition) (path : String) : Prop :=
  (∀ given ∈ a.excludes, ∀ base, Path.normalize given = .ok base → ¬ Path.Covers base path) ∧
    (a.includes = [] ∨
      ∃ given ∈ a.includes, ∃ base, Path.normalize given = .ok base ∧ Path.Covers base path)

theorem normalizeAll_eq_ok {paths places : List String} : normalizeAll paths = .ok places ↔
    List.Forall₂ (fun path place => Path.normalize path = .ok place) paths places := by
  rw [normalizeAll, mapM_eq_ok]
  simp only [mapError_eq_ok]

theorem normalizeAll_of_toModule {a : Addition} {source : Source} {x : Module}
    (h : a.toModule source = .ok x) :
    normalizeAll a.includes = .ok x.includes ∧ normalizeAll a.excludes = .ok x.excludes := by
  unfold toModule at h
  split_ifs at h
  obtain ⟨includes, hi, h⟩ := bind_eq_ok.1 h
  obtain ⟨excludes, he, h⟩ := bind_eq_ok.1 h
  cases h
  exact ⟨hi, he⟩

end Addition

theorem exists_covers_iff {paths places : List String}
    (h : Addition.normalizeAll paths = .ok places) (path : String) :
    (∃ base ∈ places, Path.isWithin path base = true) ↔
      ∃ given ∈ paths, ∃ base, Path.normalize given = .ok base ∧ Path.Covers base path := by
  simp only [Path.isWithin_iff]
  have each := Addition.normalizeAll_eq_ok.1 h
  constructor
  · rintro ⟨base, hbase, covers⟩
    obtain ⟨given, hgiven, normal⟩ := exists_of_mem_right each hbase
    exact ⟨given, hgiven, base, normal, covers⟩
  · rintro ⟨given, hgiven, base, normal, covers⟩
    obtain ⟨base', hbase', normal'⟩ := exists_of_mem_right each.flip hgiven
    cases normal.symm.trans normal'
    exact ⟨base, hbase', covers⟩

namespace Module

variable {x : Module} {a : Addition} {path : String}

theorem selects_iff_of_isMadeOf (h : x.IsMadeOf a) : x.Selects path ↔ a.Selects path := by
  obtain ⟨includes, excludes⟩ := Addition.normalizeAll_of_toModule h
  replace includes : Addition.normalizeAll a.includes = .ok x.includes := includes
  replace excludes : Addition.normalizeAll a.excludes = .ok x.excludes := excludes
  have none : x.includes = [] ↔ a.includes = [] := by
    rw [← List.length_eq_zero_iff, ← List.length_eq_zero_iff,
      (Addition.normalizeAll_eq_ok.1 includes).length_eq]
  have excluded := exists_covers_iff excludes path
  rw [Selects, Addition.Selects, none, exists_covers_iff includes path]
  refine and_congr_left fun _ => ?_
  simpa using not_congr excluded

theorem IsMadeOf.retargeted (h : x.IsMadeOf a) (identities : List String) :
    (x.retargeted identities).IsMadeOf a := by
  have same (isTarget : Bool) : Addition.toModule { a with isTarget := isTarget } x.source =
      (·.withTarget isTarget) <$> Addition.toModule { a with isTarget := x.isTarget } x.source := by
    unfold Addition.toModule
    split_ifs <;> try rfl
    cases Addition.normalizeAll a.includes with
    | error e => rfl
    | ok includes => cases Addition.normalizeAll a.excludes <;> rfl
  have h' : Addition.toModule { a with isTarget := x.isTarget } x.source = .ok x := h
  rw [IsMadeOf, Module.retargeted]
  exact (same _).trans (by rw [h']; rfl)

end Module

namespace Session

variable {loads : Nat → Except Error Digest} {σ σ' : Session}

theorem Step.exists_isMadeOf (h : Step loads σ σ')
    (made : ∀ s ∈ σ.sets, ∀ x ∈ s.modules, ∃ a, x.IsMadeOf a) :
    ∀ s ∈ σ'.sets, ∀ x ∈ s.modules, ∃ a, x.IsMadeOf a := by
  have added {t : ModuleSet} (new : ∀ x ∈ t.modules, ∃ a, x.IsMadeOf a) :
      ∀ s ∈ σ.sets ++ [t], ∀ x ∈ s.modules, ∃ a, x.IsMadeOf a :=
    List.forall_mem_append.2 ⟨made, List.forall_mem_singleton.2 new⟩
  cases h with
  | build parser additions hk =>
    rcases build_cases parser additions σ with ⟨t, built, -, h⟩ | ⟨e, -, -, h⟩
    · rw [h]
      refine added fun x hx => ?_
      obtain ⟨-, a, -, made⟩ := ModuleSet.exists_made_of_mem_build built hx
      exact ⟨a, made⟩
    · rwa [h]
  | @retarget s hs identities =>
    rcases retarget_cases s identities σ with ⟨t, came, h⟩ | h
    · rw [h]
      refine added fun y hy => ?_
      rw [ModuleSet.modules_of_retarget came] at hy
      obtain ⟨x, hx, rfl⟩ := List.mem_map.1 hy
      obtain ⟨a, madeOf⟩ := made s hs x hx
      exact ⟨a, madeOf.retargeted identities⟩
    · rwa [h]
  | query hx =>
    rw [after, hx.cumulative.sets_eq σ]
    exact made
  | number => exact made
  | tell record => exact made

theorem Reachable.exists_isMadeOf (h : Reachable loads σ) :
    ∀ s ∈ σ.sets, ∀ x ∈ s.modules, ∃ a, x.IsMadeOf a := by
  obtain ⟨disk, h⟩ := h
  induction h with
  | refl => simp
  | tail _ step ih => exact step.exists_isMadeOf ih

end Session

/-! ## Visits -/

theorem visitAll_of_ok {α : Type} {visit : α → Except Error Unit} {xs : List α}
    (h : ∀ a ∈ xs, visit a = .ok ()) : visitAll visit xs = (xs, .ok ()) := by
  induction xs with
  | nil => rfl
  | cons a xs ih =>
    obtain ⟨ha, hxs⟩ := List.forall_mem_cons.1 h
    rw [visitAll, ha, ih hxs]

theorem visitAll_of_error {α : Type} {visit : α → Except Error Unit} {before after : List α} {a : α}
    {e : Error} (h : ∀ b ∈ before, visit b = .ok ()) (ha : visit a = .error e) :
    visitAll visit (before ++ a :: after) = (before ++ [a], .error e) := by
  induction before with
  | nil => rw [List.nil_append, visitAll, ha, List.nil_append]
  | cons b before ih =>
    obtain ⟨hb, hbefore⟩ := List.forall_mem_cons.1 h
    rw [List.cons_append, visitAll, hb, ih hbefore, List.cons_append]

/-! ## The views -/

/-- Whether the bucket of a module lists a file at a path. -/
def Module.ListsOn (x : Module) (disk : Disk) (path : String) : Prop :=
  ∃ bucket, x.inputs.bucket.on disk = .ok bucket ∧ path ∈ (bucket.list disk).paths

/-- Whether all that a session tells of the files of a module is read off one list. A visit sees no file
twice, so that what it gives for a file may well depend on the files that it saw before. -/
structure Session.ShowsFiles (σ : Session) (x : Module) (infos : List FileInfo) : Prop where
  fileInfos : σ.outcome (x.fileInfos access) = .ok infos
  ascending : infos.Pairwise (·.path < ·.path)
  /-- The files in the list are the module files of the bucket. -/
  exists_iff (path : String) (kind : FileKind) :
    (∃ info ∈ infos, info.path = path ∧ info.kind = kind) ↔
      x.ListsOn σ.disk path ∧ FileKind.ofPath? path = some kind
  filePaths : σ.outcome (x.filePaths access) = .ok (infos.map FileInfo.path)
  protoPaths : σ.outcome (x.protoPaths access) =
    .ok ((infos.filter (·.kind = .proto)).map FileInfo.path)
  targetFileInfos : σ.outcome (x.targetFileInfos access) = .ok (infos.filter FileInfo.isTarget)
  stat {info : FileInfo} : info ∈ infos → σ.outcome (x.stat access info.path) = .ok info
  stat_unlisted {path : String} : path ∉ infos.map FileInfo.path →
    σ.outcome (x.stat access path) = .error (.fileNotFound path)
  hasProto (path : String) : σ.outcome (x.hasProto access path) =
    .ok (decide (∃ info ∈ infos, info.path = path ∧ info.kind = .proto))
  read {path : String} : path ∈ infos.map FileInfo.path →
    σ.outcome (x.read access path) = x.readOn σ.disk path
  read_unlisted {path : String} : path ∉ infos.map FileInfo.path →
    σ.outcome (x.read access path) = .error (.fileNotFound path)
  visits {visit : FileInfo → Except Error Unit} : (∀ info ∈ infos, visit info = .ok ()) →
    σ.outcome (x.visitFiles access visit) = .ok (infos, .ok ())
  visits_until {visit : FileInfo → Except Error Unit} {before after : List FileInfo}
    {info : FileInfo} {e : Error} : infos = before ++ info :: after →
      (∀ earlier ∈ before, visit earlier = .ok ()) → visit info = .error e →
        σ.outcome (x.visitFiles access visit) = .ok (before ++ [info], .error e)

namespace Module

variable {x : Module} {disk : Disk} {entries : List FileEntry}

theorem listsOn_iff_of_indexOn (h : x.indexOn disk = .ok entries) {path : String} {kind : FileKind} :
    (⟨path, kind⟩ : FileEntry) ∈ entries ↔ x.ListsOn disk path ∧ FileKind.ofPath? path = some kind := by
  obtain ⟨bucket, hb, hi⟩ := bind_eq_ok.1 h
  obtain ⟨-, rfl, -⟩ := indexOfListing_eq_ok.1 hi
  rw [mem_moduleEntries]
  refine and_congr_left fun _ => ⟨fun listed => ⟨bucket, hb, listed⟩, ?_⟩
  rintro ⟨bucket', hb', listed⟩
  cases hb.symm.trans hb'
  exact listed

end Module

theorem Module.map_path_infoOf (x : Module) (entries : List FileEntry) :
    (entries.map x.infoOf).map FileInfo.path = entries.map FileEntry.path := by
  rw [List.map_map]
  rfl

theorem Module.exists_infoOf_iff {x : Module} {entries : List FileEntry} {path : String}
    {kind : FileKind} :
    (∃ info ∈ entries.map x.infoOf, info.path = path ∧ info.kind = kind) ↔
      (⟨path, kind⟩ : FileEntry) ∈ entries := by
  constructor
  · rintro ⟨info, hinfo, rfl, rfl⟩
    obtain ⟨entry, he, rfl⟩ := List.mem_map.1 hinfo
    exact he
  · exact fun he => ⟨_, List.mem_map_of_mem he, rfl, rfl⟩

namespace Access.IsPlain

variable {io : Access (Except Error)} {disk : Disk} {sets : List ModuleSet} {x : Module}
variable {entries : List FileEntry} {path : String}
variable (h : io.IsPlain disk sets) (hx : x.indexOn disk = .ok entries)

include h hx

theorem fileInfos_eq : x.fileInfos io = .ok (entries.map x.infoOf) := by
  rw [Module.fileInfos, h.fileIndex_eq, hx, map_ok]

theorem protoPaths_eq : x.protoPaths io =
    .ok (((entries.map x.infoOf).filter (·.kind = .proto)).map FileInfo.path) := by
  rw [Module.protoPaths, h.fileIndex_eq, hx, ok_bind, List.filter_map, List.map_map]
  have same : (fun entry : FileEntry => entry.kind == FileKind.proto) =
      (fun info : FileInfo => decide (info.kind = .proto)) ∘ x.infoOf :=
    funext fun entry => Bool.beq_eq_decide_eq entry.kind .proto
  rw [same]
  rfl

theorem hasProto_eq_decide : x.hasProto io path =
    .ok (decide (∃ info ∈ entries.map x.infoOf, info.path = path ∧ info.kind = .proto)) := by
  rw [Module.hasProto, h.fileIndex_eq, hx, ok_bind, pure_eq_ok, Except.ok.injEq, Bool.eq_iff_iff,
    decide_eq_true_iff, Module.exists_infoOf_iff, List.any_eq_true]
  constructor
  · rintro ⟨⟨path', kind⟩, he, same⟩
    obtain ⟨rfl, rfl⟩ := by simpa using same
    exact he
  · exact fun he => ⟨_, he, by simp⟩

theorem stat_eq_of_mem {entry : FileEntry} (he : entry ∈ entries) :
    x.stat io entry.path = .ok (x.infoOf entry) := by
  obtain ⟨found, hfound⟩ : ∃ found, entries.find? (·.path == entry.path) = some found :=
    Option.isSome_iff_exists.1 (List.find?_isSome.2 ⟨entry, he, beq_self_eq_true entry.path⟩)
  -- no other file has its path
  have same : found = entry := by
    have path : found.path = entry.path := by simpa using List.find?_some hfound
    have distinct := (Module.pairwise_indexOn hx).imp fun less => ne_of_lt less
    exact List.inj_on_of_nodup_map (List.pairwise_map.2 distinct)
      (List.mem_of_find?_eq_some hfound) he path
  rw [Module.stat, h.fileIndex_eq, hx, ok_bind, hfound, same]
  rfl

theorem stat_eq_of_not_mem (he : path ∉ entries.map FileEntry.path) :
    x.stat io path = .error (.fileNotFound path) := by
  have none : entries.find? (·.path == path) = none := by
    rw [List.find?_eq_none]
    exact fun entry hentry same => he (List.mem_map.2 ⟨entry, hentry, by simpa using same⟩)
  rw [Module.stat, h.fileIndex_eq, hx, ok_bind, none]
  rfl

theorem read_eq_of_not_mem (he : path ∉ entries.map FileEntry.path) :
    x.read io path = .error (.fileNotFound path) := by
  have unlisted : entries.any (·.path == path) = false := by
    simpa using he
  rw [Module.read, h.fileIndex_eq, hx, ok_bind, unlisted]
  rfl

theorem visitFiles_eq (visit : FileInfo → Except Error Unit) :
    x.visitFiles io visit = .ok (visitAll visit (entries.map x.infoOf)) := by
  rw [Module.visitFiles, h.fileInfos_eq hx, map_ok]

end Access.IsPlain

namespace Session

variable {loads : Nat → Except Error Digest} {σ : Session} {s : ModuleSet} {x : Module}

theorem Reachable.showsFiles (h : Reachable loads σ) (hs : s ∈ σ.sets) (hx : x ∈ s.modules)
    {entries : List FileEntry} (hentries : x.indexOn σ.disk = .ok entries) :
    σ.ShowsFiles x (entries.map x.infoOf) where
  fileInfos := h.outcome_run_of_plain hs (.fileInfos x) hx fun _ plain => plain.fileInfos_eq hentries
  ascending := List.pairwise_map.2 (Module.pairwise_indexOn hentries)
  exists_iff path kind := by
    rw [← Module.listsOn_iff_of_indexOn hentries, Module.exists_infoOf_iff]
  filePaths := h.outcome_run_of_plain hs (.filePaths x) hx fun _ plain => by
    rw [x.map_path_infoOf]
    exact (plain.filePaths_eq x).trans (congrArg _ hentries)
  protoPaths := h.outcome_run_of_plain hs (.protoPaths x) hx fun _ plain =>
    plain.protoPaths_eq hentries
  targetFileInfos := h.outcome_run_of_plain hs (.targetFileInfos x) hx fun _ plain =>
    congrArg (List.filter FileInfo.isTarget <$> ·) (plain.fileInfos_eq hentries)
  stat {info} hinfo := by
    obtain ⟨entry, he, rfl⟩ := List.mem_map.1 hinfo
    exact h.outcome_run_of_plain hs (.stat x entry.path) hx fun _ plain =>
      plain.stat_eq_of_mem hentries he
  stat_unlisted {path} hpath := h.outcome_run_of_plain hs (.stat x path) hx fun _ plain =>
    plain.stat_eq_of_not_mem hentries (x.map_path_infoOf entries ▸ hpath)
  hasProto path := h.outcome_run_of_plain hs (.hasProto x path) hx fun _ plain =>
    plain.hasProto_eq_decide hentries
  read {path} hpath := h.outcome_run_of_plain hs (.read x path) hx fun _ plain =>
    plain.read_eq hentries (x.map_path_infoOf entries ▸ hpath)
  read_unlisted {path} hpath := h.outcome_run_of_plain hs (.read x path) hx fun _ plain =>
    plain.read_eq_of_not_mem hentries (x.map_path_infoOf entries ▸ hpath)
  visits {visit} pass := h.outcome_run_of_plain hs (.visitFiles x visit) hx fun _ plain =>
    (plain.visitFiles_eq hentries visit).trans (congrArg _ (visitAll_of_ok pass))
  visits_until {visit before after info e} split pass fails :=
    h.outcome_run_of_plain hs (.visitFiles x visit) hx fun _ plain =>
      (plain.visitFiles_eq hentries visit).trans
        (congrArg _ (split ▸ visitAll_of_error pass fails))

/-- In every session that can come about, all that is told of the files of a module whose bucket can be
listed is read off one list of its module files. A file is a target file exactly when the module is a
target, none of the paths that were excluded covers it and, if there are included ones, one of these
does. -/
theorem Reachable.files_of_isLoadable (h : Reachable loads σ) (hs : s ∈ σ.sets) (hx : x ∈ s.modules)
    (loadable : x.IsLoadable σ.disk) :
    ∃ infos, σ.ShowsFiles x infos ∧ (∃ a, x.IsMadeOf a) ∧ ∀ a, x.IsMadeOf a →
      ∀ info ∈ infos, (info.isTarget = true ↔ x.isTarget = true ∧ a.Selects info.path) := by
  obtain ⟨entries, hentries⟩ := Module.succeeds_indexOn.2 loadable
  refine ⟨_, h.showsFiles hs hx hentries, h.exists_isMadeOf s hs x hx, fun a madeOf info hinfo => ?_⟩
  obtain ⟨entry, -, rfl⟩ := List.mem_map.1 hinfo
  rw [← Module.selects_iff_of_isMadeOf madeOf]
  exact Module.isTargetPath_iff

end Session

namespace Sample

/-! A session with one module, which is restricted to a folder beside one with a longer name. -/

def restrictedAddition : Addition :=
  .ofLocal (.memory ⟨[("acme/b/skip/z.proto", ⟨#[]⟩), ("acme/b/x.proto", ⟨#[]⟩),
      ("acme/bb/y.proto", ⟨#[]⟩), ("notes.txt", ⟨#[]⟩)]⟩) "a" {
    isTarget := true
    includes := ["./acme//b"]
    excludes := ["acme/c/../b/skip"] }

theorem named_of_uncommitted : CommitId.none.isNone = false → (none : Option FullName).isSome := by
  decide

def restrictedModule : Module where
  source := ⟨0, 0⟩
  bucketId := "a"
  description := "a"
  name := none
  commit := .none
  isTarget := true
  isLocal := true
  includes := ["acme/b"]
  excludes := ["acme/b/skip"]
  inputs := restrictedAddition.inputs
  identified := .inl (by simp)
  named_of_remote := by simp
  named_of_commit := named_of_uncommitted

def restrictedSet : ModuleSet := ⟨0, parser, [restrictedModule], by decide, by decide⟩

def restrictedSession : Session :=
  ({} : Session).after (Session.build parser [restrictedAddition])

theorem isMadeOf_restricted : restrictedModule.IsMadeOf restrictedAddition := by
  have includes : Addition.normalizeAll restrictedAddition.includes = .ok ["acme/b"] :=
    Addition.normalizeAll_eq_ok.2 (.cons rfl .nil)
  have excludes : Addition.normalizeAll restrictedAddition.excludes = .ok ["acme/b/skip"] :=
    Addition.normalizeAll_eq_ok.2 (.cons rfl .nil)
  change Addition.toModule restrictedAddition ⟨0, 0⟩ = _
  rw [Addition.toModule, dif_neg (by decide), dif_neg (by decide), dif_neg (by decide), includes, ok_bind,
    excludes]
  rfl

theorem build_restricted : ModuleSet.build 0 parser [restrictedAddition] = .ok restrictedSet := by
  refine bind_eq_ok.2 ⟨[(⟨0, 0⟩, restrictedAddition)], rfl, ?_⟩
  exact bind_eq_ok.2 ⟨[restrictedModule], mapM_eq_ok.2 (.cons isMadeOf_restricted .nil), rfl⟩

theorem reachable_restrictedSession : Session.Reachable loads restrictedSession := by
  refine ⟨{}, .single (.build _ _ _ fun a ha keys given => ?_)⟩
  obtain rfl := List.mem_singleton.1 ha
  cases given

theorem isLoadable_restricted (disk : Disk) : restrictedModule.IsLoadable disk :=
  ⟨_, rfl, rfl, "acme/b/x.proto", .tail _ (.head _), by decide⟩

theorem listsOn_restricted_iff {disk : Disk} {path : String} : restrictedModule.ListsOn disk path ↔
    path ∈ ["acme/b/skip/z.proto", "acme/b/x.proto", "acme/bb/y.proto", "notes.txt"] := by
  constructor
  · rintro ⟨_, ⟨⟩, listed⟩
    exact listed
  · exact fun listed => ⟨_, rfl, listed⟩

end Sample

/-- Of the files in the sample only that under the included folder is a target file, and not the one under
the excluded folder, nor that in the folder with a longer name. -/
theorem Sample.files_restricted : ∃ infos,
    restrictedSession.ShowsFiles restrictedModule infos ∧
      ∀ info ∈ infos, (info.isTarget = true ↔ info.path = "acme/b/x.proto") := by
  have made : restrictedSet ∈ restrictedSession.sets := (Session.outcome_build (σ := {}) build_restricted).2
  obtain ⟨infos, shows, -, targets⟩ := reachable_restrictedSession.files_of_isLoadable made
    (List.mem_singleton.2 rfl) (isLoadable_restricted _)
  refine ⟨infos, shows, fun info hinfo => ?_⟩
  obtain ⟨listed, kind⟩ := (shows.exists_iff info.path info.kind).1 ⟨info, hinfo, rfl, rfl⟩
  rw [targets _ isMadeOf_restricted info hinfo,
    ← Module.selects_iff_of_isMadeOf isMadeOf_restricted]
  generalize info.path = path at listed kind ⊢
  have each := listsOn_restricted_iff.1 listed
  simp only [List.mem_cons, List.not_mem_nil, or_false] at each
  rcases each with rfl | rfl | rfl | rfl
  · decide
  · decide
  · decide
  · cases (show FileKind.ofPath? "notes.txt" = none by decide).symm.trans kind

end ProtoWorkspace
