import ProtoWorkspace.Proofs.Dependencies.Broken
import ProtoWorkspace.Proofs.ModuleDigest.Search

/-!
# Modules with the same dependencies

Two modules of one identity, perhaps in two sets and on two disks, have the same dependencies when on
every path from the first one the imports of each module lead to modules of the same identities in
both sets, or cannot be followed in either. What else there is in the sets, and in which order, is of
no importance.
-/

namespace ProtoWorkspace

open Relation

/-- What is told of a dependency: the identity of the module, and whether it is a direct one. -/
def Dependency.outline (d : Dependency) : String × Bool :=
  (d.module.identity, d.isDirect)

namespace ModuleSet

/-- Whether two modules have one identity, and Protobuf files at the same paths with the same
imports. -/
structure Alike (s s' : ModuleSet) (disk disk' : Disk) (x x' : Module) : Prop where
  identity : x.identity = x'.identity
  hasProto (path : String) : x.HasProtoOn disk path ↔ x'.HasProtoOn disk' path
  imports (path : String) : x.HasProtoOn disk path →
    s.importsOn disk x path = s'.importsOn disk' x' path

/-- Whether the modules with a Protobuf file at a path have the same identities in two sets, of which
the files can be listed in both or in neither. -/
structure SharesPath (s s' : ModuleSet) (disk disk' : Disk) (path : String) : Prop where
  loadable : s.IsLoadable disk ↔ s'.IsLoadable disk'
  right : ∀ y ∈ s.modules, y.HasProtoOn disk path →
    ∃ y' ∈ s'.modules, y.identity = y'.identity ∧ y'.HasProtoOn disk' path
  left : ∀ y' ∈ s'.modules, y'.HasProtoOn disk' path →
    ∃ y ∈ s.modules, y'.identity = y.identity ∧ y.HasProtoOn disk path

/-- Whether two modules have one identity, and their imports lead to modules of the same identities or
cannot be followed in either set. -/
structure Matches (s s' : ModuleSet) (io io' : Access (Except Error)) (x x' : Module) : Prop where
  identity : x.identity = x'.identity
  imports : SameValue (s.importedIdentities io x) (s'.importedIdentities io' x')

/-- Whether each module on a path from `x` is matched by a module of another set. -/
def IsMatched (s s' : ModuleSet) (io io' : Access (Except Error)) (x : Module) : Prop :=
  ∀ y, ReflTransGen (s.Leads io) x y → ∃ y' ∈ s'.modules, Matches s s' io io' y y'

variable {s s' : ModuleSet} {io io' : Access (Except Error)} {disk disk' : Disk}
variable {sets sets' : List ModuleSet} {x x' y y' z z' : Module} {path imported : String}

theorem Matches.symm (h : Matches s s' io io' x x') : Matches s' s io' io x' x :=
  ⟨h.identity.symm, h.imports.symm⟩

/-! ## The same imports -/

namespace SharesPath

variable (h : SharesPath s s' disk disk' path)

include h

theorem symm : SharesPath s' s disk' disk path :=
  ⟨h.loadable.symm, h.left, h.right⟩

theorem isProvided (hp : s.IsProvided disk path) : s'.IsProvided disk' path := by
  obtain ⟨y, hy, hpy⟩ := hp
  obtain ⟨y', hy', -, hpy'⟩ := h.right y hy hpy
  exact ⟨y', hy', hpy'⟩

theorem exists_isOnlyProvider (hy : s.IsOnlyProvider disk path y) :
    ∃ y', s'.IsOnlyProvider disk' path y' ∧ y.identity = y'.identity := by
  obtain ⟨hy, hp, only⟩ := hy
  obtain ⟨y', hy', same, hp'⟩ := h.right y hy hp
  refine ⟨y', ⟨hy', hp', fun z' hz' hpz' => ?_⟩, same⟩
  obtain ⟨z, hz, same', hpz⟩ := h.left z' hz' hpz'
  obtain rfl := only z hz hpz
  exact eq_of_identity hz' hy' (same'.trans same)

end SharesPath

/-- Where an import leads: to the only module with its file, unless that is the importing module. -/
theorem importTarget_eq_ok (h : io.IsPlain disk sets) {target : Option Module} :
    s.importTarget io x path imported = .ok target ↔ s.IsLoadable disk ∧
      ((∃ y, s.IsOnlyProvider disk imported y ∧
          target = if y.identity = x.identity then none else some y) ∨
        ¬ s.IsProvided disk imported ∧ imported ∈ Imports.wellKnown ∧ target = none) := by
  rw [importTarget_eq]
  by_cases hl : s.IsLoadable disk
  · rw [and_iff_right hl]
    rcases provider_cases h hl imported with ⟨hp, hnone⟩ | ⟨y, hp, honly⟩ | ⟨⟨e, hp⟩, hsome, hnot⟩
    · have no : ¬ ∃ y, s.IsOnlyProvider disk imported y ∧
          target = if y.identity = x.identity then none else some y := by
        rintro ⟨y, ⟨hy, hpy, -⟩, -⟩
        exact hnone ⟨y, hy, hpy⟩
      rw [hp, Fallible.ok_bind, targetOf, or_iff_right no, and_iff_right hnone]
      by_cases hw : imported ∈ Imports.wellKnown
      · simp [hw, h.note_eq, eq_comm]
      · simp [hw]
    · have provided : s.IsProvided disk imported := ⟨y, honly.1, honly.2.1⟩
      rw [hp, Fallible.ok_bind, targetOf, or_iff_left fun h => h.1 provided]
      constructor
      · intro htarget
        exact ⟨y, honly, (Except.ok.inj htarget).symm⟩
      · rintro ⟨z, ⟨hz, hpz, -⟩, rfl⟩
        rw [honly.2.2 z hz hpz]
        rfl
    · rw [hp, Fallible.error_bind]
      refine iff_of_false (by simp) ?_
      rintro (⟨y, hy, -⟩ | ⟨hnone, -⟩)
      · exact hnot y hy
      · exact hnone hsome
  · refine iff_of_false (fun htarget => hl ?_) fun h => hl h.1
    obtain ⟨provider, hprovider, -⟩ := Fallible.bind_eq_ok.1 htarget
    exact isLoadable_of_provider h ⟨provider, hprovider⟩

section Lookups

variable (h : io.IsPlain disk sets) (h' : io'.IsPlain disk' sets')

include h h'

theorem SharesPath.importTarget_eq_ok (shares : SharesPath s s' disk disk' imported)
    (same : x.identity = x'.identity) {target : Option Module}
    (htarget : s.importTarget io x path imported = .ok target) :
    ∃ target', s'.importTarget io' x' path imported = .ok target' ∧
      target'.map Module.identity = target.map Module.identity := by
  rw [ModuleSet.importTarget_eq_ok h, shares.loadable] at htarget
  obtain ⟨loadable, ⟨y, only, rfl⟩ | ⟨hnone, known, rfl⟩⟩ := htarget
  · obtain ⟨y', only', sameY⟩ := shares.exists_isOnlyProvider only
    refine ⟨_, (ModuleSet.importTarget_eq_ok h').2 ⟨loadable, .inl ⟨y', only', rfl⟩⟩, ?_⟩
    rw [← same, ← sameY]
    split <;> simp [sameY]
  · refine ⟨none, (ModuleSet.importTarget_eq_ok h').2 ⟨loadable, .inr ⟨?_, known, rfl⟩⟩, rfl⟩
    exact fun provided => hnone (shares.symm.isProvided provided)

theorem SharesPath.sameValue_importTarget (shares : SharesPath s s' disk disk' imported)
    (same : x.identity = x'.identity) :
    SameValue (Option.map Module.identity <$> s.importTarget io x path imported)
      (Option.map Module.identity <$> s'.importTarget io' x' path imported) := by
  intro identity
  rw [Fallible.map_eq_ok, Fallible.map_eq_ok]
  constructor
  · rintro ⟨target, htarget, rfl⟩
    exact shares.importTarget_eq_ok h h' same htarget
  · rintro ⟨target', htarget', rfl⟩
    exact shares.symm.importTarget_eq_ok h' h same.symm htarget'

omit h h' in
/-- Of the modules to which the imports of a file lead only the identities are used. -/
theorem importedByFile_eq (s : ModuleSet) (io : Access (Except Error)) (x : Module)
    (path : String) : s.importedByFile io x path = (do
      let imports ← s.importsOf io x path
      let targets ← imports.mapM fun imported =>
        Option.map Module.identity <$> s.importTarget io x path imported
      return targets.filterMap (·)) := by
  rw [importedByFile]
  refine congrArg _ (funext fun imports => ?_)
  rw [Fallible.mapM_map]
  cases imports.mapM (s.importTarget io x path) with
  | error e => rfl
  | ok targets =>
    rw [Fallible.map_ok, Fallible.ok_bind, Fallible.ok_bind, List.filterMap_map, List.map_filterMap]
    rfl

/-- Modules with the same imports match when the imported paths are shared. -/
theorem Matches.of_alike (alike : Alike s s' disk disk' x x')
    (loadable : x.IsLoadable disk ↔ x'.IsLoadable disk')
    (reads : x.IsLoadable disk → ∀ path, x.HasProtoOn disk path →
      s.importsOf io x path = s.importsOn disk x path)
    (reads' : x'.IsLoadable disk' → ∀ path, x'.HasProtoOn disk' path →
      s'.importsOf io' x' path = s'.importsOn disk' x' path)
    (shares : ∀ path imports, x.HasProtoOn disk path → s.importsOn disk x path = .ok imports →
      ∀ imported ∈ imports, SharesPath s s' disk disk' imported) : Matches s s' io io' x x' where
  identity := alike.identity
  imports := by
    refine (h.sameValue_protoPaths h' loadable alike.hasProto).bind fun paths hpaths => ?_
    have hl := h.succeeds_protoPaths.1 ⟨paths, hpaths⟩
    have perFile : ∀ path ∈ paths,
        SameValue (s.importedByFile io x path) (s'.importedByFile io' x' path) := by
      intro path hpath
      have hp := (h.mem_protoPaths hpaths).1 hpath
      rw [importedByFile_eq, importedByFile_eq, reads hl path hp,
        reads' (loadable.1 hl) path ((alike.hasProto path).1 hp), ← alike.imports path hp]
      refine (SameValue.refl _).bind fun imports himports => ?_
      have targets : List.Forall₂ (fun imported imported' =>
          SameValue (Option.map Module.identity <$> s.importTarget io x path imported)
            (Option.map Module.identity <$> s'.importTarget io' x' path imported'))
          imports imports :=
        List.forall₂_same.2 fun imported himported =>
          (shares path imports hp himports imported himported).sameValue_importTarget h h'
            alike.identity
      exact (SameValue.mapM targets).bind fun _ _ => SameValue.refl _
    exact (SameValue.mapM (List.forall₂_same.2 perFile)).bind fun _ _ => SameValue.refl _

end Lookups

/-! ## The same dependencies -/

theorem Matches.leads_iff (h : Matches s s' io io' x x') (hy : y ∈ s.modules)
    (hy' : y' ∈ s'.modules) (same : y.identity = y'.identity) :
    s.Leads io x y ↔ s'.Leads io' x' y' := by
  rw [Leads, Leads, and_iff_right hy, and_iff_right hy', same]
  exact exists_congr fun found => and_congr_left' (h.imports found)

theorem mem_modules_of_leads_path (hx : x ∈ s.modules) (path : ReflTransGen (s.Leads io) x y) :
    y ∈ s.modules := by
  cases path with
  | refl => exact hx
  | tail _ step => exact step.1

/-- What imports lead to are modules of the set. -/
theorem exists_mem_identity (h : io.IsPlain disk sets) {found : List String}
    (hfound : s.importedIdentities io x = .ok found) {identity : String} (hid : identity ∈ found) :
    s.IsLoadable disk ∧ ∃ y ∈ s.modules, y.identity = identity := by
  obtain ⟨imported, y, hprovider, hid, -⟩ := exists_provider_of_mem hfound hid
  have hl : s.IsLoadable disk := isLoadable_of_provider h ⟨_, hprovider⟩
  refine ⟨hl, y, ?_, hid⟩
  rcases provider_cases h hl imported with ⟨hp, -⟩ | ⟨z, hp, only⟩ | ⟨⟨e, hp⟩, -⟩
  · rw [hprovider] at hp
    cases hp
  · rw [hprovider] at hp
    cases hp
    exact only.1
  · rw [hprovider] at hp
    cases hp

namespace IsMatched

variable (m : IsMatched s s' io io' x)

include m

theorem of_path (path : ReflTransGen (s.Leads io) x y) : IsMatched s s' io io' y :=
  fun z path' => m z (path.trans path')

theorem to_matches (path : ReflTransGen (s.Leads io) x y) (hy' : y' ∈ s'.modules)
    (same : y.identity = y'.identity) : Matches s s' io io' y y' := by
  obtain ⟨z', hz', matched⟩ := m y path
  obtain rfl := eq_of_identity hz' hy' (matched.identity.symm.trans same)
  exact matched

variable (hx' : x' ∈ s'.modules) (same : x.identity = x'.identity)

include hx' same

/-- A path in the one set has its counterpart in the other. -/
theorem exists_path (path : ReflTransGen (s.Leads io) x y) :
    ∃ y' ∈ s'.modules, y.identity = y'.identity ∧ ReflTransGen (s'.Leads io') x' y' := by
  induction path with
  | refl => exact ⟨x', hx', same, .refl⟩
  | tail before step ih =>
    obtain ⟨z', hz', sameZ, before'⟩ := ih
    obtain ⟨y', hy', matched⟩ := m _ (before.tail step)
    refine ⟨y', hy', matched.identity, before'.tail ?_⟩
    exact ((m.to_matches before hz' sameZ).leads_iff step.1 hy' matched.identity).1 step

/-- The converse: the modules on paths from the counterpart are counterparts. -/
theorem exists_path_symm (h : io.IsPlain disk sets) (hx : x ∈ s.modules)
    (path : ReflTransGen (s'.Leads io') x' y') :
    ∃ y ∈ s.modules, y.identity = y'.identity ∧ ReflTransGen (s.Leads io) x y := by
  induction path with
  | refl => exact ⟨x, hx, same, .refl⟩
  | tail before' step ih =>
    obtain ⟨z, hz, sameZ, before⟩ := ih
    have matched := m.to_matches before (mem_modules_of_leads_path hx' before') sameZ
    obtain ⟨hy', found, hfound, hid⟩ := id step
    obtain ⟨-, y, hy, sameY⟩ := exists_mem_identity h ((matched.imports found).2 hfound) hid
    exact ⟨y, hy, sameY, before.tail ((matched.leads_iff hy hy' sameY).2 step)⟩

theorem symm (h : io.IsPlain disk sets) (hx : x ∈ s.modules) : IsMatched s' s io' io x' := by
  intro y' path'
  obtain ⟨y, hy, sameY, path⟩ := m.exists_path_symm hx' same h hx path'
  exact ⟨y, hy, (m.to_matches path (mem_modules_of_leads_path hx' path') sameY).symm⟩

variable (h : io.IsPlain disk sets) (h' : io'.IsPlain disk' sets') (hx : x ∈ s.modules)

include h h' hx

theorem succeeds_dependencies (hs : Succeeds (s.dependencies io x)) :
    Succeeds (s'.dependencies io' x') := by
  rw [succeeds_dependencies_iff h hx] at hs
  rw [succeeds_dependencies_iff h' hx']
  intro y' path'
  obtain ⟨y, -, sameY, path⟩ := m.exists_path_symm hx' same h hx path'
  have matched := m.to_matches path (mem_modules_of_leads_path hx' path') sameY
  exact matched.imports.succeeds_iff.1 (hs y path)

theorem hasDependency (hy' : y' ∈ s'.modules) (sameY : y.identity = y'.identity)
    (hd : s.HasDependency io x y) : s'.HasDependency io' x' y' := by
  have hy := hd.mem_modules h hx
  obtain ⟨hs, hne, path⟩ := (hasDependency_iff h hx).1 hd
  refine (hasDependency_iff h' hx').2
    ⟨m.succeeds_dependencies hx' same h h' hx hs, fun same' => hne ?_, ?_⟩
  · exact eq_of_identity hy hx (sameY.trans (same' ▸ same.symm))
  · obtain ⟨z, before, step⟩ := TransGen.tail'_iff.1 path
    obtain ⟨z', hz', sameZ, before'⟩ := m.exists_path hx' same before
    exact TransGen.tail' before' (((m.to_matches before hz' sameZ).leads_iff hy hy' sameY).1 step)

/-- The counterpart of a dependency is a dependency of the counterpart. -/
theorem exists_dependency {ds ds' : List Dependency} (hds : s.dependencies io x = .ok ds)
    (hds' : s'.dependencies io' x' = .ok ds') {d : Dependency} (hd : d ∈ ds) :
    ∃ d' ∈ ds', d'.outline = d.outline := by
  have hxd := hasDependency_of_mem hds hd
  obtain ⟨-, path, direct⟩ := (mem_dependencies_iff h hx hds d).1 hd
  obtain ⟨y', hy', sameY, -⟩ := m.exists_path hx' same path.to_reflTransGen
  obtain ⟨d', hd', rfl⟩ := (m.hasDependency hx' same h h' hx hy' sameY hxd).exists_mem hds'
  obtain ⟨-, -, direct'⟩ := (mem_dependencies_iff h' hx' hds' d').1 hd'
  have matched := m.to_matches .refl hx' same
  refine ⟨d', hd', Prod.ext sameY.symm ?_⟩
  rw [Dependency.outline, Dependency.outline, Bool.eq_iff_iff, direct, direct',
    matched.leads_iff (hxd.mem_modules h hx) hy' sameY]

/-- Matched modules have the same dependencies, of which the same are direct. -/
theorem sameValue_dependencies :
    SameValue (List.map Dependency.outline <$> s.dependencies io x)
      (List.map Dependency.outline <$> s'.dependencies io' x') := by
  have m' := m.symm hx' same h hx
  have equal : ∀ ds ds', s.dependencies io x = .ok ds → s'.dependencies io' x' = .ok ds' →
      ds.map Dependency.outline = ds'.map Dependency.outline := by
    intro ds ds' hds hds'
    have antisymm : Std.Antisymm fun p q : String × Bool => p.1 < q.1 :=
      ⟨fun p q hpq hqp => absurd hpq (not_lt_of_gt hqp)⟩
    have irrefl : Std.Irrefl fun p q : String × Bool => p.1 < q.1 :=
      ⟨fun p => lt_irrefl p.1⟩
    have sorted : (ds.map Dependency.outline).Pairwise (·.1 < ·.1) :=
      List.pairwise_map.2 (pairwise_dependencies h hx hds)
    have sorted' : (ds'.map Dependency.outline).Pairwise (·.1 < ·.1) :=
      List.pairwise_map.2 (pairwise_dependencies h' hx' hds')
    refine sorted.eq_of_mem_iff sorted' fun outline => ?_
    rw [List.mem_map, List.mem_map]
    constructor
    · rintro ⟨d, hd, rfl⟩
      exact m.exists_dependency hx' same h h' hx hds hds' hd
    · rintro ⟨d', hd', rfl⟩
      exact m'.exists_dependency hx same.symm h' h hx' hds' hds hd'
  intro outlines
  rw [Fallible.map_eq_ok, Fallible.map_eq_ok]
  constructor
  · rintro ⟨ds, hds, rfl⟩
    obtain ⟨ds', hds'⟩ := m.succeeds_dependencies hx' same h h' hx ⟨ds, hds⟩
    exact ⟨ds', hds', (equal ds ds' hds hds').symm⟩
  · rintro ⟨ds', hds', rfl⟩
    obtain ⟨ds, hds⟩ := m'.succeeds_dependencies hx same.symm h' h hx' ⟨ds', hds'⟩
    exact ⟨ds, hds, equal ds ds' hds hds'⟩

/-- Dependencies of matched modules stand at the same places. -/
theorem forall₂_dependencies {ds ds' : List Dependency} (hds : s.dependencies io x = .ok ds)
    (hds' : s'.dependencies io' x' = .ok ds') :
    List.Forall₂ (fun d d' => d.module.identity = d'.module.identity) ds ds' := by
  have outlines := (m.sameValue_dependencies hx' same h h' hx (ds.map Dependency.outline)).1
    (by rw [hds]; rfl)
  rw [hds', Fallible.map_ok] at outlines
  have identities := congrArg (List.map Prod.fst) (Except.ok.inj outlines)
  rw [List.map_map, List.map_map, ← List.forall₂_eq_eq_eq, List.forall₂_map_left_iff,
    List.forall₂_map_right_iff] at identities
  exact identities.flip.imp fun _ _ => Eq.symm

end IsMatched

end ModuleSet

end ProtoWorkspace
