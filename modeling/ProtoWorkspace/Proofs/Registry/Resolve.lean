import ProtoWorkspace.Proofs.Access.Table
import ProtoWorkspace.Proofs.Registry.History

/-!
# Resolving what was published

From the key of a published module a set can be made of the module and its dependencies, at any time
later. The module in it is remote, so that its digests are found in another way than those of the
local module: from the keys that it was published with, in the order of their names. They are the
same, because the dependencies of the local module stand in that order too, and because the table of
its files gives the same files again.
-/

namespace ProtoWorkspace

open Relation Fallible

/-- What is delivered for a key at which something is stored. -/
def StoredCommit.dataFor (stored : StoredCommit) (key : ModuleKey) : ModuleData :=
  ⟨key, Bucket.memory stored.files, stored.dependencies, stored.yaml, stored.lock⟩

/-- The digest that is stored for a module. -/
def StoredCommit.digest (stored : StoredCommit) : DigestType → Digest
  | .b4 => stored.b4
  | .b5 => stored.b5

theorem Provider.distinctKeys_of_pairwise {keys : List ModuleKey}
    (h : keys.Pairwise (·.name ≠ ·.name)) : distinctKeys keys = keys := by
  have kept : ∀ before rest : List ModuleKey, (before ++ rest).Pairwise (·.name ≠ ·.name) →
      rest.foldl (fun kept key => if kept.any (·.isSame key) then kept else kept ++ [key]) before =
        before ++ rest := by
    intro before rest
    induction rest generalizing before with
    | nil => simp
    | cons key rest ih =>
      intro h
      have other : ¬ before.any (·.isSame key) = true := by
        intro hany
        obtain ⟨key', hkey', same⟩ := List.any_eq_true.1 hany
        obtain ⟨same, -⟩ := by simpa [ModuleKey.isSame] using same
        exact (List.pairwise_append.1 h).2.2 key' hkey' key List.mem_cons_self same
      rw [List.append_cons] at h
      rw [List.foldl_cons, if_neg other, ih _ h, ← List.append_cons]
  exact kept [] keys h

namespace Registry

variable {r r' : Registry} {key : ModuleKey} {stored : StoredCommit}

theorem data_eq_ok {d : ModuleData} : r.data key = .ok d ↔
    ∃ stored, r.stored? key.name key.commit = some stored ∧ d = stored.dataFor key := by
  rw [data, bind_eq_ok]
  refine exists_congr fun stored => and_congr find_eq_ok ?_
  rw [pure_eq_ok, Except.ok.injEq]
  exact eq_comm

/-- What is delivered for keys is added under the names of the keys. -/
theorem map_name_additionOf {keys : List ModuleKey} {datas : List ModuleData}
    (h : keys.mapM r.data = .ok datas) (isTarget : Bool) :
    (datas.map (Provider.additionOf isTarget)).map Addition.name = keys.map (some ·.name) := by
  rw [List.map_map]
  refine (map_eq_map_of_forall₂ ((mapM_eq_ok.1 h).imp fun key d hdata => ?_)).symm
  obtain ⟨stored, -, rfl⟩ := data_eq_ok.1 hdata
  rfl

/-- The keys of the dependencies that the modules at the given keys were published with. -/
def dependencyKeys (r : Registry) (keys : List ModuleKey) : List ModuleKey :=
  keys.flatMap fun key =>
    ((r.stored? key.name key.commit).map StoredCommit.dependencies).getD []

theorem flatMap_dependencies {datas : List ModuleData} (h : keys.mapM r.data = .ok datas) :
    datas.flatMap ModuleData.dependencies = r.dependencyKeys keys := by
  have delivered := mapM_eq_ok.1 h
  clear h
  induction delivered with
  | nil => rfl
  | @cons key d keys datas hd _ ih =>
    obtain ⟨stored, hstored, rfl⟩ := data_eq_ok.1 hd
    rw [List.flatMap_cons, ih, dependencyKeys, dependencyKeys, List.flatMap_cons, hstored]
    rfl

/-- What is made of keys: their modules as targets, and the dependencies that these were published
with, once for each name and commit. -/
theorem additions_of_datas {keys : List ModuleKey} {datas : List ModuleData}
    (h : keys.mapM r.data = .ok datas) :
    r.provider.additions keys = (fun others => datas.map (Provider.additionOf true) ++
      others.map (Provider.additionOf false)) <$>
        (Provider.distinctKeys (r.dependencyKeys keys)).mapM r.data := by
  have delivered : r.provider.datas keys = .ok datas := h
  rw [Provider.additions, delivered, ok_bind, flatMap_dependencies h]
  dsimp only
  by_cases hnone : (Provider.distinctKeys (r.dependencyKeys keys)).isEmpty = true
  · rw [List.isEmpty_iff.1 hnone]
    rfl
  · rw [if_neg hnone]
    change List.mapM r.data _ >>= _ = _
    cases (Provider.distinctKeys (r.dependencyKeys keys)).mapM r.data <;> rfl

/-- What is made of one key: its module, and the dependencies that it was published with. -/
theorem additions_eq (h : r.stored? key.name key.commit = some stored)
    (hnames : stored.dependencies.Pairwise (·.name ≠ ·.name)) :
    r.provider.additions [key] = (fun others => Provider.additionOf true (stored.dataFor key) ::
      others.map (Provider.additionOf false)) <$> stored.dependencies.mapM r.data := by
  have delivered : [key].mapM r.data = .ok [stored.dataFor key] := by
    rw [List.mapM_cons, data_eq_ok.2 ⟨stored, h, rfl⟩]
    rfl
  have dependencies : r.dependencyKeys [key] = stored.dependencies := by
    rw [dependencyKeys, List.flatMap_singleton, h]
    rfl
  rw [additions_of_datas delivered, dependencies, Provider.distinctKeys_of_pairwise hnames]
  rfl

/-- A registry that has a module and the dependencies it was published with delivers them all. -/
theorem additions_eq_ok (h : r.stored? key.name key.commit = some stored)
    (hdeps : ∀ key' ∈ stored.dependencies, ∃ other, r.stored? key'.name key'.commit = some other)
    (hnames : stored.dependencies.Pairwise (·.name ≠ ·.name)) :
    ∃ others, stored.dependencies.mapM r.data = .ok others ∧
      r.provider.additions [key] = .ok
        (Provider.additionOf true (stored.dataFor key) ::
          others.map (Provider.additionOf false)) := by
  obtain ⟨others, hothers⟩ := succeeds_mapM.2 fun key' hkey' => by
    obtain ⟨other, hother⟩ := hdeps key' hkey'
    exact ⟨_, data_eq_ok.2 ⟨other, hother, rfl⟩⟩
  refine ⟨others, hothers, ?_⟩
  rw [additions_eq h hnames, hothers]
  rfl

/-- Whether a registry has a module at its commit, if the module has one. -/
def Has (r : Registry) (x : Module) : Prop :=
  x.commit.isNone = true ∨
    ∃ name stored, x.name = some name ∧ r.stored? name x.commit = some stored

/-! ## What a snapshot tells -/

namespace IsSnapshot

variable {s : ModuleSet} {io : Access (Except Error)} {x : Module} {disk : Disk}
variable {sets : List ModuleSet} {ds : List Dependency}

theorem forall₂_pinnedKey (hsnap : r.IsSnapshot s io x stored) (hds : s.dependencies io x = .ok ds) :
    List.Forall₂ (fun d key => r.pinnedKey s io d = .ok key) ds stored.dependencies := by
  obtain ⟨ds', hds', keys⟩ := hsnap.dependencies
  rw [hds] at hds'
  cases hds'
  exact keys

theorem names_eq (hsnap : r.IsSnapshot s io x stored) (hds : s.dependencies io x = .ok ds) :
    ds.map (·.module.name) = stored.dependencies.map (some ·.name) :=
  map_eq_map_of_forall₂
    ((hsnap.forall₂_pinnedKey hds).imp fun _ _ hkey => (pinnedKey_eq_ok.1 hkey).1)

theorem pairwise_dependencies (h : io.IsPlain disk sets) (hx : x ∈ s.modules)
    (hsnap : r.IsSnapshot s io x stored) :
    stored.dependencies.Pairwise (·.name.text < ·.name.text) := by
  obtain ⟨ds, hds, keys⟩ := hsnap.dependencies
  have sorted := ModuleSet.pairwise_dependencies h hx hds
  have texts : ds.map (·.module.identity) = stored.dependencies.map (·.name.text) :=
    map_eq_map_of_forall₂
      (keys.imp fun _ _ hkey => Module.identity_of_name (pinnedKey_eq_ok.1 hkey).1)
  rw [← List.pairwise_map, ← texts]
  exact List.pairwise_map.2 sorted

theorem pairwise_name_ne (h : io.IsPlain disk sets) (hx : x ∈ s.modules)
    (hsnap : r.IsSnapshot s io x stored) : stored.dependencies.Pairwise (·.name ≠ ·.name) := by
  refine (hsnap.pairwise_dependencies h hx).imp fun lt same => ?_
  rw [same] at lt
  exact lt_irrefl _ lt

theorem name_ne (h : io.IsPlain disk sets) (hx : x ∈ s.modules)
    (hsnap : r.IsSnapshot s io x stored) {key : ModuleKey} (hkey : key ∈ stored.dependencies) :
    key.name ≠ stored.name := by
  obtain ⟨ds, hds, keys⟩ := hsnap.dependencies
  obtain ⟨d, hd, hpin⟩ := exists_of_mem_right keys hkey
  have hxd := ModuleSet.hasDependency_of_mem hds hd
  intro same
  refine hxd.ne h hx (ModuleSet.eq_of_identity (hxd.mem_modules h hx) hx ?_)
  rw [Module.identity_of_name (pinnedKey_eq_ok.1 hpin).1, same,
    Module.identity_of_name hsnap.name]

/-- What a module keeps as dependencies is in the registry, if this has those dependencies that have
commits of their own. -/
theorem exists_stored? (hr : r.IsConsistent) (hsnap : r.IsSnapshot s io x stored)
    (hds : s.dependencies io x = .ok ds) (hpinned : ∀ d ∈ ds, r.Has d.module)
    {key : ModuleKey} (hkey : key ∈ stored.dependencies) :
    ∃ other, r.stored? key.name key.commit = some other := by
  obtain ⟨d, hd, hpin⟩ := exists_of_mem_right (hsnap.forall₂_pinnedKey hds) hkey
  obtain ⟨hname, digest, -, hpin, -⟩ := pinnedKey_eq_ok.1 hpin
  rcases pin_eq_ok.1 hpin with ⟨hcommit, same⟩ | ⟨-, hlabel, -⟩
  · rcases hpinned d hd with hnone | ⟨name, other, hname', hother⟩
    · rw [hcommit] at hnone
      cases hnone
    · rw [hname] at hname'
      cases hname'
      exact ⟨other, same ▸ hother⟩
  · exact hr.labels hlabel

theorem digest_published (hsnap : r.IsSnapshot s io x stored) (type : DigestType) :
    s.digest io x type = .ok (stored.digest type) := by
  cases type with
  | b4 => exact hsnap.b4
  | b5 => exact hsnap.b5

/-! ## Digests of resolved modules -/

section Resolved

variable {t : ModuleSet} {y : Module} {isTarget : Bool}

theorem contents_eq (h : io.IsPlain disk sets) (hsnap : r.IsSnapshot s io x stored)
    (hy : y.inputs = (Provider.additionOf isTarget (stored.dataFor key)).inputs) :
    y.contents io = x.contents io := by
  obtain ⟨files, hfiles, htable⟩ := hsnap.files
  rw [hfiles, h.contents_eq]
  rw [h.contents_eq] at hfiles
  refine Module.contentsOn_of_bucket hfiles ?_
  rw [hy, ← htable]
  rfl

theorem b4_eq (h : io.IsPlain disk sets) (hsnap : r.IsSnapshot s io x stored)
    (hy : y.inputs = (Provider.additionOf isTarget (stored.dataFor key)).inputs) :
    t.digest io y .b4 = s.digest io x .b4 := by
  have yaml : y.yaml io = x.yaml io := by
    rw [hsnap.yaml, h.yaml_eq, hy]
    rfl
  have lock : y.lock io = x.lock io := by
    rw [hsnap.lock, h.lock_eq, hy]
    rfl
  rw [ModuleSet.digest_b4_eq h, ModuleSet.digest_b4_eq h, yaml, lock, hsnap.contents_eq h hy]

theorem b5_eq (h : io.IsPlain disk sets) (hx : x ∈ s.modules) (hl : x.isLocal = true)
    (hsnap : r.IsSnapshot s io x stored) (hyl : y.isLocal = false)
    (hy : y.inputs = (Provider.additionOf isTarget (stored.dataFor key)).inputs) :
    t.digest io y .b5 = s.digest io x .b5 := by
  obtain ⟨ds, hds, keys⟩ := hsnap.dependencies
  have declared : y.declaredKeys io = .ok stored.dependencies := by
    rw [h.declaredKeys_eq, hy]
    rfl
  have sorted : sortedByName stored.dependencies = stored.dependencies :=
    List.mergeSort_of_pairwise
      ((hsnap.pairwise_dependencies h hx).imp fun lt => decide_eq_true lt.le)
  have digests : (ds.mapM fun d => s.digest io d.module .b5) =
      stored.dependencies.mapM (t.keyDigest io) := by
    refine mapM_eq_mapM (keys.imp fun d key hpin => ?_)
    obtain ⟨-, digest, hdigest, -, horigin⟩ := pinnedKey_eq_ok.1 hpin
    rw [hdigest, ModuleSet.keyDigest, ModuleKey.digestBy, horigin]
    rfl
  have found := hsnap.b5
  rw [ModuleSet.digest_eq_of_isLocal h hx hl, hds, ok_bind] at found
  obtain ⟨_, hcheck, -⟩ := bind_eq_ok.1 found
  rw [ModuleSet.digest_eq_of_not_isLocal h hyl, declared, ok_bind, sorted, ← digests,
    hsnap.contents_eq h hy, ModuleSet.digest_eq_of_isLocal h hx hl, hds, ok_bind, hcheck, ok_bind]

theorem digest_resolved (h : io.IsPlain disk sets) (hx : x ∈ s.modules) (hl : x.isLocal = true)
    (hsnap : r.IsSnapshot s io x stored) (hyl : y.isLocal = false)
    (hy : y.inputs = (Provider.additionOf isTarget (stored.dataFor key)).inputs)
    (type : DigestType) : t.digest io y type = .ok (stored.digest type) := by
  cases type with
  | b4 => exact (hsnap.b4_eq h hy).trans hsnap.b4
  | b5 => exact (hsnap.b5_eq h hx hl hyl hy).trans hsnap.b5

end Resolved

end IsSnapshot

/-- Whether a set is made of a module, as the target at the commit of a key, and of its dependencies,
all of them remote. -/
structure IsResolution (t : ModuleSet) (key : ModuleKey) (x : Module) (ds : List Dependency)
    (y : Module) : Prop where
  modules : ∃ rest, t.modules = y :: rest ∧ rest.map Module.name = ds.map (·.module.name) ∧
    ∀ z ∈ rest, z.isLocal = false ∧ z.isTarget = false
  name : y.name = x.name
  commit : y.commit = key.commit
  isLocal : y.isLocal = false
  isTarget : y.isTarget = true

/-- Whether a module is made of what a registry has at a key. -/
def IsDelivered (r : Registry) (isTarget : Bool) (key : ModuleKey) (y : Module) : Prop :=
  ∃ stored source, r.stored? key.name key.commit = some stored ∧
    (Provider.additionOf isTarget (stored.dataFor key)).toModule source = .ok y

/-- What a registry delivers for a key, when it has the dependencies that were kept, makes a set of
the module and these dependencies. -/
theorem build_of_additions (h : r.stored? key.name key.commit = some stored)
    (hdeps : ∀ key' ∈ stored.dependencies, ∃ other, r.stored? key'.name key'.commit = some other)
    (hnames : stored.dependencies.Pairwise (·.name ≠ ·.name))
    (hne : ∀ key' ∈ stored.dependencies, key'.name ≠ key.name) :
    ∃ additions, r.provider.additions [key] = .ok additions ∧
      (∀ a ∈ additions, ∃ key' other isTarget, r.stored? key'.name key'.commit = some other ∧
        a = Provider.additionOf isTarget (other.dataFor key')) ∧
      ∀ number parser, ∃ t y rest, ModuleSet.build number parser additions = .ok t ∧
        t.modules = y :: rest ∧ r.IsDelivered true key y ∧
        List.Forall₂ (r.IsDelivered false) stored.dependencies rest := by
  obtain ⟨others, hothers, hadditions⟩ := additions_eq_ok h hdeps hnames
  refine ⟨_, hadditions, ?_, fun number parser => ?_⟩
  · intro a ha
    rcases List.mem_cons.1 ha with rfl | ha
    · exact ⟨key, stored, true, h, rfl⟩
    · obtain ⟨d, hd, rfl⟩ := List.mem_map.1 ha
      obtain ⟨key', -, hdata⟩ := exists_of_mem_mapM hothers hd
      obtain ⟨other, hother, rfl⟩ := data_eq_ok.1 hdata
      exact ⟨key', other, false, hother, rfl⟩
  · have names := map_name_additionOf hothers false
    have different : ((Provider.additionOf true (stored.dataFor key) ::
        others.map (Provider.additionOf false)).map Addition.name).Nodup := by
      rw [List.map_cons, names]
      refine List.nodup_cons.2 ⟨fun hmem => ?_, ?_⟩
      · obtain ⟨key', hkey', same⟩ := List.mem_map.1 hmem
        exact hne key' hkey' (Option.some.inj same)
      · exact List.pairwise_map.2 (hnames.imp fun hne same => hne (Option.some.inj same))
    have remote : ∀ a ∈ Provider.additionOf true (stored.dataFor key) ::
        others.map (Provider.additionOf false),
          ∃ key' inputs isTarget, a = .ofRemote key' inputs isTarget := by
      intro a ha
      rcases List.mem_cons.1 ha with rfl | ha
      · exact ⟨_, _, _, rfl⟩
      · obtain ⟨d, -, rfl⟩ := List.mem_map.1 ha
        exact ⟨_, _, _, rfl⟩
    obtain ⟨t, ht, made⟩ := ModuleSet.build_ofRemote remote different
    obtain ⟨y, rest, hy, hrest, modules⟩ := List.forall₂_cons_left_iff.1 made
    obtain ⟨source, hy⟩ := hy
    refine ⟨t, y, rest, ht, modules, ⟨stored, source, h, hy⟩, ?_⟩
    rw [List.forall₂_map_left_iff] at hrest
    refine forall₂_of_common (mapM_eq_ok.1 hothers).flip hrest ?_
    rintro d - key' - z hdata ⟨source, hz⟩
    obtain ⟨other, hother, rfl⟩ := data_eq_ok.1 hdata
    exact ⟨other, source, hother, hz⟩

/-- A published module can be resolved from every later registry, if the one in which it was
published had those dependencies that have commits of their own. -/
theorem IsSnapshot.exists_resolution {s : ModuleSet} {io : Access (Except Error)} {x : Module}
    {disk : Disk} {sets : List ModuleSet} {ds : List Dependency} (h : io.IsPlain disk sets)
    (hx : x ∈ s.modules) (hr : r.IsConsistent) (hsnap : r.IsSnapshot s io x stored)
    (hds : s.dependencies io x = .ok ds) (hpinned : ∀ d ∈ ds, r.Has d.module)
    (hr' : Becomes r r') (hname : key.name = stored.name)
    (hkey : r'.stored? key.name key.commit = some stored) :
    ∃ additions, r'.provider.additions [key] = .ok additions ∧
      (∀ a ∈ additions, ∃ keys, a.inputs.declaredKeys = .ready keys ∧
        ∀ key' ∈ keys, ∃ digest, key'.origin = .known digest) ∧
      ∀ number parser, ∃ t y, ModuleSet.build number parser additions = .ok t ∧
        IsResolution t key x ds y ∧
        y.inputs = (Provider.additionOf true (stored.dataFor key)).inputs := by
  have hdeps : ∀ key' ∈ stored.dependencies,
      ∃ other, r'.stored? key'.name key'.commit = some other := by
    intro key' hkey'
    obtain ⟨other, hother⟩ := hsnap.exists_stored? hr hds hpinned hkey'
    exact ⟨other, hr'.stored?_eq_some hother⟩
  obtain ⟨additions, hadditions, delivered, build⟩ := build_of_additions hkey hdeps
    (hsnap.pairwise_name_ne h hx) fun key' hkey' => hname ▸ hsnap.name_ne h hx hkey'
  refine ⟨additions, hadditions, fun a ha => ?_, fun number parser => ?_⟩
  · obtain ⟨key', other, isTarget, hother, rfl⟩ := delivered a ha
    exact ⟨other.dependencies, rfl, (hr'.isConsistent hr).keys (stored?_eq_some.1 hother).1⟩
  · obtain ⟨t, y, rest, ht, modules, ⟨stored', source, hkey', hy⟩, others⟩ := build number parser
    obtain rfl := Option.some.inj (hkey.symm.trans hkey')
    obtain ⟨-, -, -, name, commit, isTarget, isLocal, inputs⟩ := Addition.toModule_eq_ok hy
    refine ⟨t, y, ht, ⟨⟨rest, modules, ?_, fun z hz => ?_⟩, ?_, commit, isLocal, isTarget⟩, inputs⟩
    · rw [hsnap.names_eq hds]
      refine (map_eq_map_of_forall₂ (others.imp ?_)).symm
      rintro key' z ⟨other, source, -, hz⟩
      exact (Addition.toModule_eq_ok hz).2.2.2.1.symm
    · obtain ⟨key', -, other, source, -, hz⟩ := exists_of_mem_right others hz
      obtain ⟨-, -, -, -, -, isTarget, isLocal, -⟩ := Addition.toModule_eq_ok hz
      exact ⟨isLocal, isTarget⟩
    · rw [name, hsnap.name, ← hname]
      rfl

end Registry

end ProtoWorkspace
