import Mathlib.Tactic
import ProtoWorkspace.Proofs.ModuleSet.Remote
import ProtoWorkspace.Proofs.Registry.Resolve
import ProtoWorkspace.Registry.InSession

/-!
# Resolving lists of keys

A list of keys stands for the modules at these keys and the dependencies that they were published
with. Main statement: they make a set exactly when all of them are stored and no name occurs at two
commits, and then the set has one remote module for each name, which is a target exactly when its
name is in the list; so neither the order of the list nor repetitions matter
(`Session.resolve_keys_iff`).
-/

namespace ProtoWorkspace

open Fallible

/-! ## Keys without repetitions -/

namespace Provider

/-- Keeps a key unless a kept one names the same module at the same commit. -/
def keep (kept : List ModuleKey) (key : ModuleKey) : List ModuleKey :=
  if kept.any (·.isSame key) then kept else kept ++ [key]

theorem mem_foldl_keep {keys kept : List ModuleKey} {key : ModuleKey}
    (h : key ∈ keys.foldl keep kept) : key ∈ kept ∨ key ∈ keys := by
  induction keys generalizing kept with
  | nil => exact .inl h
  | cons first keys ih =>
    rcases ih h with h | h
    · unfold keep at h
      split at h
      · exact .inl h
      · rcases List.mem_append.1 h with h | h
        · exact .inl h
        · rw [List.mem_singleton.1 h]
          exact .inr List.mem_cons_self
    · exact .inr (List.mem_cons_of_mem first h)

/-- A key that is dropped is the same as a kept one. -/
theorem exists_isSame_foldl_keep {keys : List ModuleKey} {key : ModuleKey} (kept : List ModuleKey)
    (h : (∃ other ∈ kept, other.isSame key) ∨ key ∈ keys) :
    ∃ other ∈ keys.foldl keep kept, other.isSame key := by
  induction keys generalizing kept with
  | nil => exact h.resolve_right List.not_mem_nil
  | cons first keys ih =>
    apply ih
    rcases h with ⟨other, hother, same⟩ | h
    · left
      refine ⟨other, ?_, same⟩
      unfold keep
      split
      · exact hother
      · exact List.mem_append_left _ hother
    · rcases List.mem_cons.1 h with rfl | h
      · left
        unfold keep
        split
        · next present => exact List.any_eq_true.1 present
        · exact ⟨key, by simp, by simp [ModuleKey.isSame]⟩
      · exact .inr h

theorem mem_of_mem_distinctKeys {keys : List ModuleKey} {key : ModuleKey}
    (h : key ∈ distinctKeys keys) : key ∈ keys :=
  (mem_foldl_keep h).resolve_left List.not_mem_nil

theorem exists_mem_distinctKeys {keys : List ModuleKey} {key : ModuleKey} (h : key ∈ keys) :
    ∃ other ∈ distinctKeys keys, other.name = key.name ∧ other.commit = key.commit := by
  obtain ⟨other, hother, same⟩ := exists_isSame_foldl_keep [] (.inr h)
  exact ⟨other, hother, by simpa [ModuleKey.isSame] using same⟩

end Provider

/-! ## What is delivered for keys -/

namespace Registry

variable {r : Registry} {keys : List ModuleKey} {additions : List Addition}

/-- Whether something is stored at a key. -/
def HasKey (r : Registry) (key : ModuleKey) : Prop :=
  ∃ stored, r.stored? key.name key.commit = some stored

/-- The given keys and those of the dependencies. -/
def allKeys (r : Registry) (keys : List ModuleKey) : List ModuleKey :=
  keys ++ r.dependencyKeys keys

theorem succeeds_mapM_data : Succeeds (keys.mapM r.data) ↔ ∀ key ∈ keys, r.HasKey key := by
  rw [succeeds_mapM]
  refine forall₂_congr fun key _ => ?_
  constructor
  · rintro ⟨d, hd⟩
    obtain ⟨stored, hstored, -⟩ := data_eq_ok.1 hd
    exact ⟨stored, hstored⟩
  · rintro ⟨stored, hstored⟩
    exact ⟨_, data_eq_ok.2 ⟨stored, hstored, rfl⟩⟩

theorem additions_eq_ok_iff : r.provider.additions keys = .ok additions ↔
    ∃ datas others, keys.mapM r.data = .ok datas ∧
      (Provider.distinctKeys (r.dependencyKeys keys)).mapM r.data = .ok others ∧
      additions = datas.map (Provider.additionOf true) ++ others.map (Provider.additionOf false) := by
  constructor
  · intro h
    obtain ⟨datas, hdatas, -⟩ := bind_eq_ok.1 h
    rw [additions_of_datas hdatas] at h
    obtain ⟨others, hothers, rfl⟩ := map_eq_ok.1 h
    exact ⟨datas, others, hdatas, hothers, rfl⟩
  · rintro ⟨datas, others, hdatas, hothers, rfl⟩
    rw [additions_of_datas hdatas, hothers]
    rfl

theorem succeeds_additions_iff :
    Succeeds (r.provider.additions keys) ↔ ∀ key ∈ r.allKeys keys, r.HasKey key := by
  have distinct : (∀ key ∈ Provider.distinctKeys (r.dependencyKeys keys), r.HasKey key) ↔
      ∀ key ∈ r.dependencyKeys keys, r.HasKey key := by
    constructor
    · intro h key hkey
      obtain ⟨other, hother, name, commit⟩ := Provider.exists_mem_distinctKeys hkey
      have has := h other hother
      rwa [HasKey, name, commit] at has
    · intro h key hkey
      exact h key (Provider.mem_of_mem_distinctKeys hkey)
  rw [allKeys, List.forall_mem_append, ← distinct, ← succeeds_mapM_data, ← succeeds_mapM_data]
  constructor
  · rintro ⟨additions, h⟩
    obtain ⟨datas, others, hdatas, hothers, -⟩ := additions_eq_ok_iff.1 h
    exact ⟨⟨datas, hdatas⟩, ⟨others, hothers⟩⟩
  · rintro ⟨⟨datas, hdatas⟩, ⟨others, hothers⟩⟩
    exact ⟨_, additions_eq_ok_iff.2 ⟨datas, others, hdatas, hothers, rfl⟩⟩

/-- What is added for some of the keys. -/
theorem mem_map_additionOf {datas : List ModuleData} (h : keys.mapM r.data = .ok datas)
    {isTarget : Bool} {a : Addition} : a ∈ datas.map (Provider.additionOf isTarget) ↔
      ∃ key ∈ keys, ∃ stored, r.stored? key.name key.commit = some stored ∧
        a = Provider.additionOf isTarget (stored.dataFor key) := by
  constructor
  · intro ha
    obtain ⟨d, hd, rfl⟩ := List.mem_map.1 ha
    obtain ⟨key, hkey, hdata⟩ := exists_of_mem_mapM h hd
    obtain ⟨stored, hstored, rfl⟩ := data_eq_ok.1 hdata
    exact ⟨key, hkey, stored, hstored, rfl⟩
  · rintro ⟨key, hkey, stored, hstored, rfl⟩
    obtain ⟨d, hd, hdata⟩ := exists_mem_of_mapM h hkey
    obtain ⟨stored', hstored', rfl⟩ := data_eq_ok.1 hdata
    obtain rfl := Option.some.inj (hstored.symm.trans hstored')
    exact List.mem_map_of_mem hd

section Additions

variable (h : r.provider.additions keys = .ok additions)

include h

theorem isRemote_of_additions : ∀ a ∈ additions,
    ∃ key inputs isTarget, a = .ofRemote key inputs isTarget := by
  intro a ha
  obtain ⟨datas, others, -, -, rfl⟩ := additions_eq_ok_iff.1 h
  rcases List.mem_append.1 ha with ha | ha
  · obtain ⟨d, -, rfl⟩ := List.mem_map.1 ha
    exact ⟨_, _, _, rfl⟩
  · obtain ⟨d, -, rfl⟩ := List.mem_map.1 ha
    exact ⟨_, _, _, rfl⟩

theorem exists_addition_of_key {key : ModuleKey} (hkey : key ∈ r.allKeys keys) :
    ∃ a ∈ additions, a.name = some key.name ∧ a.commit = key.commit := by
  obtain ⟨datas, others, hdatas, hothers, rfl⟩ := additions_eq_ok_iff.1 h
  rcases List.mem_append.1 hkey with hkey | hkey
  · obtain ⟨stored, hstored⟩ := succeeds_mapM_data.1 ⟨datas, hdatas⟩ key hkey
    refine ⟨Provider.additionOf true (stored.dataFor key), List.mem_append_left _ ?_, rfl, rfl⟩
    exact (mem_map_additionOf hdatas).2 ⟨key, hkey, stored, hstored, rfl⟩
  · obtain ⟨other, hother, name, commit⟩ := Provider.exists_mem_distinctKeys hkey
    obtain ⟨stored, hstored⟩ := succeeds_mapM_data.1 ⟨others, hothers⟩ other hother
    refine ⟨Provider.additionOf false (stored.dataFor other), List.mem_append_right _ ?_,
      congrArg some name, commit⟩
    exact (mem_map_additionOf hothers).2 ⟨other, hother, stored, hstored, rfl⟩

theorem exists_key_of_addition {a : Addition} (ha : a ∈ additions) :
    ∃ key ∈ r.allKeys keys, a.name = some key.name ∧ a.commit = key.commit := by
  obtain ⟨datas, others, hdatas, hothers, rfl⟩ := additions_eq_ok_iff.1 h
  rcases List.mem_append.1 ha with ha | ha
  · obtain ⟨key, hkey, stored, -, rfl⟩ := (mem_map_additionOf hdatas).1 ha
    exact ⟨key, List.mem_append_left _ hkey, rfl, rfl⟩
  · obtain ⟨key, hkey, stored, -, rfl⟩ := (mem_map_additionOf hothers).1 ha
    exact ⟨key, List.mem_append_right _ (Provider.mem_of_mem_distinctKeys hkey), rfl, rfl⟩

/-- Of the additions of a name one is a target exactly when the name is asked for. -/
theorem exists_target_iff {name : Option FullName} :
    (∃ a ∈ additions, a.name = name ∧ a.isTarget = true) ↔ ∃ key ∈ keys, name = some key.name := by
  obtain ⟨datas, others, hdatas, hothers, rfl⟩ := additions_eq_ok_iff.1 h
  constructor
  · rintro ⟨a, ha, rfl, isTarget⟩
    rcases List.mem_append.1 ha with ha | ha
    · obtain ⟨key, hkey, stored, -, rfl⟩ := (mem_map_additionOf hdatas).1 ha
      exact ⟨key, hkey, rfl⟩
    · obtain ⟨key, hkey, stored, -, rfl⟩ := (mem_map_additionOf hothers).1 ha
      cases isTarget
  · rintro ⟨key, hkey, rfl⟩
    obtain ⟨stored, hstored⟩ := succeeds_mapM_data.1 ⟨datas, hdatas⟩ key hkey
    refine ⟨Provider.additionOf true (stored.dataFor key), List.mem_append_left _ ?_, rfl, rfl⟩
    exact (mem_map_additionOf hdatas).2 ⟨key, hkey, stored, hstored, rfl⟩

end Additions

/-! ## The set of a list of keys -/

/-- Whether the modules at the given keys and their dependencies are stored and no name occurs at two
commits. -/
structure CanResolve (r : Registry) (keys : List ModuleKey) : Prop where
  stored : ∀ key ∈ r.allKeys keys, r.HasKey key
  agree : ∀ key ∈ r.allKeys keys, ∀ other ∈ r.allKeys keys,
    key.name = other.name → key.commit = other.commit

/-- Whether a set has one module for each name among the keys and the dependencies. -/
structure IsSetOf (r : Registry) (keys : List ModuleKey) (t : ModuleSet) : Prop where
  covers : ∀ key ∈ r.allKeys keys, ∃ x ∈ t.modules, x.name = some key.name
  named : ∀ x ∈ t.modules, ∃ key ∈ r.allKeys keys, x.name = some key.name
  unique : (t.modules.map Module.name).Nodup
  isLocal : ∀ x ∈ t.modules, x.isLocal = false
  commit : ∀ x ∈ t.modules, ∀ key ∈ r.allKeys keys, x.name = some key.name → x.commit = key.commit
  /-- The given keys are the targets, also those that are dependencies of others. -/
  isTarget : ∀ x ∈ t.modules, x.isTarget = true ↔ ∃ key ∈ keys, x.name = some key.name

variable {number : Nat} {t : ModuleSet}

theorem succeeds_resolve_iff : Succeeds (r.resolve number keys) ↔ r.CanResolve keys := by
  constructor
  · rintro ⟨t, h⟩
    obtain ⟨additions, hadditions, ht⟩ := bind_eq_ok.1 h
    have remote := isRemote_of_additions hadditions
    have agree := (ModuleSet.succeeds_build_remote_iff remote).1 ⟨t, ht⟩
    refine ⟨succeeds_additions_iff.1 ⟨additions, hadditions⟩, ?_⟩
    intro key hkey other hother same
    obtain ⟨a, ha, name, commit⟩ := exists_addition_of_key hadditions hkey
    obtain ⟨b, hb, name', commit'⟩ := exists_addition_of_key hadditions hother
    rw [← commit, ← commit']
    apply agree a ha b hb
    rw [name, name', same]
  · rintro ⟨stored, agree⟩
    obtain ⟨additions, hadditions⟩ := succeeds_additions_iff.2 stored
    have remote := isRemote_of_additions hadditions
    refine succeeds_bind.2 ⟨additions, hadditions, ?_⟩
    apply (ModuleSet.succeeds_build_remote_iff remote).2
    intro a ha b hb same
    obtain ⟨key, hkey, name, commit⟩ := exists_key_of_addition hadditions ha
    obtain ⟨other, hother, name', commit'⟩ := exists_key_of_addition hadditions hb
    rw [commit, commit']
    apply agree key hkey other hother
    rw [name, name'] at same
    exact Option.some.inj same

theorem isSetOf_of_resolve (h : r.resolve number keys = .ok t) : r.IsSetOf keys t := by
  obtain ⟨additions, hadditions, ht⟩ := bind_eq_ok.1 h
  have remote := isRemote_of_additions hadditions
  have speaks : ∀ x ∈ t.modules, _ := fun x hx =>
    ModuleSet.exists_addition_of_mem_remote remote ht hx
  constructor
  · intro key hkey
    obtain ⟨a, ha, name, -⟩ := exists_addition_of_key hadditions hkey
    obtain ⟨x, hx, name'⟩ := ModuleSet.exists_module_of_mem_remote remote ht ha
    exact ⟨x, hx, name'.trans name⟩
  · intro x hx
    obtain ⟨a, ha, name, -⟩ := speaks x hx
    obtain ⟨key, hkey, name', -⟩ := exists_key_of_addition hadditions ha
    exact ⟨key, hkey, name.trans name'⟩
  · refine List.pairwise_map.2 ((List.pairwise_map.1 t.nodup_identity).imp_of_mem ?_)
    intro x y hx hy differ same
    obtain ⟨a, ha, name, -⟩ := speaks x hx
    obtain ⟨key, -, name', -⟩ := exists_key_of_addition hadditions ha
    have named : x.name = some key.name := name.trans name'
    apply differ
    rw [Module.identity_of_name named, Module.identity_of_name (same.symm.trans named)]
  · intro x hx
    obtain ⟨a, -, -, isLocal, -⟩ := speaks x hx
    exact isLocal
  · intro x hx key hkey name
    obtain ⟨-, -, -, -, commit, -⟩ := speaks x hx
    obtain ⟨b, hb, name', commit'⟩ := exists_addition_of_key hadditions hkey
    rw [← commit b hb (name'.trans name.symm), commit']
  · intro x hx
    obtain ⟨-, -, -, -, -, target⟩ := speaks x hx
    rw [target, exists_target_iff hadditions]

/-! ## Other lists of the same keys -/

/-- Whether two lists have keys of the same modules at the same commits. -/
def AskForSame (keys keys' : List ModuleKey) : Prop :=
  ∀ name commit, (∃ key ∈ keys, key.name = name ∧ key.commit = commit) ↔
    ∃ key ∈ keys', key.name = name ∧ key.commit = commit

section Same

variable {keys' : List ModuleKey} (same : AskForSame keys keys')

include same

theorem AskForSame.exists_key {key : ModuleKey} (hkey : key ∈ keys) :
    ∃ key' ∈ keys', key'.name = key.name ∧ key'.commit = key.commit :=
  (same key.name key.commit).1 ⟨key, hkey, rfl, rfl⟩

theorem AskForSame.symm : AskForSame keys' keys :=
  fun name commit => (same name commit).symm

theorem AskForSame.dependencyKeys_subset : r.dependencyKeys keys ⊆ r.dependencyKeys keys' := by
  intro other hother
  obtain ⟨key, hkey, hother⟩ := List.mem_flatMap.1 hother
  obtain ⟨key', hkey', name, commit⟩ := same.exists_key hkey
  refine List.mem_flatMap.2 ⟨key', hkey', ?_⟩
  rwa [name, commit]

theorem AskForSame.exists_allKeys {key : ModuleKey} (hkey : key ∈ r.allKeys keys) :
    ∃ key' ∈ r.allKeys keys', key'.name = key.name ∧ key'.commit = key.commit := by
  rcases List.mem_append.1 hkey with hkey | hkey
  · obtain ⟨key', hkey', alike⟩ := same.exists_key hkey
    exact ⟨key', List.mem_append_left _ hkey', alike⟩
  · exact ⟨key, List.mem_append_right _ (same.dependencyKeys_subset hkey), rfl, rfl⟩

theorem CanResolve.of_same (h : r.CanResolve keys') : r.CanResolve keys := by
  constructor
  · intro key hkey
    obtain ⟨key', hkey', name, commit⟩ := same.exists_allKeys hkey
    have has := h.stored key' hkey'
    rwa [HasKey, name, commit] at has
  · intro key hkey other hother names
    obtain ⟨key', hkey', name, commit⟩ := same.exists_allKeys hkey
    obtain ⟨other', hother', name', commit'⟩ := same.exists_allKeys hother
    rw [← commit, ← commit']
    apply h.agree key' hkey' other' hother'
    rw [name, name', names]

variable {t' : ModuleSet}

theorem IsSetOf.exists_outline_eq (h : r.IsSetOf keys t) (h' : r.IsSetOf keys' t') {x : Module}
    (hx : x ∈ t.modules) : ∃ y ∈ t'.modules, y.outline = x.outline := by
  obtain ⟨key, hkey, name⟩ := h.named x hx
  obtain ⟨key', hkey', name', commit'⟩ := same.exists_allKeys hkey
  obtain ⟨y, hy, named⟩ := h'.covers key' hkey'
  have names : y.name = x.name := by rw [named, name, name']
  have targets : y.isTarget = x.isTarget := by
    rw [Bool.eq_iff_iff, h'.isTarget y hy, h.isTarget x hx, names]
    constructor
    · rintro ⟨other, hother, hname⟩
      obtain ⟨other', hother', name, -⟩ := same.symm.exists_key hother
      exact ⟨other', hother', by rw [hname, name]⟩
    · rintro ⟨other, hother, hname⟩
      obtain ⟨other', hother', name, -⟩ := same.exists_key hother
      exact ⟨other', hother', by rw [hname, name]⟩
  refine ⟨y, hy, ?_⟩
  rw [Module.outline, Module.outline, Module.identity_of_name name,
    Module.identity_of_name (names.trans name), h'.isLocal y hy, h.isLocal x hx, targets,
    h'.commit y hy key' hkey' named, h.commit x hx key hkey name, commit']

theorem IsSetOf.perm_outline (h : r.IsSetOf keys t) (h' : r.IsSetOf keys' t') :
    (t.modules.map Module.outline).Perm (t'.modules.map Module.outline) := by
  have distinct (t : ModuleSet) : (t.modules.map Module.outline).Nodup := by
    have identities : (t.modules.map Module.outline).map Prod.fst = t.identities := by
      rw [List.map_map]
      rfl
    exact List.Nodup.of_map Prod.fst (identities ▸ t.nodup_identity)
  refine (List.perm_ext_iff_of_nodup (distinct t) (distinct t')).2 fun outline => ?_
  constructor
  · intro hmem
    obtain ⟨x, hx, rfl⟩ := List.mem_map.1 hmem
    obtain ⟨y, hy, alike⟩ := h.exists_outline_eq same h' hx
    exact alike ▸ List.mem_map_of_mem hy
  · intro hmem
    obtain ⟨y, hy, rfl⟩ := List.mem_map.1 hmem
    obtain ⟨x, hx, alike⟩ := h'.exists_outline_eq same.symm h hy
    exact alike ▸ List.mem_map_of_mem hx

end Same

end Registry

namespace Session

theorem outcome_resolve (σ : Session) (r : Registry) (keys : List ModuleKey) :
    σ.outcome (resolve r.provider keys) = r.resolve σ.sets.length keys := by
  unfold resolve Registry.resolve
  cases r.provider.additions keys with
  | error e => rfl
  | ok additions =>
    change σ.outcome (build .standard additions) = ModuleSet.build σ.sets.length .standard additions
    rcases build_cases .standard additions σ with ⟨t, ht, outcome, -⟩ | ⟨e, he, outcome, -⟩
    · rw [outcome, ht]
    · rw [outcome, he]

/-- A list of keys, with repetitions or empty, makes a set exactly when the modules at these keys and
the dependencies that they were published with are all stored, and no name occurs among them at two
commits. The set has one module for each name that occurs, remote and at the commit of the name, and
the targets are those whose names are in the list. Another list of the same keys makes a set in the
same cases, and one with the same modules. -/
theorem resolve_keys_iff (σ : Session) (r : Registry) (keys : List ModuleKey) :
    (Succeeds (σ.outcome (resolve r.provider keys)) ↔ r.CanResolve keys) ∧
      (∀ t, σ.outcome (resolve r.provider keys) = .ok t → r.IsSetOf keys t) ∧
      ∀ (τ : Session) (keys' : List ModuleKey), Registry.AskForSame keys keys' →
        (Succeeds (σ.outcome (resolve r.provider keys)) ↔
          Succeeds (τ.outcome (resolve r.provider keys'))) ∧
        ∀ t t', σ.outcome (resolve r.provider keys) = .ok t →
          τ.outcome (resolve r.provider keys') = .ok t' →
            (t.modules.map Module.outline).Perm (t'.modules.map Module.outline) := by
  simp only [outcome_resolve]
  refine ⟨Registry.succeeds_resolve_iff, fun t => Registry.isSetOf_of_resolve, ?_⟩
  intro τ keys' same
  refine ⟨?_, fun t t' h h' => ?_⟩
  · rw [Registry.succeeds_resolve_iff, Registry.succeeds_resolve_iff]
    exact ⟨Registry.CanResolve.of_same same.symm, Registry.CanResolve.of_same same⟩
  · exact (Registry.isSetOf_of_resolve h).perm_outline same (Registry.isSetOf_of_resolve h')

end Session

namespace Sample

/-! A registry with two modules, of which one was published with the other as a dependency. -/

def someDigest : Digest :=
  ⟨.b5, List.replicate 64 0, List.length_replicate⟩

theorem isValid_user : NamePart.IsValid "user" := by decide

def userName : FullName :=
  ⟨"registry", "owner", "user", isValid_registry, isValid_owner, isValid_user⟩

def storedUnder (name : FullName) (dependencies : List ModuleKey) : StoredCommit :=
  ⟨name, ⟨[]⟩, dependencies, none, none, someDigest, someDigest⟩

def sharedVersion : Fin 15 := (Fin.last 13).castSucc

def userVersion : Fin 15 := Fin.last 14

def sharedKey : ModuleKey :=
  ⟨sharedName, sharedCommit sharedVersion, .known someDigest, isNone_sharedCommit sharedVersion⟩

def userKey : ModuleKey :=
  ⟨userName, sharedCommit userVersion, .known someDigest, isNone_sharedCommit userVersion⟩

def userRegistry : Registry :=
  (({} : Registry).insert (sharedCommit sharedVersion) (storedUnder sharedName [])).insert
    (sharedCommit userVersion) (storedUnder userName [sharedKey])

theorem allKeys_user_shared : userRegistry.allKeys [userKey, sharedKey, userKey] =
    [userKey, sharedKey, userKey, sharedKey, sharedKey] := by
  rfl

theorem canResolve_user_shared : userRegistry.CanResolve [userKey, sharedKey, userKey] := by
  have keys : ∀ key ∈ userRegistry.allKeys [userKey, sharedKey, userKey],
      key = userKey ∨ key = sharedKey := by
    intro key hkey
    rw [allKeys_user_shared] at hkey
    simp only [List.mem_cons, List.not_mem_nil, or_false] at hkey
    tauto
  have names : userName ≠ sharedName := by decide
  constructor
  · intro key hkey
    rcases keys key hkey with rfl | rfl <;> exact ⟨_, rfl⟩
  · intro key hkey other hother same
    rcases keys key hkey with rfl | rfl <;> rcases keys other hother with rfl | rfl
    · rfl
    · exact absurd same names
    · exact absurd same.symm names
    · rfl

/-- A module that is asked for is a target although it is a dependency too, however often and in
whatever order the keys are given. -/
theorem resolve_user_and_shared : ∃ t t',
    ({} : Session).outcome (Session.resolve userRegistry.provider [userKey, sharedKey, userKey]) =
        .ok t ∧
      ({} : Session).outcome (Session.resolve userRegistry.provider [sharedKey, userKey]) = .ok t' ∧
      (∃ x ∈ t.modules, x.name = some sharedName ∧ x.isTarget = true) ∧
      (t.modules.map Module.outline).Perm (t'.modules.map Module.outline) := by
  obtain ⟨succeeds, isSetOf, reordered⟩ :=
    Session.resolve_keys_iff {} userRegistry [userKey, sharedKey, userKey]
  have same : Registry.AskForSame [userKey, sharedKey, userKey] [sharedKey, userKey] := by
    intro name commit
    simp only [List.mem_cons, List.not_mem_nil, or_false]
    refine exists_congr fun key => and_congr_left fun _ => ?_
    tauto
  obtain ⟨t, ht⟩ := succeeds.2 canResolve_user_shared
  obtain ⟨succeeds', perm⟩ := reordered {} [sharedKey, userKey] same
  obtain ⟨t', ht'⟩ := succeeds'.1 ⟨t, ht⟩
  obtain ⟨x, hx, name⟩ := (isSetOf t ht).covers sharedKey (by simp [allKeys_user_shared])
  refine ⟨t, t', ht, ht', ⟨x, hx, name, ?_⟩, perm t t' ht ht'⟩
  exact ((isSetOf t ht).isTarget x hx).2 ⟨sharedKey, by simp, name⟩

end Sample

end ProtoWorkspace
