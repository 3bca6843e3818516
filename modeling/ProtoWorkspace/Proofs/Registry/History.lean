import ProtoWorkspace.Proofs.Session.Described
import ProtoWorkspace.Registry

/-!
# The registries that there can be

A registry comes about by publishing modules, from any sets and in any sessions, each at a commit
that was not used before. What is stored at a commit stays as it is, a label points to what is stored
under its name, and modules keep their dependencies under keys that know their digests.
-/

namespace ProtoWorkspace

open Relation Fallible

theorem ModuleKey.make_eq_ok {name : FullName} {commit : CommitId} {origin : DigestOrigin}
    {key : ModuleKey} : ModuleKey.make name commit origin = .ok key ↔
      key.name = name ∧ key.commit = commit ∧ key.origin = origin := by
  unfold ModuleKey.make
  constructor
  · intro h
    split at h
    · cases h
      exact ⟨rfl, rfl, rfl⟩
    · cases h
  · rintro ⟨rfl, rfl, rfl⟩
    rw [dif_pos key.isNone_commit]

namespace Registry

variable {r r' r'' : Registry} {name : FullName} {commit fresh : CommitId} {stored : StoredCommit}

theorem stored?_eq_some :
    r.stored? name commit = some stored ↔ r.commit? commit = some stored ∧ stored.name = name := by
  rw [stored?, Option.filter_eq_some_iff, beq_iff_eq]

theorem find_eq_ok {key : ModuleKey} :
    r.find key = .ok stored ↔ r.stored? key.name key.commit = some stored := by
  unfold find
  split <;> simp [*]

theorem commit?_insert : (r.insert fresh stored).commit? commit =
    if commit = fresh then some stored else r.commit? commit := by
  rw [commit?, insert, List.lookup_cons]
  by_cases same : commit = fresh
  · simp [same]
  · rw [beq_false_of_ne same, if_neg same]
    rfl

theorem labeled?_insert {label : String} : (r.insert fresh stored).labeled? name label =
    if name = stored.name ∧ label = mainLabel then some fresh else r.labeled? name label := by
  rw [labeled?, insert, List.lookup_cons]
  by_cases same : name = stored.name ∧ label = mainLabel
  · simp [same]
  · have other : (name, label) ≠ (stored.name, mainLabel) := fun h => same (Prod.mk.inj h)
    rw [beq_false_of_ne other, if_neg same]
    rfl

/-! ## Publishing -/

/-- A dependency is pinned to its own commit if it has one, and otherwise to the commit labeled
`main`, at which the same digest is stored. -/
theorem pin_eq_ok {x : Module} {digest : Digest} : r.pin x name digest = .ok commit ↔
    (x.commit.isNone = false ∧ commit = x.commit) ∨
      (x.commit.isNone = true ∧ r.labeled? name mainLabel = some commit ∧
        (r.commit? commit).map StoredCommit.b5 = some digest) := by
  unfold pin
  cases hnone : x.commit.isNone with
  | false => simpa using eq_comm
  | true =>
    cases hlabel : r.labeled? name mainLabel with
    | none => simp
    | some labeled =>
      simp only [if_true, reduceCtorEq, false_and, false_or, true_and, Option.some.injEq]
      split
      · next same =>
        simp only [Except.ok.injEq]
        exact ⟨fun h => ⟨h, h ▸ same⟩, And.left⟩
      · next same =>
        simp only [reduceCtorEq, false_iff]
        rintro ⟨rfl, same'⟩
        exact same same'

section Push

variable {s : ModuleSet} {io : Access (Except Error)} {x : Module}

theorem requiredName_eq_ok : requiredName x = .ok name ↔ x.name = some name := by
  unfold requiredName
  split <;> simp [*]

theorem pinnedKey_eq_ok {d : Dependency} {key : ModuleKey} : r.pinnedKey s io d = .ok key ↔
    d.module.name = some key.name ∧ ∃ digest, s.digest io d.module .b5 = .ok digest ∧
      r.pin d.module key.name digest = .ok key.commit ∧ key.origin = .known digest := by
  simp only [pinnedKey, ofExcept_eq, bind_eq_ok, requiredName_eq_ok, ModuleKey.make_eq_ok]
  constructor
  · rintro ⟨name, hname, digest, hdigest, commit, hpin, rfl, rfl, horigin⟩
    exact ⟨hname, digest, hdigest, hpin, horigin⟩
  · rintro ⟨hname, digest, hdigest, hpin, horigin⟩
    exact ⟨_, hname, digest, hdigest, _, hpin, rfl, rfl, horigin⟩

/-- Whether something is what is to be stored for a module. -/
structure IsSnapshot (r : Registry) (s : ModuleSet) (io : Access (Except Error)) (x : Module)
    (stored : StoredCommit) : Prop where
  name : x.name = some stored.name
  files : ∃ files, x.contents io = .ok files ∧ stored.files = FileTable.ofList files
  dependencies : ∃ ds, s.dependencies io x = .ok ds ∧
    List.Forall₂ (fun d key => r.pinnedKey s io d = .ok key) ds stored.dependencies
  yaml : x.yaml io = .ok stored.yaml
  lock : x.lock io = .ok stored.lock
  b4 : s.digest io x .b4 = .ok stored.b4
  b5 : s.digest io x .b5 = .ok stored.b5

theorem isSnapshot_of_snapshot (h : r.snapshot s io x = .ok stored) :
    r.IsSnapshot s io x stored := by
  simp only [snapshot, ofExcept_eq, bind_eq_ok, requiredName_eq_ok] at h
  obtain ⟨name, hname, files, hfiles, ds, hds, keys, hkeys, yaml, hyaml, lock, hlock, b4, hb4, b5,
    hb5, h⟩ := h
  cases h
  exact ⟨hname, ⟨files, hfiles, rfl⟩, ⟨ds, hds, mapM_eq_ok.1 hkeys⟩, hyaml, hlock, hb4, hb5⟩

/-- Publishing a module stores a snapshot of it and gives its key. -/
theorem push_eq_ok {key : ModuleKey} (h : r.push fresh s io x = .ok (r', key)) :
    ∃ stored, r.IsSnapshot s io x stored ∧ r' = r.insert fresh stored ∧ key.name = stored.name ∧
      key.commit = fresh ∧ key.origin = .known stored.b5 := by
  simp only [push, ofExcept_eq, bind_eq_ok, ModuleKey.make_eq_ok] at h
  obtain ⟨stored, hstored, key', hkey, h⟩ := h
  cases h
  exact ⟨stored, isSnapshot_of_snapshot hstored, rfl, hkey⟩

/-- A module with a name can be published if everything that is stored of it is at hand. -/
theorem succeeds_push (hname : x.name = some name) (hcontents : Succeeds (x.contents io))
    {ds : List Dependency} (hds : s.dependencies io x = .ok ds)
    (hkeys : ∀ d ∈ ds, Succeeds (r.pinnedKey s io d)) (hyaml : Succeeds (x.yaml io))
    (hlock : Succeeds (x.lock io)) (hdigest : ∀ type, Succeeds (s.digest io x type))
    (hfresh : fresh.isNone = false) : Succeeds (r.push fresh s io x) := by
  obtain ⟨files, hfiles⟩ := hcontents
  obtain ⟨keys, hkeys⟩ := succeeds_mapM.2 hkeys
  obtain ⟨yaml, hyaml⟩ := hyaml
  obtain ⟨lock, hlock⟩ := hlock
  obtain ⟨b4, hb4⟩ := hdigest .b4
  obtain ⟨b5, hb5⟩ := hdigest .b5
  have hsnap : r.snapshot s io x =
      .ok ⟨name, FileTable.ofList files, keys, yaml, lock, b4, b5⟩ := by
    simp only [snapshot, ofExcept_eq, requiredName_eq_ok.2 hname, ok_bind, hfiles, hds, hkeys, hyaml,
      hlock, hb4, hb5, pure_eq_ok]
  simp only [push, hsnap, ok_bind, ofExcept_eq, ModuleKey.make, dif_pos hfresh]
  exact succeeds_ok _

end Push

/-! ## Histories -/

/-- Whether publishing a module of a set of some session, at a commit that was not used before, turns
a registry into another. -/
inductive Pushed (r : Registry) : Registry → Prop where
  | push {loads : Nat → Except Error Digest} {σ : Session} (hσ : Session.Reachable loads σ)
    {s : ModuleSet} (hs : s ∈ σ.sets) {x : Module} (hx : x ∈ s.modules) {fresh : CommitId}
    (hfresh : r.commit? fresh = none) {r' : Registry} {key : ModuleKey}
    (h : σ.outcome (r.push fresh s Session.access x) = .ok (r', key)) : Pushed r r'

/-- Whether a registry can become another. -/
def Becomes : Registry → Registry → Prop :=
  ReflTransGen Pushed

/-- Whether labels point to what is stored under their names, and modules keep their dependencies
under keys that know their digests. -/
structure IsConsistent (r : Registry) : Prop where
  labels {name : FullName} {label : String} {commit : CommitId} :
    r.labeled? name label = some commit → ∃ stored, r.stored? name commit = some stored
  keys {commit : CommitId} {stored : StoredCommit} : r.commit? commit = some stored →
    ∀ key ∈ stored.dependencies, ∃ digest, key.origin = .known digest

/-- What was published in a session is what a world says that fits the session afterwards. -/
theorem push_eq_of_outcome {loads : Nat → Except Error Digest} {σ : Session}
    (hσ : Session.Reachable loads σ) {s : ModuleSet} (hs : s ∈ σ.sets) {x : Module}
    (hx : x ∈ s.modules) {w : World}
    (hw : w.Fits loads (σ.after (r.push fresh s Session.access x))) :
    σ.outcome (r.push fresh s Session.access x) = r.push fresh s w.io x := by
  have before : σ.Before (σ.after (r.push fresh s Session.access x)) := Cumulative.before σ
  obtain ⟨hsw, hmade⟩ := hw.sound.inOrder.of_mem_take (hw.sets ▸ before.sets.subset hs)
  exact (hσ.follows hw (.push hw.sound r hsw hmade fresh hx)).2

theorem IsSnapshot.keys {s : ModuleSet} {io : Access (Except Error)} {x : Module}
    (h : r.IsSnapshot s io x stored) :
    ∀ key ∈ stored.dependencies, ∃ digest, key.origin = .known digest := by
  intro key hkey
  obtain ⟨ds, -, keys⟩ := h.dependencies
  obtain ⟨d, -, hpin⟩ := exists_of_mem_mapM (mapM_eq_ok.2 keys) hkey
  obtain ⟨-, digest, -, -, horigin⟩ := pinnedKey_eq_ok.1 hpin
  exact ⟨digest, horigin⟩

/-- Publishing stores something at a commit that was not used before. -/
theorem Pushed.exists_insert (h : Pushed r r') : ∃ fresh stored, r.commit? fresh = none ∧
    r' = r.insert fresh stored ∧
      ∀ key ∈ stored.dependencies, ∃ digest, key.origin = .known digest := by
  cases h with
  | push hσ hs hx hfresh h =>
    rw [push_eq_of_outcome hσ hs hx (hσ.query (.push r _ hs hx)).fits_world] at h
    obtain ⟨stored, snapshot, hr', -⟩ := push_eq_ok h
    exact ⟨_, stored, hfresh, hr', snapshot.keys⟩

/-- What is stored at a commit stays there when a module is published. -/
theorem Pushed.commit?_eq_some (h : Pushed r r') (hc : r.commit? commit = some stored) :
    r'.commit? commit = some stored := by
  obtain ⟨fresh, published, hfresh, rfl, -⟩ := h.exists_insert
  rw [commit?_insert, if_neg]
  · exact hc
  · rintro rfl
    rw [hfresh] at hc
    cases hc

theorem Pushed.isConsistent (h : Pushed r r') (hr : r.IsConsistent) : r'.IsConsistent := by
  have keep : ∀ {commit stored}, r.commit? commit = some stored → r'.commit? commit = some stored :=
    fun hc => h.commit?_eq_some hc
  obtain ⟨fresh, published, hfresh, rfl, hkeys⟩ := h.exists_insert
  constructor
  · intro name label commit hlabel
    rw [labeled?_insert] at hlabel
    split at hlabel
    · next same =>
      cases hlabel
      refine ⟨published, stored?_eq_some.2 ⟨?_, same.1.symm⟩⟩
      rw [commit?_insert, if_pos rfl]
    · obtain ⟨stored, hstored⟩ := hr.labels hlabel
      obtain ⟨hcommit, hname⟩ := stored?_eq_some.1 hstored
      exact ⟨stored, stored?_eq_some.2 ⟨keep hcommit, hname⟩⟩
  · intro commit stored hcommit
    rw [commit?_insert] at hcommit
    split at hcommit
    · cases hcommit
      exact hkeys
    · exact hr.keys hcommit

/-- Nothing that is stored is ever changed. -/
theorem Becomes.stored?_eq_some (h : Becomes r r') (hs : r.stored? name commit = some stored) :
    r'.stored? name commit = some stored := by
  induction h with
  | refl => exact hs
  | tail _ step ih =>
    obtain ⟨hcommit, hname⟩ := Registry.stored?_eq_some.1 ih
    exact Registry.stored?_eq_some.2 ⟨step.commit?_eq_some hcommit, hname⟩

theorem Becomes.isConsistent (h : Becomes r r') (hr : r.IsConsistent) : r'.IsConsistent := by
  induction h with
  | refl => exact hr
  | tail _ step ih => exact step.isConsistent ih

/-- Every registry that can come about is consistent. -/
theorem isConsistent_of_becomes (h : Becomes {} r) : r.IsConsistent :=
  h.isConsistent ⟨by simp [labeled?], by simp [commit?]⟩

end Registry

end ProtoWorkspace
