import ProtoWorkspace.Proofs.ModuleDigest.Search

/-!
# Digests and cycles

A local module whose dependencies are known and whose files can be read has a `b5` digest unless
local modules on the way depend on each other. The induction is on the number of dependencies: once
the check has passed, every local dependency has fewer of them.
-/

namespace ProtoWorkspace.ModuleSet

open Relation

/-- Whether two local modules depend on each other, one of which is `x` or a dependency of `x`. -/
def IsCyclic (s : ModuleSet) (io : Access (Except Error)) (x : Module) : Prop :=
  ∃ y z, (y = x ∨ s.HasDependency io x y) ∧ y.isLocal = true ∧ z.isLocal = true ∧
    s.HasDependency io y z ∧ s.HasDependency io z y

/-- Whether everything that the `b5` digest of a local module covers is at hand: its dependencies
are known, the files of all these modules can be read, and the keys that remote ones were published
with have `b5` digests. -/
structure IsSupplied (s : ModuleSet) (io : Access (Except Error)) (x : Module) : Prop where
  dependencies : Succeeds (s.dependencies io x)
  contents (y : Module) (hy : y = x ∨ s.HasDependency io x y) : Succeeds (y.contents io)
  keys (y : Module) (hy : s.HasDependency io x y) (hl : y.isLocal = false) :
    ∃ keys, y.declaredKeys io = .ok keys ∧
      ∀ key ∈ keys, ∃ g, s.keyDigest io key = .ok g ∧ g.type = .b5

variable {s : ModuleSet} {io : Access (Except Error)} {disk : Disk} {sets : List ModuleSet}
variable {x y : Module}

/-- What a module needs is also there for a dependency that does not depend on it in turn. -/
theorem IsSupplied.dependency (h : io.IsPlain disk sets) (hx : x ∈ s.modules)
    (hs : s.IsSupplied io x) (hxy : s.HasDependency io x y) (hyx : ¬ s.HasDependency io y x) :
    s.IsSupplied io y where
  dependencies := hxy.succeeds h hx
  contents z hz := by
    rcases hz with rfl | hyz
    · exact hs.contents z (.inr hxy)
    · exact hs.contents z (.inr (hxy.trans h hx hyz fun hzx => hyx (hzx ▸ hyz)))
  keys z hyz hl := hs.keys z (hxy.trans h hx hyz fun hzx => hyx (hzx ▸ hyz)) hl

/-- A cycle that can be reached from a dependency can be reached from the module, as long as the
dependency does not depend on it in turn. -/
theorem IsCyclic.of_dependency (h : io.IsPlain disk sets) (hx : x ∈ s.modules)
    (hxy : s.HasDependency io x y) (hyx : ¬ s.HasDependency io y x) (hc : s.IsCyclic io y) :
    s.IsCyclic io x := by
  obtain ⟨a, b, ha, hal, hbl, hab, hba⟩ := hc
  refine ⟨a, b, .inr ?_, hal, hbl, hab, hba⟩
  rcases ha with rfl | hya
  · exact hxy
  · exact hxy.trans h hx hya fun hax => hyx (hax ▸ hya)

/-- A dependency that does not depend on the module in turn has fewer dependencies. -/
theorem length_dependencies_lt (h : io.IsPlain disk sets) (hx : x ∈ s.modules)
    (hxy : s.HasDependency io x y) (hyx : ¬ s.HasDependency io y x) {ds ds' : List Dependency}
    (hds : s.dependencies io x = .ok ds) (hds' : s.dependencies io y = .ok ds') :
    ds'.length < ds.length := by
  have hy := hxy.mem_modules h hx
  have nodup : (y :: ds'.map Dependency.module).Nodup := by
    refine List.nodup_cons.2 ⟨fun hmem => ?_, ?_⟩
    · obtain ⟨d, hd, hdy⟩ := List.mem_map.1 hmem
      exact (hasDependency_of_mem hds' hd).ne h hy hdy
    · have sorted := pairwise_dependencies h hy hds'
      refine List.pairwise_map.2 (sorted.imp fun hab same => ?_)
      rw [same] at hab
      exact lt_irrefl _ hab
  have subset : y :: ds'.map Dependency.module ⊆ ds.map Dependency.module := by
    intro z hz
    have hxz : s.HasDependency io x z := by
      rcases List.mem_cons.1 hz with rfl | hz
      · exact hxy
      · obtain ⟨d, hd, rfl⟩ := List.mem_map.1 hz
        have hyd := hasDependency_of_mem hds' hd
        exact hxy.trans h hx hyd fun hdx => hyx (hdx ▸ hyd)
    obtain ⟨d, hd, rfl⟩ := hxz.exists_mem hds
    exact List.mem_map.2 ⟨d, hd, rfl⟩
  have fewer := (List.subperm_of_subset nodup subset).length_le
  rw [List.length_cons, List.length_map, List.length_map] at fewer
  exact fewer

theorem exists_of_checkNoCycle_eq_error {ds : List Dependency} {e : Error}
    (hk : ∀ d ∈ ds, Succeeds (s.dependencies io d.module))
    (he : s.checkNoCycle io x ds = .error e) :
    ∃ d ∈ ds, e = .dependencyCycle x.description d.module.description := by
  induction ds with
  | nil => cases he
  | cons d rest ih =>
    obtain ⟨⟨back, hback⟩, hrest⟩ := List.forall_mem_cons.1 hk
    have later : s.checkNoCycle io x rest = .error e →
        ∃ d' ∈ d :: rest, e = .dependencyCycle x.description d'.module.description := by
      intro he
      obtain ⟨d', hd', hd''⟩ := ih hrest he
      exact ⟨d', List.mem_cons_of_mem _ hd', hd''⟩
    rw [checkNoCycle] at he
    by_cases hl : d.module.isLocal = true
    · rw [if_pos hl, hback] at he
      simp only [Fallible.ok_bind] at he
      by_cases hc : back.any (·.module.identity == x.identity) = true
      · rw [if_pos hc] at he
        cases he
        exact ⟨d, List.mem_cons_self, rfl⟩
      · rw [if_neg hc] at he
        exact later he
    · rw [if_neg hl] at he
      exact later he

/-- A remote module has a `b5` digest if its files can be read and its keys have one. -/
theorem succeeds_digest_of_not_isLocal (h : io.IsPlain disk sets) (hl : x.isLocal = false)
    (hcontents : Succeeds (x.contents io)) {keys : List ModuleKey}
    (hkeys : x.declaredKeys io = .ok keys)
    (hall : ∀ key ∈ keys, ∃ g, s.keyDigest io key = .ok g ∧ g.type = .b5) :
    Succeeds (s.digest io x .b5) := by
  have sorted : ∀ key ∈ sortedByName keys, ∃ g, s.keyDigest io key = .ok g ∧ g.type = .b5 :=
    fun key hkey => hall key (List.mem_mergeSort.1 hkey)
  obtain ⟨digests, hdigests⟩ := Fallible.succeeds_mapM.2 fun key hkey =>
    (sorted key hkey).imp fun _ => And.left
  obtain ⟨files, hfiles⟩ := hcontents
  have typed : ∀ d ∈ digests, d.type = .b5 := by
    intro d hd
    obtain ⟨key, hkey, hd⟩ := Fallible.exists_of_mem_mapM hdigests hd
    obtain ⟨g, hg, htype⟩ := sorted key hkey
    rw [hd] at hg
    cases hg
    exact htype
  rw [digest_eq_of_not_isLocal h hl, hkeys, Fallible.ok_bind, hdigests, Fallible.ok_bind, hfiles]
  exact succeeds_b5 typed

/-- Whether the search for a digest reports a cycle. -/
def EndsInCycle (result : Except Error Digest) : Prop :=
  ∃ a b, result = .error (.dependencyCycle a b)

/-- Digests that are looked for one after the other are not all found when one search reports a
cycle; as none fails otherwise, a cycle is reported. -/
theorem exists_mapM_eq_dependencyCycle {f : Dependency → Except Error Digest}
    {ds : List Dependency} (each : ∀ d ∈ ds, Succeeds (f d) ∨ EndsInCycle (f d))
    {d : Dependency} (hd : d ∈ ds) (hc : EndsInCycle (f d)) :
    ∃ a b, ds.mapM f = .error (.dependencyCycle a b) := by
  cases hall : ds.mapM f with
  | ok digests =>
    obtain ⟨a, b, hab⟩ := hc
    obtain ⟨g, -, hg⟩ := Fallible.exists_mem_of_mapM hall hd
    rw [hab] at hg
    cases hg
  | error e =>
    obtain ⟨d', hd', he⟩ := Fallible.exists_of_mapM_eq_error hall
    rcases each d' hd' with hok | ⟨a, b, hab⟩
    · rw [he] at hok
      exact absurd hok (Fallible.not_succeeds_error e)
    · rw [hab] at he
      cases he
      exact ⟨a, b, rfl⟩

/-- Once the check has passed, a cycle that can be reached can be reached from a local
dependency. -/
theorem IsCyclic.exists_dependency {ds : List Dependency} (hds : s.dependencies io x = .ok ds)
    (noBack : ∀ d ∈ ds, d.module.isLocal = true → ¬ s.HasDependency io d.module x)
    (hc : s.IsCyclic io x) : ∃ d ∈ ds, d.module.isLocal = true ∧ s.IsCyclic io d.module := by
  obtain ⟨y, z, hy, hyl, hzl, hyz, hzy⟩ := hc
  have hxy : s.HasDependency io x y := by
    rcases hy with rfl | hxy
    · obtain ⟨d, hd, rfl⟩ := hyz.exists_mem hds
      exact absurd hzy (noBack d hd hzl)
    · exact hxy
  obtain ⟨d, hd, rfl⟩ := hxy.exists_mem hds
  exact ⟨d, hd, hyl, d.module, z, .inl rfl, hyl, hzl, hyz, hzy⟩

/-- Once the check has passed, a local module has a digest if all its dependencies have. -/
theorem succeeds_digest_of_isLocal (h : io.IsPlain disk sets) (hx : x ∈ s.modules)
    (hl : x.isLocal = true) {ds : List Dependency} (hds : s.dependencies io x = .ok ds)
    (hcheck : s.checkNoCycle io x ds = .ok ()) (hcontents : Succeeds (x.contents io))
    (all : ∀ d ∈ ds, Succeeds (s.digest io d.module .b5)) : Succeeds (s.digest io x .b5) := by
  obtain ⟨digests, hdigests⟩ := Fallible.succeeds_mapM.2 all
  obtain ⟨files, hfiles⟩ := hcontents
  have typed : ∀ g ∈ digests, g.type = .b5 := by
    intro g hg
    obtain ⟨d, hd, hg⟩ := Fallible.exists_of_mem_mapM hdigests hg
    exact type_of_digest_b5 h (mem_modules_of_mem_dependencies h hx hds hd) hg
  rw [digest_eq_of_isLocal h hx hl, hds, Fallible.ok_bind, hcheck, Fallible.ok_bind, hdigests,
    Fallible.ok_bind, hfiles]
  exact succeeds_b5 typed

/-- Once the check has passed, the search from a local module reports a cycle if that from one of its
dependencies does. -/
theorem endsInCycle_digest_of_isLocal (h : io.IsPlain disk sets) (hx : x ∈ s.modules)
    (hl : x.isLocal = true) {ds : List Dependency} (hds : s.dependencies io x = .ok ds)
    (hcheck : s.checkNoCycle io x ds = .ok ())
    (each : ∀ d ∈ ds, Succeeds (s.digest io d.module .b5) ∨
      EndsInCycle (s.digest io d.module .b5))
    {d : Dependency} (hd : d ∈ ds) (stuck : EndsInCycle (s.digest io d.module .b5)) :
    EndsInCycle (s.digest io x .b5) := by
  obtain ⟨a, b, hab⟩ := exists_mapM_eq_dependencyCycle each hd stuck
  refine ⟨a, b, ?_⟩
  rw [digest_eq_of_isLocal h hx hl, hds, Fallible.ok_bind, hcheck, Fallible.ok_bind, hab]
  rfl

/-- A local module at hand has a `b5` digest exactly when no cycle can be reached from it, and
otherwise the search reports a cycle. -/
theorem digest_cases (h : io.IsPlain disk sets) (hx : x ∈ s.modules) (hl : x.isLocal = true)
    (hs : s.IsSupplied io x) :
    (¬ s.IsCyclic io x ∧ Succeeds (s.digest io x .b5)) ∨
      (s.IsCyclic io x ∧ EndsInCycle (s.digest io x .b5)) := by
  obtain ⟨ds, hds⟩ := hs.dependencies
  induction hn : ds.length using Nat.strong_induction_on generalizing x ds with
  | _ n ih =>
  subst hn
  have known : ∀ d ∈ ds, Succeeds (s.dependencies io d.module) := fun d hd =>
    (hasDependency_of_mem hds hd).succeeds h hx
  cases hcheck : s.checkNoCycle io x ds with
  | error e =>
    obtain ⟨d, -, rfl⟩ := exists_of_checkNoCycle_eq_error known hcheck
    have fails : ¬ s.checkNoCycle io x ds = .ok () := by
      rw [hcheck]
      simp
    rw [checkNoCycle_eq_ok_iff h hx hds] at fails
    push Not at fails
    obtain ⟨d', hd', hdl, back⟩ := fails
    refine .inr ⟨⟨x, d'.module, .inl rfl, hl, hdl, hasDependency_of_mem hds hd', back⟩, ?_⟩
    rw [digest_eq_of_isLocal h hx hl, hds, Fallible.ok_bind, hcheck]
    exact ⟨_, _, rfl⟩
  | ok _ =>
    have noBack := (checkNoCycle_eq_ok_iff h hx hds).1 hcheck
    have localCases : ∀ d ∈ ds, d.module.isLocal = true →
        (¬ s.IsCyclic io d.module ∧ Succeeds (s.digest io d.module .b5)) ∨
          (s.IsCyclic io d.module ∧ EndsInCycle (s.digest io d.module .b5)) := by
      intro d hd hdl
      have hxd := hasDependency_of_mem hds hd
      obtain ⟨ds', hds'⟩ := known d hd
      exact ih ds'.length (length_dependencies_lt h hx hxd (noBack d hd hdl) hds hds')
        (hxd.mem_modules h hx) hdl (hs.dependency h hx hxd (noBack d hd hdl)) ds' hds' rfl
    have remoteCase : ∀ d ∈ ds, d.module.isLocal = false →
        Succeeds (s.digest io d.module .b5) := by
      intro d hd hdl
      have hxd := hasDependency_of_mem hds hd
      obtain ⟨keys, hkeys, hall⟩ := hs.keys d.module hxd hdl
      exact succeeds_digest_of_not_isLocal h hdl (hs.contents d.module (.inr hxd)) hkeys hall
    by_cases hcyclic : s.IsCyclic io x
    · obtain ⟨d, hd, hdl, hdc⟩ := hcyclic.exists_dependency hds noBack
      have stuck := (localCases d hd hdl).resolve_left fun ⟨hnot, _⟩ => hnot hdc
      refine .inr ⟨hcyclic, endsInCycle_digest_of_isLocal h hx hl hds hcheck ?_ hd stuck.2⟩
      intro d hd
      cases hdl : d.module.isLocal with
      | true => exact (localCases d hd hdl).imp And.right And.right
      | false => exact .inl (remoteCase d hd hdl)
    · refine .inl ⟨hcyclic, succeeds_digest_of_isLocal h hx hl hds hcheck
        (hs.contents x (.inl rfl)) ?_⟩
      intro d hd
      cases hdl : d.module.isLocal with
      | true =>
        refine ((localCases d hd hdl).resolve_right fun ⟨hc, _⟩ => hcyclic ?_).2
        exact hc.of_dependency h hx (hasDependency_of_mem hds hd) (noBack d hd hdl)
      | false => exact remoteCase d hd hdl

end ProtoWorkspace.ModuleSet
