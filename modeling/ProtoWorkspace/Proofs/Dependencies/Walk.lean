import Mathlib.Data.String.Basic
import Mathlib.Logic.Relation
import Mathlib.Tactic
import ProtoWorkspace.Proofs.Access.Plain
import ProtoWorkspace.Dependencies

/-!
# The walk along imports

The walk from the modules in a queue gives exactly the unvisited modules to which imports lead, each
once, and it fails exactly when the imports of a module on the way cannot be followed. From this the
dependencies of a module are described by paths of the relation `Leads`, without the walk.
-/

namespace ProtoWorkspace.ModuleSet

open Relation

theorem eq_of_identity {s : ModuleSet} {x y : Module} (hx : x ∈ s.modules) (hy : y ∈ s.modules)
    (h : x.identity = y.identity) : x = y :=
  List.inj_on_of_nodup_map s.nodup_identity hx hy h

/-- Whether the imports of `x` can be followed and lead to the module `y` of the set. -/
def Leads (s : ModuleSet) (io : Access (Except Error)) (x y : Module) : Prop :=
  y ∈ s.modules ∧ ∃ found, s.importedIdentities io x = .ok found ∧ y.identity ∈ found

theorem mem_divide_left {modules : List Module} {identities : List String} {y : Module} :
    y ∈ (divide modules identities).1 ↔ y ∈ modules ∧ y.identity ∈ identities := by
  simp [divide, List.partition_eq_filter_filter]

theorem mem_divide_right {modules : List Module} {identities : List String} {y : Module} :
    y ∈ (divide modules identities).2 ↔ y ∈ modules ∧ y.identity ∉ identities := by
  simp [divide, List.partition_eq_filter_filter]

theorem divide_perm (modules : List Module) (identities : List String) :
    ((divide modules identities).1 ++ (divide modules identities).2).Perm modules := by
  rw [divide, List.partition_eq_filter_filter]
  exact List.filter_append_perm _ modules

section Reach

variable {s : ModuleSet} {io : Access (Except Error)}

theorem reach_nil (unvisited reached : List Module) :
    s.reach io [] unvisited reached = .ok reached := by
  rw [reach]
  rfl

theorem reach_cons (x : Module) (queue unvisited reached : List Module) :
    s.reach io (x :: queue) unvisited reached = (do
      let found ← s.importedIdentities io x
      s.reach io (queue ++ (divide unvisited found).1) (divide unvisited found).2
        (reached ++ (divide unvisited found).1)) := by
  rw [reach]

/-- What the walk gives was reached before or is on a path from the queue. -/
theorem reach_sound {queue unvisited reached result : List Module}
    (hu : ∀ y ∈ unvisited, y ∈ s.modules)
    (h : s.reach io queue unvisited reached = .ok result) :
    ∀ y ∈ result, y ∈ reached ∨ y ∈ unvisited ∧ ∃ z ∈ queue, TransGen (s.Leads io) z y := by
  induction queue, unvisited, reached using reach.induct with
  | case1 unvisited reached =>
    rw [reach_nil] at h
    cases h
    exact fun y hy => .inl hy
  | case2 unvisited reached x queue ih =>
    rw [reach_cons] at h
    obtain ⟨found, hfound, h⟩ := Fallible.bind_eq_ok.1 h
    have new : ∀ y ∈ (divide unvisited found).1, y ∈ unvisited ∧ s.Leads io x y := by
      intro y hy
      obtain ⟨hmem, hid⟩ := mem_divide_left.1 hy
      exact ⟨hmem, hu y hmem, found, hfound, hid⟩
    intro y hy
    rcases ih found (fun z hz => hu z (mem_divide_right.1 hz).1) h y hy with hy | ⟨hy, z, hz, path⟩
    · rcases List.mem_append.1 hy with hy | hy
      · exact .inl hy
      · exact .inr ⟨(new y hy).1, x, List.mem_cons_self, .single (new y hy).2⟩
    · refine .inr ⟨(mem_divide_right.1 hy).1, ?_⟩
      rcases List.mem_append.1 hz with hz | hz
      · exact ⟨z, List.mem_cons_of_mem _ hz, path⟩
      · exact ⟨x, List.mem_cons_self, .head (new z hz).2 path⟩

/-- The walk keeps what was reached. Of the modules that were queued, or that it reached itself, it
followed the imports, and it gives all unvisited modules to which they lead. -/
theorem reach_complete {queue unvisited reached result : List Module}
    (h : s.reach io queue unvisited reached = .ok result) :
    reached ⊆ result ∧ ∀ z, z ∈ queue ∨ z ∈ result ∧ z ∉ reached →
      ∃ found, s.importedIdentities io z = .ok found ∧
        ∀ y ∈ unvisited, y.identity ∈ found → y ∈ result := by
  induction queue, unvisited, reached using reach.induct with
  | case1 unvisited reached =>
    rw [reach_nil] at h
    cases h
    refine ⟨fun _ => id, ?_⟩
    rintro z (hz | ⟨hz, hz'⟩)
    · simp at hz
    · exact absurd hz hz'
  | case2 unvisited reached x queue ih =>
    rw [reach_cons] at h
    obtain ⟨found, hfound, h⟩ := Fallible.bind_eq_ok.1 h
    obtain ⟨hsub, hrest⟩ := ih found h
    -- what is found for `x` is reached now, and for all others it is unvisited still
    have later : ∀ {found' : List String},
        (∀ y ∈ (divide unvisited found).2, y.identity ∈ found' → y ∈ result) →
        ∀ y ∈ unvisited, y.identity ∈ found' → y ∈ result := by
      intro found' hfound' y hy hid
      by_cases hnew : y.identity ∈ found
      · exact hsub (List.mem_append_right _ (mem_divide_left.2 ⟨hy, hnew⟩))
      · exact hfound' y (mem_divide_right.2 ⟨hy, hnew⟩) hid
    refine ⟨fun y hy => hsub (List.mem_append_left _ hy), ?_⟩
    intro z hz
    by_cases hx : z = x
    · subst hx
      refine ⟨found, hfound, fun y hy hid => ?_⟩
      exact hsub (List.mem_append_right _ (mem_divide_left.2 ⟨hy, hid⟩))
    · have queued : z ∈ queue ++ (divide unvisited found).1 ∨
          z ∈ result ∧ z ∉ reached ++ (divide unvisited found).1 := by
        rcases hz with hz | ⟨hz, hz'⟩
        · exact .inl (List.mem_append_left _ ((List.mem_cons.1 hz).resolve_left hx))
        · by_cases hnew : z ∈ (divide unvisited found).1
          · exact .inl (List.mem_append_right _ hnew)
          · exact .inr ⟨hz, fun hmem => (List.mem_append.1 hmem).elim hz' hnew⟩
      obtain ⟨found', hfound', hsub'⟩ := hrest z queued
      exact ⟨found', hfound', later hsub'⟩

theorem reach_error {queue unvisited reached : List Module} {e : Error}
    (hu : ∀ y ∈ unvisited, y ∈ s.modules)
    (h : s.reach io queue unvisited reached = .error e) :
    ∃ q ∈ queue, ∃ z, ReflTransGen (s.Leads io) q z ∧ s.importedIdentities io z = .error e := by
  induction queue, unvisited, reached using reach.induct with
  | case1 unvisited reached =>
    rw [reach_nil] at h
    cases h
  | case2 unvisited reached x queue ih =>
    rw [reach_cons] at h
    rcases Fallible.bind_eq_error.1 h with h | ⟨found, hfound, h⟩
    · exact ⟨x, List.mem_cons_self, x, .refl, h⟩
    · obtain ⟨q, hq, z, path, he⟩ := ih found (fun z hz => hu z (mem_divide_right.1 hz).1) h
      rcases List.mem_append.1 hq with hq | hq
      · exact ⟨q, List.mem_cons_of_mem _ hq, z, path, he⟩
      · obtain ⟨hmem, hid⟩ := mem_divide_left.1 hq
        exact ⟨x, List.mem_cons_self, z, .head ⟨hu q hmem, found, hfound, hid⟩ path, he⟩

theorem reach_nodup {queue unvisited reached result : List Module}
    (hn : (reached ++ unvisited).Nodup)
    (h : s.reach io queue unvisited reached = .ok result) : result.Nodup := by
  induction queue, unvisited, reached using reach.induct with
  | case1 unvisited reached =>
    rw [reach_nil] at h
    cases h
    exact hn.of_append_left
  | case2 unvisited reached x queue ih =>
    rw [reach_cons] at h
    obtain ⟨found, -, h⟩ := Fallible.bind_eq_ok.1 h
    refine ih found ?_ h
    rw [List.append_assoc]
    exact ((divide_perm unvisited found).append_left reached).nodup_iff.2 hn

end Reach

theorem mem_restrict {s : ModuleSet} {identities : List String} {y : Module} :
    y ∈ s.restrict identities ↔ y ∈ s.modules ∧ y.identity ∈ identities := by
  simp [restrict]

theorem isAmong_iff {x : Module} {modules : List Module} :
    isAmong x modules = true ↔ ∃ y ∈ modules, y.identity = x.identity := by
  simp [isAmong]

/-- What the imports of a module lead to are other modules that provide an imported path. -/
theorem exists_provider_of_mem {s : ModuleSet} {io : Access (Except Error)} {x : Module}
    {found : List String} (h : s.importedIdentities io x = .ok found) {identity : String}
    (hid : identity ∈ found) : ∃ imported y, s.provider io imported = .ok (some y) ∧
      y.identity = identity ∧ identity ≠ x.identity := by
  obtain ⟨paths, -, h⟩ := Fallible.bind_eq_ok.1 h
  obtain ⟨perFile, hfiles, h⟩ := Fallible.bind_eq_ok.1 h
  cases h
  obtain ⟨file, hfile, hid⟩ := List.mem_flatten.1 hid
  obtain ⟨path, -, hpath⟩ := Fallible.exists_of_mem_mapM hfiles hfile
  obtain ⟨imports, -, hpath⟩ := Fallible.bind_eq_ok.1 hpath
  obtain ⟨targets, htargets, hpath⟩ := Fallible.bind_eq_ok.1 hpath
  cases hpath
  obtain ⟨y, hy, rfl⟩ := List.mem_map.1 hid
  obtain ⟨target, htarget, rfl⟩ := List.mem_filterMap.1 hy
  obtain ⟨imported, -, himported⟩ := Fallible.exists_of_mem_mapM htargets htarget
  obtain ⟨provider, hprovider, himported⟩ := Fallible.bind_eq_ok.1 himported
  cases provider with
  | none =>
    dsimp only at himported
    split at himported
    · obtain ⟨-, -, himported⟩ := Fallible.bind_eq_ok.1 himported
      cases himported
    · cases himported
  | some z =>
    dsimp only at himported
    split at himported
    · cases himported
    · next hne =>
      cases himported
      exact ⟨imported, y, hprovider, rfl, hne⟩

theorem identity_not_mem_importedIdentities {s : ModuleSet} {io : Access (Except Error)}
    {x : Module} {found : List String} (h : s.importedIdentities io x = .ok found) :
    x.identity ∉ found := by
  intro hx
  obtain ⟨_, _, _, _, hne⟩ := exists_provider_of_mem h hx
  exact hne rfl

section Dependencies

variable {s : ModuleSet} {io : Access (Except Error)} {disk : Disk} {sets : List ModuleSet}
variable {x : Module}

/-- The modules that are not found at the start of the walk. -/
def unvisited (s : ModuleSet) (x : Module) (found : List String) : List Module :=
  s.modules.filter (!isAmong · (x :: s.restrict found))

theorem dependencies_eq (h : io.IsPlain disk sets) (x : Module) :
    s.dependencies io x = (do
      let found ← s.importedIdentities io x
      let reached ← s.reach io (s.restrict found) (s.unvisited x found) (s.restrict found)
      return (reached.mergeSort fun a b => decide (a.identity ≤ b.identity)).map fun y =>
        ⟨y, isAmong y (s.restrict found)⟩) := by
  refine (h.remember_eq _ _ rfl).trans ?_
  rw [imported, bind_assoc]
  rfl

/-- A module of the set is where the walk starts, was found there, or is not visited yet. -/
theorem eq_or_mem_of_mem {found : List String} (hx : x ∈ s.modules) {y : Module}
    (hy : y ∈ s.modules) : y = x ∨ y ∈ s.restrict found ∨ y ∈ s.unvisited x found := by
  by_cases ha : isAmong y (x :: s.restrict found) = true
  · obtain ⟨z, hz, hid⟩ := isAmong_iff.1 ha
    rcases List.mem_cons.1 hz with rfl | hz
    · exact .inl (eq_of_identity hy hx hid.symm)
    · have same := eq_of_identity (mem_restrict.1 hz).1 hy hid
      exact .inr (.inl (same ▸ hz))
  · exact .inr (.inr (List.mem_filter.2 ⟨hy, by simpa using ha⟩))

theorem mem_unvisited {found : List String} {y : Module} (hy : y ∈ s.unvisited x found) :
    y ∈ s.modules ∧ y ≠ x ∧ y ∉ s.restrict found := by
  obtain ⟨hmem, ha⟩ := List.mem_filter.1 hy
  rw [Bool.not_eq_true', ← Bool.not_eq_true, isAmong_iff] at ha
  refine ⟨hmem, fun he => ha ⟨x, List.mem_cons_self, by rw [he]⟩, fun hr => ?_⟩
  exact ha ⟨y, List.mem_cons_of_mem _ hr, rfl⟩

/-- A walk that ends has found the modules on the paths that start at `x`, and none has been in
the way of going on. -/
theorem mem_reached (hx : x ∈ s.modules) {found : List String} {reached : List Module}
    (hfound : s.importedIdentities io x = .ok found)
    (h : s.reach io (s.restrict found) (s.unvisited x found) (s.restrict found) = .ok reached) :
    (∀ y, y ∈ reached ↔ y ≠ x ∧ TransGen (s.Leads io) x y) ∧
      ∀ y, ReflTransGen (s.Leads io) x y → Succeeds (s.importedIdentities io y) := by
  have direct : ∀ y, s.Leads io x y ↔ y ∈ s.restrict found := by
    intro y
    rw [mem_restrict]
    constructor
    · rintro ⟨hy, found', hfound', hid⟩
      rw [hfound] at hfound'
      cases hfound'
      exact ⟨hy, hid⟩
    · exact fun ⟨hy, hid⟩ => ⟨hy, found, hfound, hid⟩
  obtain ⟨hsub, hrest⟩ := reach_complete h
  have followed : ∀ z ∈ reached, ∃ found', s.importedIdentities io z = .ok found' ∧
      ∀ y ∈ s.unvisited x found, y.identity ∈ found' → y ∈ reached := by
    intro z hz
    by_cases hd : z ∈ s.restrict found
    · exact hrest z (.inl hd)
    · exact hrest z (.inr ⟨hz, hd⟩)
  have closed : ∀ z, z = x ∨ z ∈ reached → ∀ y, s.Leads io z y → y = x ∨ y ∈ reached := by
    rintro z (rfl | hz) y hy
    · exact .inr (hsub ((direct y).1 hy))
    · obtain ⟨hmem, found', hfound', hid⟩ := hy
      obtain ⟨found'', hfound'', hall⟩ := followed z hz
      rw [hfound'] at hfound''
      cases hfound''
      rcases eq_or_mem_of_mem hx hmem with rfl | hd | hu
      · exact .inl rfl
      · exact .inr (hsub hd)
      · exact .inr (hall y hu hid)
  have reachedOf : ∀ y, ReflTransGen (s.Leads io) x y → y = x ∨ y ∈ reached := by
    intro y path
    induction path with
    | refl => exact .inl rfl
    | tail _ step ih => exact closed _ ih _ step
  refine ⟨fun y => ⟨fun hy => ?_, fun ⟨hne, path⟩ => (reachedOf y path.to_reflTransGen).resolve_left hne⟩, ?_⟩
  · have start : ∀ z ∈ s.restrict found, z ≠ x := by
      rintro z hz rfl
      exact identity_not_mem_importedIdentities hfound (mem_restrict.1 hz).2
    rcases reach_sound (fun z hz => (mem_unvisited hz).1) h y hy with hy | ⟨hy, z, hz, path⟩
    · exact ⟨start y hy, .single ((direct y).2 hy)⟩
    · exact ⟨(mem_unvisited hy).2.1, .head ((direct z).2 hz) path⟩
  · intro y path
    rcases reachedOf y path with rfl | hy
    · exact ⟨found, hfound⟩
    · obtain ⟨found', hfound', -⟩ := followed y hy
      exact ⟨found', hfound'⟩

/-- The dependencies of a module are known exactly when the imports of every module on a path from
it can be followed. -/
theorem succeeds_dependencies_iff (h : io.IsPlain disk sets) (hx : x ∈ s.modules) :
    Succeeds (s.dependencies io x) ↔
      ∀ y, ReflTransGen (s.Leads io) x y → Succeeds (s.importedIdentities io y) := by
  rw [dependencies_eq h]
  constructor
  · rintro ⟨ds, hds⟩
    obtain ⟨found, hfound, hds⟩ := Fallible.bind_eq_ok.1 hds
    obtain ⟨reached, hreached, -⟩ := Fallible.bind_eq_ok.1 hds
    exact (mem_reached hx hfound hreached).2
  · intro all
    by_contra hfail
    obtain ⟨e, he⟩ := Fallible.exists_error_of_not_succeeds hfail
    have stuck : ∃ y, ReflTransGen (s.Leads io) x y ∧ s.importedIdentities io y = .error e := by
      rcases Fallible.bind_eq_error.1 he with he | ⟨found, hfound, he⟩
      · exact ⟨x, .refl, he⟩
      · rcases Fallible.bind_eq_error.1 he with he | ⟨reached, -, he⟩
        · obtain ⟨q, hq, z, path, hz⟩ := reach_error (fun z hz => (mem_unvisited hz).1) he
          obtain ⟨hmem, hid⟩ := mem_restrict.1 hq
          exact ⟨z, .head ⟨hmem, found, hfound, hid⟩ path, hz⟩
        · cases he
    obtain ⟨y, path, hy⟩ := stuck
    have := all y path
    rw [hy] at this
    exact Fallible.not_succeeds_error e this

/-- The dependencies of a module are the other modules on paths from it, and the direct ones are a
single step away. -/
theorem mem_dependencies_iff (h : io.IsPlain disk sets) (hx : x ∈ s.modules)
    {ds : List Dependency} (hds : s.dependencies io x = .ok ds) (d : Dependency) :
    d ∈ ds ↔ d.module ≠ x ∧ TransGen (s.Leads io) x d.module ∧
      (d.isDirect = true ↔ s.Leads io x d.module) := by
  rw [dependencies_eq h] at hds
  obtain ⟨found, hfound, hds⟩ := Fallible.bind_eq_ok.1 hds
  obtain ⟨reached, hreached, hds⟩ := Fallible.bind_eq_ok.1 hds
  cases hds
  obtain ⟨hmem, -⟩ := mem_reached hx hfound hreached
  have direct : ∀ y ∈ s.modules, isAmong y (s.restrict found) = true ↔ s.Leads io x y := by
    intro y hy
    rw [isAmong_iff]
    constructor
    · rintro ⟨z, hz, hid⟩
      obtain ⟨-, hz⟩ := mem_restrict.1 hz
      exact ⟨hy, found, hfound, hid ▸ hz⟩
    · rintro ⟨-, found', hfound', hid⟩
      rw [hfound] at hfound'
      cases hfound'
      exact ⟨y, mem_restrict.2 ⟨hy, hid⟩, rfl⟩
  have inSet : ∀ y, TransGen (s.Leads io) x y → y ∈ s.modules := by
    intro y path
    cases path with
    | single step => exact step.1
    | tail _ step => exact step.1
  rw [List.mem_map]
  constructor
  · rintro ⟨y, hy, rfl⟩
    obtain ⟨hne, path⟩ := (hmem y).1 (List.mem_mergeSort.1 hy)
    exact ⟨hne, path, direct y (inSet y path)⟩
  · rintro ⟨hne, path, hdirect⟩
    refine ⟨d.module, List.mem_mergeSort.2 ((hmem _).2 ⟨hne, path⟩), ?_⟩
    have flag : isAmong d.module (s.restrict found) = d.isDirect := by
      rw [Bool.eq_iff_iff, direct _ (inSet _ path), hdirect]
    rw [flag]

theorem mem_modules_of_mem_dependencies (h : io.IsPlain disk sets) (hx : x ∈ s.modules)
    {ds : List Dependency} (hds : s.dependencies io x = .ok ds) {d : Dependency} (hd : d ∈ ds) :
    d.module ∈ s.modules := by
  obtain ⟨-, path, -⟩ := (mem_dependencies_iff h hx hds d).1 hd
  obtain ⟨_, -, step⟩ := TransGen.tail'_iff.1 path
  exact step.1

theorem decide_le_trans {α : Type} (text : α → String) (a b c : α) :
    decide (text a ≤ text b) = true → decide (text b ≤ text c) = true →
      decide (text a ≤ text c) = true := by
  simp only [decide_eq_true_eq]
  exact le_trans

theorem decide_le_total {α : Type} (text : α → String) (a b : α) :
    (decide (text a ≤ text b) || decide (text b ≤ text a)) = true := by
  rw [Bool.or_eq_true, decide_eq_true_eq, decide_eq_true_eq]
  exact le_total _ _

theorem pairwise_sortedBy {α : Type} (text : α → String) (xs : List α) :
    (xs.mergeSort fun a b => decide (text a ≤ text b)).Pairwise fun a b => text a ≤ text b :=
  (List.pairwise_mergeSort (decide_le_trans text) (decide_le_total text) xs).imp fun hab =>
    of_decide_eq_true hab

theorem pairwise_dependencies (h : io.IsPlain disk sets) (hx : x ∈ s.modules)
    {ds : List Dependency} (hds : s.dependencies io x = .ok ds) :
    ds.Pairwise fun a b => a.module.identity < b.module.identity := by
  have inSet : ∀ d ∈ ds, d.module ∈ s.modules := fun d hd =>
    mem_modules_of_mem_dependencies h hx hds hd
  rw [dependencies_eq h] at hds
  obtain ⟨found, hfound, hds⟩ := Fallible.bind_eq_ok.1 hds
  obtain ⟨reached, hreached, hds⟩ := Fallible.bind_eq_ok.1 hds
  cases hds
  have start : (s.restrict found ++ s.unvisited x found).Nodup := by
    have hn : s.modules.Nodup := s.nodup_identity.of_map
    refine List.nodup_append'.2 ⟨hn.filter _, hn.filter _, ?_⟩
    intro y hy hu
    exact (mem_unvisited hu).2.2 hy
  have distinct : (reached.mergeSort fun a b => decide (a.identity ≤ b.identity)).Nodup :=
    (List.mergeSort_perm _ _).nodup_iff.2 (reach_nodup start hreached)
  have members : ∀ y ∈ reached.mergeSort (fun a b => decide (a.identity ≤ b.identity)),
      y ∈ s.modules := by
    intro y hy
    exact inSet _ (List.mem_map.2 ⟨y, hy, rfl⟩)
  rw [List.pairwise_map]
  refine ((pairwise_sortedBy Module.identity reached).and distinct).imp_of_mem ?_
  intro a b ha hb ⟨le, ne⟩
  exact lt_of_le_of_ne le fun same => ne (eq_of_identity (members a ha) (members b hb) same)

end Dependencies

end ProtoWorkspace.ModuleSet
