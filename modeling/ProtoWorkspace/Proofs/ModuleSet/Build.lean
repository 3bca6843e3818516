import Mathlib.Tactic
import ProtoWorkspace.ModuleSet.Build
import ProtoWorkspace.Proofs.Fallible

/-!
# What a built set is made of

Every module of a built set stands for an addition, from which it differs at most in its target
flag. Remote additions with different names are all kept as they are.
-/

namespace ProtoWorkspace

open Fallible

namespace Addition

/-- Whether two placed additions differ at most in the target flag. -/
def IsAs (a b : Source × Addition) : Prop :=
  a.1 = b.1 ∧ a.2 = { b.2 with isTarget := a.2.isTarget }

theorem IsAs.refl (a : Source × Addition) : IsAs a a := ⟨rfl, rfl⟩

theorem IsAs.trans {a b c : Source × Addition} (hab : IsAs a b) (hbc : IsAs b c) : IsAs a c := by
  refine ⟨hab.1.trans hbc.1, ?_⟩
  rw [hab.2, hbc.2]

def label (a : Addition) : String :=
  (a.description.filter (· ≠ "")).getD (identityOf a.name a.bucketId)

theorem toModule_eq_ok {a : Addition} {source : Source} {x : Module}
    (h : a.toModule source = .ok x) :
    x.source = source ∧ x.bucketId = a.bucketId ∧ x.description = a.label ∧ x.name = a.name ∧
      x.commit = a.commit ∧ x.isTarget = a.isTarget ∧ x.isLocal = a.isLocal ∧
      x.inputs = a.inputs := by
  unfold toModule at h
  split_ifs at h
  obtain ⟨includes, -, h⟩ := bind_eq_ok.1 h
  obtain ⟨excludes, -, h⟩ := bind_eq_ok.1 h
  cases h
  exact ⟨rfl, rfl, rfl, rfl, rfl, rfl, rfl, rfl⟩

theorem succeeds_toModule_ofRemote (key : ModuleKey) (inputs : Inputs) (isTarget : Bool)
    (source : Source) : Succeeds ((ofRemote key inputs isTarget).toModule source) := by
  simp [toModule, ofRemote, normalizeAll]

end Addition

theorem Module.identity_of_name {x : Module} {name : FullName} (h : x.name = some name) :
    x.identity = name.text := by
  rw [Module.identity, h, identityOf]

namespace ModuleSet

open Addition

theorem mem_merge {incoming : Source × Addition} {kept result : List (Source × Addition)}
    (h : merge incoming kept = .ok result) {p : Source × Addition} (hp : p ∈ result) :
    ∃ q ∈ incoming :: kept, IsAs p q := by
  induction kept generalizing result with
  | nil =>
    cases h
    exact ⟨p, hp, .refl p⟩
  | cons old rest ih =>
    have later : ∀ {result}, (old :: ·) <$> merge incoming rest = .ok result → p ∈ result →
        ∃ q ∈ incoming :: old :: rest, IsAs p q := by
      intro result h hp
      obtain ⟨merged, hmerged, rfl⟩ := map_eq_ok.1 h
      rcases List.mem_cons.1 hp with rfl | hp
      · exact ⟨p, by simp, .refl p⟩
      · obtain ⟨q, hq, same⟩ := ih hmerged hp
        refine ⟨q, ?_, same⟩
        rcases List.mem_cons.1 hq with rfl | hq
        · exact List.mem_cons_self
        · simp [hq]
    unfold merge at h
    split at h
    · exact later h hp
    · split at h
      · exact later h hp
      · split at h
        · cases h
          exact ⟨p, by simpa [or_comm, or_assoc, or_left_comm] using hp, .refl p⟩
        · cases h
          exact ⟨p, List.mem_cons_of_mem _ hp, .refl p⟩
        · cases h
          refine ⟨p, ?_, .refl p⟩
          rcases List.mem_cons.1 hp with rfl | hp
          · exact List.mem_cons_self
          · simp [hp]
        · split at h
          · cases h
            rcases List.mem_cons.1 hp with rfl | hp
            · exact ⟨old, by simp, rfl, rfl⟩
            · exact ⟨p, by simp [hp], .refl p⟩
          · cases h

theorem mem_mergeAll {additions kept : List (Source × Addition)}
    (h : mergeAll additions = .ok kept) {p : Source × Addition} (hp : p ∈ kept) :
    ∃ q ∈ additions, IsAs p q := by
  have all : ∀ p ∈ kept, ∃ q ∈ additions, IsAs p q := by
    refine foldlM_keeps (P := fun kept => ∀ p ∈ kept, ∃ q ∈ additions, IsAs p q) ?_
      (by simp) h
    intro kept incoming merged hincoming hkept hmerge p hp
    obtain ⟨q, hq, same⟩ := mem_merge hmerge hp
    rcases List.mem_cons.1 hq with rfl | hq
    · exact ⟨q, hincoming, same⟩
    · obtain ⟨q', hq', same'⟩ := hkept q hq
      exact ⟨q', hq', same.trans same'⟩
  exact all p hp

theorem ofModules_eq_ok {number : Nat} {parser : ImportParser} {modules : List Module}
    {t : ModuleSet} (h : ofModules number parser modules = .ok t) :
    t.number = number ∧ t.parser = parser ∧ t.modules = modules := by
  unfold ofModules at h
  split at h
  · cases h
  · cases h
    exact ⟨rfl, rfl, rfl⟩

theorem build_eq_ok {number : Nat} {parser : ImportParser} {additions : List Addition}
    {t : ModuleSet} (h : build number parser additions = .ok t) :
    t.number = number ∧ t.parser = parser ∧
      ∃ kept, mergeAll (additions.zipIdx.map fun (a, position) => (⟨number, position⟩, a)) =
        .ok kept ∧ (kept.mapM fun (source, a) => a.toModule source) = .ok t.modules := by
  obtain ⟨kept, hkept, h⟩ := bind_eq_ok.1 h
  obtain ⟨modules, hmodules, h⟩ := bind_eq_ok.1 h
  obtain ⟨hn, hp, rfl⟩ := ofModules_eq_ok h
  exact ⟨hn, hp, kept, hkept, hmodules⟩

/-- Every module of a built set is made of the addition at the position of its source, perhaps with
another target flag. -/
theorem exists_made_of_mem_build {number : Nat} {parser : ImportParser} {additions : List Addition}
    {t : ModuleSet} (h : build number parser additions = .ok t) {x : Module} (hx : x ∈ t.modules) :
    x.source.set = number ∧ ∃ a, additions[x.source.position]? = some a ∧
      Addition.toModule { a with isTarget := x.isTarget } x.source = .ok x := by
  obtain ⟨-, -, kept, hkept, hmodules⟩ := build_eq_ok h
  obtain ⟨⟨source, b⟩, hb, hx⟩ := exists_of_mem_mapM hmodules hx
  obtain ⟨⟨source', a⟩, ha, same, hba⟩ := mem_mergeAll hkept hb
  obtain ⟨⟨a', position⟩, ha', hplaced⟩ := List.mem_map.1 ha
  obtain ⟨rfl, rfl⟩ := Prod.mk.inj hplaced
  dsimp only at same hba hx
  obtain ⟨hsource, -, -, -, -, htarget, -⟩ := toModule_eq_ok hx
  refine ⟨by rw [hsource, same], a', ?_, ?_⟩
  · rw [hsource, same]
    exact List.mem_zipIdx_iff_getElem?.1 ha'
  · rw [hsource, htarget, ← hba]
    exact hx

/-- Every module of a built set has its inputs and its label from the addition at the position of
its source. -/
theorem exists_addition_of_mem_build {number : Nat} {parser : ImportParser}
    {additions : List Addition} {t : ModuleSet} (h : build number parser additions = .ok t)
    {x : Module} (hx : x ∈ t.modules) :
    x.source.set = number ∧ ∃ a, additions[x.source.position]? = some a ∧
      x.inputs = a.inputs ∧ x.description = a.label := by
  obtain ⟨set, a, ha, made⟩ := exists_made_of_mem_build h hx
  obtain ⟨-, -, label, -, -, -, -, inputs⟩ := toModule_eq_ok made
  exact ⟨set, a, ha, inputs, label⟩

/-! ## Additions with different names -/

theorem merge_cons_of_ne {incoming old : Source × Addition} {kept : List (Source × Addition)}
    (other : incoming.2.name.isSome → old.2.name ≠ incoming.2.name) :
    merge incoming (old :: kept) = (old :: ·) <$> merge incoming kept := by
  rw [merge]
  cases h : incoming.2.name with
  | none => rfl
  | some name =>
    rw [h] at other
    exact if_pos (other rfl)

theorem merge_of_forall_ne {incoming : Source × Addition} {kept : List (Source × Addition)}
    (h : ∀ p ∈ kept, incoming.2.name.isSome → p.2.name ≠ incoming.2.name) :
    merge incoming kept = .ok (kept ++ [incoming]) := by
  induction kept with
  | nil => rfl
  | cons old rest ih =>
    obtain ⟨hold, hrest⟩ := List.forall_mem_cons.1 h
    rw [merge_cons_of_ne hold, ih hrest]
    rfl

/-- Additions that are each put behind all before them are all kept. -/
theorem mergeAll_of_appended {additions : List (Source × Addition)}
    (h : ∀ before p after, additions = before ++ p :: after →
      merge p before = .ok (before ++ [p])) : mergeAll additions = .ok additions := by
  have kept : ∀ (before rest : List (Source × Addition)), additions = before ++ rest →
      rest.foldlM (fun kept incoming => merge incoming kept) before = .ok additions := by
    intro before rest
    induction rest generalizing before with
    | nil =>
      intro split
      rw [split, List.append_nil]
      rfl
    | cons p rest ih =>
      intro split
      rw [List.foldlM_cons, h before p rest split, ok_bind]
      apply ih
      rw [split, List.append_cons]
  exact kept [] additions rfl

/-- Additions of which no two have the same name are all kept. -/
theorem mergeAll_of_pairwise {additions : List (Source × Addition)}
    (h : additions.Pairwise fun p q => q.2.name.isSome → p.2.name ≠ q.2.name) :
    mergeAll additions = .ok additions := by
  apply mergeAll_of_appended
  rintro before p after rfl
  exact merge_of_forall_ne fun q hq => (List.pairwise_append.1 h).2.2 q hq p List.mem_cons_self

/-- Local additions are put behind local ones. -/
theorem merge_of_isLocal {incoming : Source × Addition} (hl : incoming.2.isLocal = true)
    {kept : List (Source × Addition)} (hk : ∀ p ∈ kept, p.2.isLocal = true) :
    merge incoming kept = .ok (kept ++ [incoming]) := by
  induction kept with
  | nil => rfl
  | cons old rest ih =>
    obtain ⟨hold, hrest⟩ := List.forall_mem_cons.1 hk
    rw [merge, ih hrest]
    split
    · rfl
    · split
      · rfl
      · simp [hold, hl]

theorem mergeAll_of_isLocal {additions : List (Source × Addition)}
    (hl : ∀ p ∈ additions, p.2.isLocal = true) : mergeAll additions = .ok additions := by
  apply mergeAll_of_appended
  rintro before p after rfl
  exact merge_of_isLocal (hl p (by simp)) fun q hq => hl q (by simp [hq])

theorem firstClash_eq_none {identities buckets : List String} {modules : List Module}
    (hi : ∀ x ∈ modules, x.identity ∉ identities)
    (hb : ∀ x ∈ modules, x.bucketId ≠ "" → x.bucketId ∉ buckets)
    (hd : (modules.map Module.identity).Nodup)
    (hdb : ((modules.map Module.bucketId).filter (· ≠ "")).Nodup) :
    firstClash identities buckets modules = none := by
  induction modules generalizing identities buckets with
  | nil => rfl
  | cons x rest ih =>
    obtain ⟨hxi, hri⟩ := List.forall_mem_cons.1 hi
    obtain ⟨hxb, hrb⟩ := List.forall_mem_cons.1 hb
    obtain ⟨hx, hd⟩ := List.nodup_cons.1 hd
    have different : x.bucketId ≠ "" → ∀ y ∈ rest, y.bucketId ≠ x.bucketId := by
      intro hne y hy same
      rw [List.map_cons, List.filter_cons_of_pos (by simpa using hne)] at hdb
      refine (List.nodup_cons.1 hdb).1 (List.mem_filter.2 ⟨?_, by simpa using hne⟩)
      exact same ▸ List.mem_map_of_mem hy
    rw [firstClash, if_neg hxi, if_neg fun clash => hxb clash.1 clash.2]
    refine ih (fun y hy hmem => ?_) (fun y hy hne hmem => ?_) hd ?_
    · rcases List.mem_cons.1 hmem with same | hmem
      · exact hx (same ▸ List.mem_map_of_mem hy)
      · exact hri y hy hmem
    · rcases List.mem_cons.1 hmem with same | hmem
      · exact different (same ▸ hne) y hy same
      · exact hrb y hy hne hmem
    · rw [List.map_cons, List.filter_cons] at hdb
      split at hdb
      · exact (List.nodup_cons.1 hdb).2
      · exact hdb

theorem succeeds_ofModules {number : Nat} {parser : ImportParser} {modules : List Module}
    (h : firstClash [] [] modules = none) : Succeeds (ofModules number parser modules) := by
  unfold ofModules
  split
  · next e he =>
    rw [h] at he
    cases he
  · exact succeeds_ok _

/-- Modules only clash with their identities or their directories. -/
theorem firstClash_eq_some {identities buckets : List String} {modules : List Module} {e : Error}
    (h : firstClash identities buckets modules = some e) :
    (∃ id, e = .duplicateModule id) ∨ ∃ id, e = .duplicateBucket id := by
  induction modules generalizing identities buckets with
  | nil => cases h
  | cons m rest ih =>
    rw [firstClash] at h
    split at h
    · cases h
      exact .inl ⟨_, rfl⟩
    · split at h
      · cases h
        exact .inr ⟨_, rfl⟩
      · exact ih h

theorem ofModules_eq_error {number : Nat} {parser : ImportParser} {modules : List Module}
    {e : Error} (h : ofModules number parser modules = .error e) :
    (∃ id, e = .duplicateModule id) ∨ ∃ id, e = .duplicateBucket id := by
  unfold ofModules at h
  split at h
  · next clash =>
    cases h
    exact firstClash_eq_some clash
  · cases h

theorem nodup_identity_of_nodup_name {modules : List Module} (hn : ∀ x ∈ modules, x.name.isSome)
    (hd : (modules.map Module.name).Nodup) : (modules.map Module.identity).Nodup := by
  refine List.pairwise_map.2 ((List.pairwise_map.1 hd).imp_of_mem ?_)
  intro x y hx hy hne same
  obtain ⟨name, hname⟩ := Option.isSome_iff_exists.1 (hn x hx)
  obtain ⟨name', hname'⟩ := Option.isSome_iff_exists.1 (hn y hy)
  rw [Module.identity_of_name hname, Module.identity_of_name hname'] at same
  rw [hname, hname', FullName.text_injective same] at hne
  exact hne rfl

/-- Remote additions with different names make a set, with one module for each of them in the same
order. -/
theorem build_ofRemote {number : Nat} {parser : ImportParser} {additions : List Addition}
    (hr : ∀ a ∈ additions, ∃ key inputs isTarget, a = ofRemote key inputs isTarget)
    (hd : (additions.map Addition.name).Nodup) :
    ∃ t, build number parser additions = .ok t ∧
      List.Forall₂ (fun a x => ∃ source, a.toModule source = .ok x) additions t.modules := by
  let placed : List (Source × Addition) :=
    additions.zipIdx.map fun (a, position) => (⟨number, position⟩, a)
  have unplaced : placed.map Prod.snd = additions := by
    rw [List.map_map]
    exact List.zipIdx_map_fst 0 additions
  have remote : ∀ p ∈ placed, ∃ key inputs isTarget, p.2 = ofRemote key inputs isTarget :=
    fun p hp => hr p.2 (unplaced ▸ List.mem_map_of_mem hp)
  have kept : mergeAll placed = .ok placed := by
    rw [← unplaced, List.map_map] at hd
    refine mergeAll_of_pairwise ((List.pairwise_map.1 hd).imp ?_)
    exact fun differ _ => differ
  obtain ⟨modules, hmodules⟩ := succeeds_mapM.2 fun p hp => by
    obtain ⟨key, inputs, isTarget, ha⟩ := remote p hp
    exact ha ▸ succeeds_toModule_ofRemote key inputs isTarget p.1
  have made : List.Forall₂ (fun a x => ∃ source, a.toModule source = .ok x) additions modules := by
    rw [← unplaced, List.forall₂_map_left_iff]
    exact (mapM_eq_ok.1 hmodules).imp fun p x hx => ⟨p.1, hx⟩
  have form : ∀ x ∈ modules, x.bucketId = "" ∧ x.name.isSome := by
    intro x hx
    obtain ⟨p, hp, hx⟩ := exists_of_mem_mapM hmodules hx
    obtain ⟨key, inputs, isTarget, ha⟩ := remote p hp
    obtain ⟨-, directory, -, name, -⟩ := toModule_eq_ok hx
    rw [directory, name, ha]
    exact ⟨rfl, rfl⟩
  have names : modules.map Module.name = additions.map Addition.name :=
    map_eq_map_of_forall₂ (made.flip.imp fun x a ⟨source, hx⟩ => (toModule_eq_ok hx).2.2.2.1)
  have different := nodup_identity_of_nodup_name (fun x hx => (form x hx).2) (names ▸ hd)
  have noDirectory : (modules.map Module.bucketId).filter (· ≠ "") = [] := by
    simpa [List.filter_eq_nil_iff] using fun x hx => (form x hx).1
  obtain ⟨t, ht⟩ := succeeds_ofModules
    (firstClash_eq_none (by simp) (by simp) different (noDirectory ▸ .nil))
  refine ⟨t, ?_, (ofModules_eq_ok ht).2.2 ▸ made⟩
  exact bind_eq_ok.2 ⟨placed, kept, bind_eq_ok.2 ⟨modules, hmodules, ht⟩⟩

end ModuleSet

end ProtoWorkspace
