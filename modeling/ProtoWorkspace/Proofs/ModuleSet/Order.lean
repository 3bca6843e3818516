import Mathlib.Tactic
import ProtoWorkspace.Proofs.ModuleSet.Contents

/-!
# The order of additions

Sets that are built of the same additions in different orders have the same modules, up to what they
are made of. Whether a set can be built depends on the order only through remote additions at
different commits: they are refused when they meet, but not after a local addition of their name.
-/

namespace ProtoWorkspace

open Fallible
open scoped List

namespace Addition

/-- Whether the addition is one of a local or of a remote module. -/
inductive IsProper : Addition → Prop
  | ofLocal (bucket : Bucket) (bucketId : String) (options : LocalOptions) :
      IsProper (.ofLocal bucket bucketId options)
  | ofRemote (key : ModuleKey) (inputs : Inputs) (isTarget : Bool) :
      IsProper (.ofRemote key inputs isTarget)

/-- The addition of an empty module. -/
def bare (a : Addition) : Addition :=
  { a with inputs := ⟨.ready (.memory ⟨[]⟩), .ready none, .ready none, .ready []⟩ }

theorem IsProper.of_isRemote {a : Addition} (h : a.IsProper) (remote : a.isLocal = false) :
    ∃ key inputs isTarget, a = .ofRemote key inputs isTarget := by
  cases h with
  | ofLocal => cases remote
  | ofRemote key inputs isTarget => exact ⟨key, inputs, isTarget, rfl⟩

/-- What a remote addition says is its name, its commit and whether it is a target. -/
theorem IsProper.bare_eq {a b : Addition} (ha : a.IsProper) (hb : b.IsProper)
    (remote : a.isLocal = false) (remote' : b.isLocal = false) (name : a.name = b.name)
    (commit : a.commit = b.commit) (isTarget : Bool) :
    { a with isTarget := isTarget }.bare = { b with isTarget := isTarget }.bare := by
  obtain ⟨key, inputs, target, rfl⟩ := ha.of_isRemote remote
  obtain ⟨key', inputs', target', rfl⟩ := hb.of_isRemote remote'
  rw [bare, bare, name, commit]
  rfl

theorem succeeds_toModule {a : Addition} {source : Source} : Succeeds (a.toModule source) ↔
    ¬ (a.bucketId = "" ∧ a.name.isNone) ∧ ¬ (a.isLocal = false ∧ a.name.isNone) ∧
      ¬ (a.name.isNone ∧ a.commit.isNone = false) ∧ Succeeds (normalizeAll a.includes) ∧
      Succeeds (normalizeAll a.excludes) := by
  unfold toModule
  split_ifs with unidentified unnamed committed
  · simp [unidentified]
  · simp [unnamed]
  · simp [committed]
  · simp only [unidentified, unnamed, committed, not_false_eq_true, true_and]
    constructor
    · intro h
      obtain ⟨includes, hincludes, h⟩ := succeeds_bind.1 h
      obtain ⟨excludes, hexcludes, -⟩ := succeeds_bind.1 h
      exact ⟨⟨includes, hincludes⟩, ⟨excludes, hexcludes⟩⟩
    · rintro ⟨⟨includes, hincludes⟩, ⟨excludes, hexcludes⟩⟩
      exact succeeds_bind.2 ⟨includes, hincludes, succeeds_bind.2 ⟨excludes, hexcludes, succeeds_ok _⟩⟩

theorem succeeds_toModule_bare {a : Addition} {source source' : Source} :
    Succeeds (a.bare.toModule source) ↔ Succeeds (a.toModule source') := by
  rw [succeeds_toModule, succeeds_toModule]
  rfl

end Addition

namespace ModuleSet

open Addition

/-- Whether the additions can be the modules of a set. -/
structure IsFit (additions : List Addition) : Prop where
  succeeds : ∀ a ∈ additions, Succeeds (a.toModule ⟨0, 0⟩)
  identities : (additions.map Addition.identity).Nodup
  directories : ((additions.map Addition.bucketId).filter (· ≠ "")).Nodup

theorem IsFit.perm {additions additions' : List Addition} (h : IsFit additions)
    (perm : additions.Perm additions') : IsFit additions' where
  succeeds a ha := h.succeeds a (perm.mem_iff.2 ha)
  identities := (perm.map _).nodup_iff.1 h.identities
  directories := ((perm.map _).filter _).nodup_iff.1 h.directories

variable {number number' : Nat} {parser parser' : ImportParser}
  {additions additions' : List Addition} {kept kept' : List (Source × Addition)}

theorem succeeds_build_iff : Succeeds (build number parser additions) ↔
    ∃ kept, mergeAll (placed number additions) = .ok kept ∧ IsFit (kept.map (·.2.bare)) := by
  constructor
  · rintro ⟨t, h⟩
    obtain ⟨-, -, kept, hkept, hmodules⟩ := build_eq_ok h
    have made : List.Forall₂ (fun p x => p.2.Makes x) kept t.modules :=
      (mapM_eq_ok.1 hmodules).imp fun _ _ => makes_of_toModule
    have identities := t.nodup_identity
    have directories := t.nodup_bucketId
    rw [← map_eq_map_of_forall₂ (made.imp fun _ _ h => h.identity.symm)] at identities
    rw [← map_eq_map_of_forall₂ (made.imp fun _ _ h => h.bucketId.symm)] at directories
    refine ⟨kept, hkept, ?_, ?_, ?_⟩
    · intro a ha
      obtain ⟨p, hp, rfl⟩ := List.mem_map.1 ha
      obtain ⟨x, -, hx⟩ := exists_mem_of_mapM hmodules hp
      exact succeeds_toModule_bare.2 ⟨x, hx⟩
    · rwa [List.map_map]
    · rwa [List.map_map]
  · rintro ⟨kept, hkept, fit⟩
    obtain ⟨modules, hmodules⟩ :=
      (succeeds_mapM (f := fun (p : Source × Addition) => p.2.toModule p.1)).2 fun p hp =>
        succeeds_toModule_bare.1 (fit.succeeds _ (List.mem_map_of_mem hp))
    have made : List.Forall₂ (fun p x => p.2.Makes x) kept modules :=
      (mapM_eq_ok.1 hmodules).imp fun _ _ => makes_of_toModule
    have identities := fit.identities
    have directories := fit.directories
    rw [List.map_map] at identities directories
    have clash : firstClash [] [] modules = none := by
      refine firstClash_eq_none (by simp) (by simp) ?_ ?_
      · rw [← map_eq_map_of_forall₂ (made.imp fun _ _ h => h.identity.symm)]
        exact identities
      · rw [← map_eq_map_of_forall₂ (made.imp fun _ _ h => h.bucketId.symm)]
        exact directories
    exact succeeds_bind.2 ⟨kept, hkept, succeeds_bind.2 ⟨modules, hmodules, succeeds_ofModules clash⟩⟩

/-! ## What is kept in another order -/

section

variable (proper : ∀ a ∈ additions, a.IsProper) (perm : additions.Perm additions')
  (hkept : mergeAll (placed number additions) = .ok kept)
  (hkept' : mergeAll (placed number' additions') = .ok kept')

include proper perm hkept hkept'

/-- A remote addition that is kept in one order is kept in the other, or another one that says the
same. -/
theorem exists_bare_eq {p : Source × Addition} (hp : p ∈ kept) (passes : p.2.stays = false) :
    ∃ q ∈ kept', q.2.stays = false ∧ q.2.bare = p.2.bare := by
  have settled := settles_mergeAll hkept
  have settled' := settles_mergeAll hkept'
  obtain ⟨remote, named⟩ := stays_eq_false.1 passes
  obtain ⟨agree, target⟩ := settled.remote p hp passes
  obtain ⟨p₀, hp₀, -, hpp₀⟩ := mem_mergeAll hkept hp
  obtain ⟨p₁, hp₁, same₁⟩ := exists_mem_placed number' (perm.subset (mem_of_mem_placed hp₀))
  obtain ⟨q, hq, hqname⟩ := settled'.covers p₁ hp₁
  have name : q.2.name = p.2.name := by rw [hqname, same₁, hpp₀]
  obtain ⟨q₀, hq₀, -, hqq₀⟩ := mem_mergeAll hkept' hq
  have added := perm.symm.subset (mem_of_mem_placed hq₀)
  obtain ⟨q₁, hq₁, same₂⟩ := exists_mem_placed number added
  obtain ⟨remote', commit⟩ := agree q₁ hq₁ (by rw [same₂, ← name, hqq₀])
  rw [same₂] at remote' commit
  have passes' : q.2.stays = false :=
    stays_eq_false.2 ⟨by rw [hqq₀]; exact remote', name ▸ named⟩
  refine ⟨q, hq, passes', ?_⟩
  obtain ⟨-, target'⟩ := settled'.remote q hq passes'
  have isTarget : q.2.isTarget = p.2.isTarget := by
    rw [Bool.eq_iff_iff, target, target', name]
    constructor
    · rintro ⟨r, hr, same, ht⟩
      obtain ⟨r', hr', same'⟩ :=
        exists_mem_placed number (perm.symm.subset (mem_of_mem_placed hr))
      exact ⟨r', hr', same' ▸ same, same' ▸ ht⟩
    · rintro ⟨r, hr, same, ht⟩
      obtain ⟨r', hr', same'⟩ :=
        exists_mem_placed number' (perm.subset (mem_of_mem_placed hr))
      exact ⟨r', hr', same' ▸ same, same' ▸ ht⟩
  rw [hqq₀, hpp₀, isTarget]
  refine (proper _ added).bare_eq (proper _ (mem_of_mem_placed hp₀)) remote' ?_ ?_ ?_ _
  · rw [hpp₀] at remote
    exact remote
  · rw [hqq₀, hpp₀] at name
    exact name
  · rw [commit, hpp₀]

end

theorem nodup_bare_of_isDistinct (h : IsDistinct kept) :
    ((kept.filter (!·.2.stays)).map (·.2.bare)).Nodup := by
  refine List.pairwise_map.2 (List.Pairwise.imp_of_mem ?_ (List.Pairwise.filter _ h))
  intro p q hp _ both same
  obtain ⟨-, passes⟩ := List.mem_filter.1 hp
  obtain ⟨remote, named⟩ := stays_eq_false.1 (by simpa using passes)
  have name : p.2.bare.name = q.2.bare.name := congrArg Addition.name same
  have := (both named name).1
  simp [remote] at this

theorem perm_stays (settled : Settles (placed number additions) kept)
    (settled' : Settles (placed number' additions') kept') (perm : additions.Perm additions') :
    ((kept.filter (·.2.stays)).map (·.2.bare)).Perm ((kept'.filter (·.2.stays)).map (·.2.bare)) := by
  have arrived : ∀ (number : Nat) (additions : List Addition),
      ((placed number additions).filter (·.2.stays)).map (·.2.bare) =
        (additions.filter (·.stays)).map bare := by
    intro number additions
    conv_rhs => rw [← map_snd_placed number additions, List.filter_map, List.map_map]
    rfl
  calc (kept.filter (·.2.stays)).map (·.2.bare)
    _ ~ ((placed number additions).filter (·.2.stays)).map (·.2.bare) := settled.stays.map _
    _ = (additions.filter (·.stays)).map bare := arrived number additions
    _ ~ (additions'.filter (·.stays)).map bare := (perm.filter _).map _
    _ = ((placed number' additions').filter (·.2.stays)).map (·.2.bare) :=
        (arrived number' additions').symm
    _ ~ (kept'.filter (·.2.stays)).map (·.2.bare) := (settled'.stays.map _).symm

/-- In another order the same additions are kept, up to their sources and what they are made of. -/
theorem perm_kept (proper : ∀ a ∈ additions, a.IsProper) (perm : additions.Perm additions')
    (hkept : mergeAll (placed number additions) = .ok kept)
    (hkept' : mergeAll (placed number' additions') = .ok kept') :
    (kept.map (·.2.bare)).Perm (kept'.map (·.2.bare)) := by
  have settled := settles_mergeAll hkept
  have settled' := settles_mergeAll hkept'
  have proper' : ∀ a ∈ additions', a.IsProper := fun a ha => proper a (perm.mem_iff.2 ha)
  have others : ((kept.filter (!·.2.stays)).map (·.2.bare)).Perm
      ((kept'.filter (!·.2.stays)).map (·.2.bare)) := by
    refine (List.perm_ext_iff_of_nodup (nodup_bare_of_isDistinct settled.distinct)
      (nodup_bare_of_isDistinct settled'.distinct)).2 fun a => ?_
    simp only [List.mem_map, List.mem_filter, Bool.not_eq_true']
    constructor
    · rintro ⟨p, ⟨hp, passes⟩, rfl⟩
      obtain ⟨q, hq, passes', same⟩ := exists_bare_eq proper perm hkept hkept' hp passes
      exact ⟨q, ⟨hq, passes'⟩, same⟩
    · rintro ⟨p, ⟨hp, passes⟩, rfl⟩
      obtain ⟨q, hq, passes', same⟩ := exists_bare_eq proper' perm.symm hkept' hkept hp passes
      exact ⟨q, ⟨hq, passes'⟩, same⟩
  have parts : ∀ kept : List (Source × Addition), ((kept.filter (·.2.stays)).map (·.2.bare) ++
      (kept.filter (!·.2.stays)).map (·.2.bare)).Perm (kept.map (·.2.bare)) := by
    intro kept
    rw [← List.map_append]
    exact (List.filter_append_perm _ kept).map _
  exact (parts kept).symm.trans (((perm_stays settled settled' perm).append others).trans (parts kept'))

/-! ## Which orders can be built -/

/-- Whether remote additions of one name agree on the commit where there is a local one too. -/
def IsSettled (additions : List Addition) : Prop :=
  ∀ a ∈ additions, ∀ b ∈ additions, ∀ c ∈ additions, a.isLocal = true → b.isLocal = false →
    c.isLocal = false → a.name = b.name → a.name = c.name → b.commit = c.commit

/-- Where a set can be built, remote additions disagree at most on a name that has a local one. -/
theorem agree_of_mergeAll (hkept : mergeAll (placed number additions) = .ok kept)
    (settled : IsSettled additions) {b c : Addition} (hb : b ∈ additions) (hc : c ∈ additions)
    (hbr : b.isLocal = false) (hcr : c.isLocal = false) (named : b.name.isSome)
    (same : b.name = c.name) : b.commit = c.commit := by
  obtain ⟨p, hp, rfl⟩ := exists_mem_placed number hb
  obtain ⟨q, hq, hname⟩ := (settles_mergeAll hkept).covers p hp
  by_cases hlocal : q.2.isLocal = true
  · obtain ⟨r, hr, -, hqr⟩ := mem_mergeAll hkept hq
    rw [hqr] at hlocal hname
    exact settled r.2 (mem_of_mem_placed hr) p.2 hb c hc hlocal hbr hcr hname (hname.trans same)
  · have passes : q.2.stays = false :=
      stays_eq_false.2 ⟨Bool.eq_false_of_not_eq_true hlocal, hname ▸ named⟩
    obtain ⟨agree, -⟩ := (settles_mergeAll hkept).remote q hq passes
    obtain ⟨r, hr, rfl⟩ := exists_mem_placed number hc
    rw [(agree p hp hname.symm).2, (agree r hr (same.symm.trans hname.symm)).2]

theorem IsSettled.perm (h : IsSettled additions) (perm : additions.Perm additions') :
    IsSettled additions' := by
  intro a ha b hb c hc
  exact h a (perm.mem_iff.2 ha) b (perm.mem_iff.2 hb) c (perm.mem_iff.2 hc)

theorem succeeds_build_of_perm (proper : ∀ a ∈ additions, a.IsProper) (settled : IsSettled additions)
    (perm : additions.Perm additions') (h : Succeeds (build number parser additions)) :
    Succeeds (build number' parser' additions') := by
  obtain ⟨kept, hkept, fit⟩ := succeeds_build_iff.1 h
  have agree : ∀ p ∈ placed number' additions', ∀ q ∈ placed number' additions',
      p.2.isLocal = false → q.2.isLocal = false → p.2.name = q.2.name → p.2.commit = q.2.commit := by
    intro p hp q hq hpr hqr same
    have added := perm.mem_iff.2 (mem_of_mem_placed hp)
    have named : p.2.name.isSome := by
      obtain ⟨key, inputs, isTarget, h⟩ := (proper _ added).of_isRemote hpr
      rw [h]
      rfl
    exact agree_of_mergeAll hkept settled added (perm.mem_iff.2 (mem_of_mem_placed hq)) hpr hqr
      named same
  obtain ⟨kept', hkept'⟩ := succeeds_mergeAll agree
  exact succeeds_build_iff.2 ⟨kept', hkept', fit.perm (perm_kept proper perm hkept hkept')⟩

/-- Remote additions at different commits are refused when they meet first. -/
theorem not_succeeds_mergeAll {b c : Source × Addition} {rest : List (Source × Addition)}
    (named : b.2.name.isSome) (same : b.2.name = c.2.name) (hb : b.2.isLocal = false)
    (hc : c.2.isLocal = false) (disagree : b.2.commit ≠ c.2.commit) :
    ¬ Succeeds (mergeAll (b :: c :: rest)) := by
  obtain ⟨name, hname⟩ := Option.isSome_iff_exists.1 named
  have refused : merge c [b] =
      .error (.conflictingCommits name.text b.2.commit.plain c.2.commit.plain) := by
    rw [merge, ← same, hname]
    simp [hb, hc, disagree]
  rw [mergeAll, List.foldlM_cons, merge, ok_bind, List.foldlM_cons, refused]
  exact not_succeeds_error _

/-- A set can be built in every order exactly when it can be built in one and no remote additions
disagree on a name. -/
theorem forall_perm_succeeds_iff (proper : ∀ a ∈ additions, a.IsProper) :
    (∀ l, additions.Perm l → Succeeds (build number parser l)) ↔
      Succeeds (build number parser additions) ∧ IsSettled additions := by
  constructor
  · intro all
    refine ⟨all additions (.refl _), fun a _ b hb c hc _ hbr hcr hab hac => ?_⟩
    by_contra disagree
    obtain ⟨before, after, rfl⟩ := List.append_of_mem hb
    have hc' : c ∈ before ++ after := by
      rcases List.mem_append.1 hc with hc | hc
      · exact List.mem_append_left _ hc
      · rcases List.mem_cons.1 hc with rfl | hc
        · exact absurd rfl disagree
        · exact List.mem_append_right _ hc
    obtain ⟨before', after', hrest⟩ := List.append_of_mem hc'
    have first : (before ++ b :: after).Perm (b :: c :: (before' ++ after')) := by
      refine List.perm_middle.trans (.cons b ?_)
      rw [hrest]
      exact List.perm_middle
    obtain ⟨kept, hkept, -⟩ := succeeds_build_iff.1 (all _ first)
    have named : b.name.isSome := by
      obtain ⟨key, inputs, isTarget, h⟩ := (proper b hb).of_isRemote hbr
      rw [h]
      rfl
    exact not_succeeds_mergeAll named (hab.symm.trans hac) hbr hcr disagree ⟨kept, hkept⟩
  · rintro ⟨succeeds, settled⟩ l perm
    exact succeeds_build_of_perm proper settled perm succeeds

end ModuleSet

/-- What a module is apart from its files. -/
def Module.outline (x : Module) : String × Bool × CommitId × Bool :=
  (x.identity, x.isLocal, x.commit, x.isTarget)

namespace Addition

/-- What the module of an addition is apart from its files. -/
def outline (a : Addition) : String × Bool × CommitId × Bool :=
  (a.identity, a.isLocal, a.commit, a.isTarget)

@[simp]
theorem outline_bare (a : Addition) : a.bare.outline = a.outline :=
  rfl

theorem Makes.outline {a : Addition} {x : Module} (h : a.Makes x) : x.outline = a.outline := by
  rw [Module.outline, h.identity, h.isLocal, h.commit, h.isTarget, Addition.outline]

end Addition

namespace ModuleSet

open Addition

variable {number number' : Nat} {parser parser' : ImportParser}
  {additions additions' : List Addition}

theorem map_outline_of_made {kept : List (Source × Addition)} {modules : List Module}
    (made : List.Forall₂ (fun p x => p.2.toModule p.1 = .ok x) kept modules) :
    (kept.map (·.2.bare)).map outline = modules.map Module.outline := by
  rw [List.map_map]
  refine map_eq_map_of_forall₂ (made.imp fun p x hx => ?_)
  rw [(makes_of_toModule hx).outline]
  exact outline_bare p.2

/-- Sets that are built of the same additions in two orders have modules of the same identities, each
local or not, at the same commit and a target or not. Both orders can be built or neither, if remote
additions of one name agree on the commit where there is a local one too. -/
theorem build_perm (proper : ∀ a ∈ additions, a.IsProper) (perm : additions.Perm additions') :
    (∀ t t', build number parser additions = .ok t → build number' parser' additions' = .ok t' →
      (t.modules.map Module.outline).Perm (t'.modules.map Module.outline)) ∧
    (IsSettled additions →
      (Succeeds (build number parser additions) ↔ Succeeds (build number' parser' additions'))) := by
  refine ⟨fun t t' h h' => ?_, fun settled => ⟨?_, ?_⟩⟩
  · obtain ⟨-, -, kept, hkept, hmodules⟩ := build_eq_ok h
    obtain ⟨-, -, kept', hkept', hmodules'⟩ := build_eq_ok h'
    rw [← map_outline_of_made (mapM_eq_ok.1 hmodules), ← map_outline_of_made (mapM_eq_ok.1 hmodules')]
    exact (perm_kept proper perm hkept hkept').map outline
  · exact succeeds_build_of_perm proper settled perm
  · exact succeeds_build_of_perm (fun a ha => proper a (perm.mem_iff.2 ha)) (settled.perm perm)
      perm.symm

end ModuleSet

namespace Sample

theorem isProper_shared {a : Addition} (ha : a ∈ [sharedLocal, olderRemote, newerRemote]) :
    a.IsProper := by
  simp only [List.mem_cons, List.not_mem_nil, or_false] at ha
  rcases ha with rfl | rfl | rfl
  · exact .ofLocal _ _ _
  · exact .ofRemote _ _ _
  · exact .ofRemote _ _ _

/-- One remote addition can come before the local one of its name or after it. -/
theorem outline_shared : ∃ t t',
    ModuleSet.build 0 .standard [sharedLocal, olderRemote] = .ok t ∧
      ModuleSet.build 1 .standard [olderRemote, sharedLocal] = .ok t' ∧
      (t.modules.map Module.outline).Perm (t'.modules.map Module.outline) := by
  have proper : ∀ a ∈ [sharedLocal, olderRemote], a.IsProper := by
    intro a ha
    exact isProper_shared (List.mem_append_left [newerRemote] ha)
  obtain ⟨outlines, succeeds⟩ := @ModuleSet.build_perm 0 1 .standard .standard _ _ proper
    (.swap olderRemote sharedLocal [])
  have settled : ModuleSet.IsSettled [sharedLocal, olderRemote] := by
    intro a _ b hb c hc _ hbr hcr _ _
    have older : ∀ a ∈ [sharedLocal, olderRemote], a.isLocal = false → a = olderRemote := by
      intro a ha remote
      simp only [List.mem_cons, List.not_mem_nil, or_false] at ha
      exact ha.resolve_left fun h => absurd (h ▸ remote) (by decide)
    rw [older b hb hbr, older c hc hcr]
  obtain ⟨t', ht'⟩ := (succeeds settled).1 ⟨_, rfl⟩
  exact ⟨_, t', rfl, ht', outlines _ _ rfl ht'⟩

/-- Two remote additions at different commits are refused before the local one of their name, but not
after it. -/
theorem not_succeeds_before_local :
    [sharedLocal, olderRemote, newerRemote].Perm [olderRemote, newerRemote, sharedLocal] ∧
      Succeeds (ModuleSet.build 0 .standard [sharedLocal, olderRemote, newerRemote]) ∧
      ¬ Succeeds (ModuleSet.build 0 .standard [olderRemote, newerRemote, sharedLocal]) := by
  refine ⟨(@List.perm_append_comm _ [sharedLocal] [olderRemote, newerRemote]), ⟨_, rfl⟩, ?_⟩
  rintro ⟨t, h⟩
  cases h

end Sample

end ProtoWorkspace
