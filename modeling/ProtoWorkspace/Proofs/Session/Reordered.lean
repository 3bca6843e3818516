import Mathlib
import ProtoWorkspace.Proofs.ModuleSet.Order
import ProtoWorkspace.Proofs.Session.Resembling

/-!
# The order of additions and of declared keys

A set is built of additions with different names, and another one of the same additions in another
order, where remote modules may declare the keys of their dependencies in another order too. Everything
in a set stands in the order of the additions, but what is told of dependencies and digests is sorted,
by identity or by name. Hence it is the same in both sets.
-/

namespace ProtoWorkspace

open Fallible Relation

/-- Keys of different names are sorted in one way. -/
theorem sortedByName_eq_of_perm {keys keys' : List ModuleKey} (perm : keys.Perm keys')
    (different : (keys.map ModuleKey.name).Nodup) : sortedByName keys = sortedByName keys' := by
  have sorted : ∀ keys : List ModuleKey,
      (sortedByName keys).Pairwise fun a b => a.name.text ≤ b.name.text :=
    ModuleSet.pairwise_sortedBy fun key : ModuleKey => key.name.text
  have perm' : (sortedByName keys).Perm (sortedByName keys') :=
    (List.mergeSort_perm _ _).trans (perm.trans (List.mergeSort_perm _ _).symm)
  refine perm'.eq_of_pairwise ?_ (sorted keys) (sorted keys')
  intro a b ha hb hab hba
  have ha : a ∈ keys := List.mem_mergeSort.1 ha
  have hb : b ∈ keys := perm.mem_iff.2 (List.mem_mergeSort.1 hb)
  exact List.inj_on_of_nodup_map different ha hb (FullName.text_injective (le_antisymm hab hba))

/-- Whether two supplies give the same keys, perhaps in another order if no two have the same name. -/
def Supply.SameKeys (disk : Disk) (supply supply' : Supply (List ModuleKey)) : Prop :=
  supply.on disk = supply'.on disk ∨ ∃ keys keys', supply.on disk = .ok keys ∧
    supply'.on disk = .ok keys' ∧ keys.Perm keys' ∧ (keys.map ModuleKey.name).Nodup

theorem Supply.SameKeys.sorted {disk : Disk} {supply supply' : Supply (List ModuleKey)}
    (h : supply.SameKeys disk supply') :
    sortedByName <$> supply.on disk = sortedByName <$> supply'.on disk := by
  rcases h with same | ⟨keys, keys', hkeys, hkeys', perm, different⟩
  · rw [same]
  · rw [hkeys, hkeys', map_ok, map_ok, sortedByName_eq_of_perm perm different]

namespace Addition

/-- Whether two additions differ at most in the order in which keys are declared. -/
structure IsRearranged (disk : Disk) (a a' : Addition) : Prop where
  declared : a' = { a with inputs := { a.inputs with declaredKeys := a'.inputs.declaredKeys } }
  keys : a.inputs.declaredKeys.SameKeys disk a'.inputs.declaredKeys

/-- Whether the second additions are the first ones in another order, up to the orders in which keys are
declared. -/
def AreReordered (disk : Disk) (additions additions' : List Addition) : Prop :=
  ∃ moved, additions.Perm moved ∧ List.Forall₂ (IsRearranged disk) moved additions'

variable {disk : Disk} {a a' : Addition} {x y : Module} {additions additions' : List Addition}

theorem IsRearranged.bare_eq (h : IsRearranged disk a a') : a.bare = a'.bare := by
  rw [h.declared]
  rfl

theorem IsRearranged.resembles (h : IsRearranged disk a a') (made : a.Makes x) (made' : a'.Makes y) :
    x.Resembles disk y where
  identity := by rw [made.identity, made'.identity, h.declared]; rfl
  description := by rw [made.description, made'.description, h.declared]; rfl
  isLocal := by rw [made.isLocal, made'.isLocal, h.declared]
  bucket := by rw [made.inputs, made'.inputs, h.declared]
  yaml := by rw [made.inputs, made'.inputs, h.declared]
  lock := by rw [made.inputs, made'.inputs, h.declared]
  keys := by rw [made.inputs, made'.inputs, h.keys.sorted]

theorem AreReordered.perm_bare (h : AreReordered disk additions additions') :
    (additions.map bare).Perm (additions'.map bare) := by
  obtain ⟨moved, perm, rearranged⟩ := h
  rw [← map_eq_map_of_forall₂ (rearranged.imp fun _ _ h => h.bare_eq)]
  exact perm.map bare

theorem AreReordered.perm_name (h : AreReordered disk additions additions') :
    (additions.filterMap name).Perm (additions'.filterMap name) := by
  have names : ∀ l : List Addition, (l.map bare).filterMap name = l.filterMap name := by
    intro l
    rw [List.filterMap_map]
    rfl
  rw [← names additions, ← names additions']
  exact h.perm_bare.filterMap name

end Addition

namespace ModuleSet

open Addition

variable {disk : Disk} {number number' : Nat} {parser parser' : ImportParser}
  {additions additions' : List Addition} {s t : ModuleSet} {x y : Module}

/-- Additions with different names are all kept. -/
theorem mergeAll_placed (different : (additions.filterMap Addition.name).Nodup) (number : Nat) :
    mergeAll (placed number additions) = .ok (placed number additions) := by
  apply mergeAll_of_pairwise
  rw [← map_snd_placed number additions, List.filterMap_map] at different
  refine (List.pairwise_filterMap.1 different).imp ?_
  intro p q apart named same
  obtain ⟨name, hname⟩ := Option.isSome_iff_exists.1 named
  exact apart name (same.trans hname) name hname rfl

theorem succeeds_build_iff_isFit (different : (additions.filterMap Addition.name).Nodup) :
    Succeeds (build number parser additions) ↔ IsFit (additions.map bare) := by
  have kept : (placed number additions).map (·.2.bare) = additions.map bare := by
    conv_rhs => rw [← map_snd_placed number additions, List.map_map]
    rfl
  rw [succeeds_build_iff, mergeAll_placed different, ← kept]
  simp only [Except.ok.injEq, exists_eq_left']

section

variable (reordered : AreReordered disk additions additions')

include reordered

theorem succeeds_build_of_reordered (different : (additions.filterMap Addition.name).Nodup) :
    Succeeds (build number parser additions) ↔ Succeeds (build number' parser' additions') := by
  rw [succeeds_build_iff_isFit different,
    succeeds_build_iff_isFit (reordered.perm_name.nodup_iff.1 different)]
  exact ⟨fun h => h.perm reordered.perm_bare, fun h => h.perm reordered.perm_bare.symm⟩

variable (made : List.Forall₂ Makes additions s.modules)
  (made' : List.Forall₂ Makes additions' t.modules)

include made made'

theorem perm_identities_of_reordered : s.identities.Perm t.identities := by
  have identities : ∀ (additions : List Addition) (u : ModuleSet),
      List.Forall₂ Makes additions u.modules → u.identities = (additions.map bare).map identity := by
    intro additions u made
    rw [List.map_map]
    exact (map_eq_map_of_forall₂ (made.imp fun _ _ h => h.identity.symm)).symm
  rw [identities _ s made, identities _ t made']
  exact reordered.perm_bare.map identity

theorem exists_resembling (hx : x ∈ s.modules) : ∃ y ∈ t.modules, x.Resembles disk y := by
  obtain ⟨moved, perm, rearranged⟩ := reordered
  obtain ⟨a, ha, makes⟩ := exists_of_mem_right made hx
  obtain ⟨a', ha', ha⟩ := exists_of_mem_right rearranged.flip (perm.mem_iff.1 ha)
  obtain ⟨y, hy, makes'⟩ := exists_of_mem_right made'.flip ha'
  exact ⟨y, hy, ha.resembles makes makes'⟩

theorem resembles_of_identity (hx : x ∈ s.modules) (hy : y ∈ t.modules)
    (same : x.identity = y.identity) : x.Resembles disk y := by
  obtain ⟨y', hy', resembles⟩ := exists_resembling reordered made made' hx
  obtain rfl := eq_of_identity hy' hy (resembles.identity.symm.trans same)
  exact resembles

theorem exists_resembling_symm (hy : y ∈ t.modules) : ∃ x ∈ s.modules, x.Resembles disk y := by
  have found : y.identity ∈ s.identities :=
    (perm_identities_of_reordered reordered made made').mem_iff.2 (List.mem_map_of_mem hy)
  obtain ⟨x, hx, same⟩ := List.mem_map.1 found
  exact ⟨x, hx, resembles_of_identity reordered made made' hx hy same⟩

end

end ModuleSet

open ModuleSet

/-- Additions of which no two have the same name, and the same additions in another order, with declared
keys of different names in other orders. Both lists can be built or neither. Where both were built in a
session without NUL characters in paths, modules of the same identities were made; and modules of one
identity have the same dependencies and the same digests, or none are found in either set. -/
theorem Session.Reachable.dependencies_reordered {loads : Nat → Except Error Digest} {σ : Session}
    {parser : ImportParser} {additions additions' : List Addition} (h : Session.Reachable loads σ)
    (hplain : ∀ u ∈ σ.sets, u.HasPlainPaths σ.disk)
    (different : (additions.filterMap Addition.name).Nodup)
    (reordered : Addition.AreReordered σ.disk additions additions') :
    (∀ number number', Succeeds (ModuleSet.build number parser additions) ↔
      Succeeds (ModuleSet.build number' parser additions')) ∧
    ∀ s ∈ σ.sets, ∀ t ∈ σ.sets, ModuleSet.build s.number parser additions = .ok s →
      ModuleSet.build t.number parser additions' = .ok t →
      s.identities.Perm t.identities ∧
      ∀ x ∈ s.modules, ∀ y ∈ t.modules, x.identity = y.identity →
        SameValue (List.map Dependency.outline <$> σ.outcome (s.dependencies Session.access x))
          (List.map Dependency.outline <$> σ.outcome (t.dependencies Session.access y)) ∧
        ∀ type, SameValue (σ.outcome (s.digest Session.access x type))
          (σ.outcome (t.digest Session.access y type)) := by
  refine ⟨fun number number' => succeeds_build_of_reordered reordered different, ?_⟩
  intro s hs t ht hbuilt hbuilt'
  have different' := reordered.perm_name.nodup_iff.1 different
  have made := makes_of_build hbuilt (mergeAll_placed different s.number)
  have made' := makes_of_build hbuilt' (mergeAll_placed different' t.number)
  refine ⟨perm_identities_of_reordered reordered made made', fun x hx y hy same => ?_⟩
  refine h.sameValue_of_isMatched hplain hs ht hx hy same ?_ ?_
  · refine isMatched_of_resembles ((build_eq_ok hbuilt).2.1.trans (build_eq_ok hbuilt').2.1.symm) hx
      (fun z hz => exists_resembling reordered made made' hz) fun _ _ imported _ => ?_
    exact sharesPath_of_resembles (fun z hz => exists_resembling reordered made made' hz)
      (fun z hz => exists_resembling_symm reordered made made' hz) imported
  · exact fun z hz z' hz' sameZ => resembles_of_identity reordered made made' hz hz' sameZ

namespace Sample

/-! The modules of the sample and a remote one that declares two keys, and the same in reverse order with
the keys swapped. -/

theorem isValid_r : NamePart.IsValid "r" := by decide

def declaredKey (name : String) (h : NamePart.IsValid name) (byte : UInt8) : ModuleKey :=
  ⟨fullName name h, sharedCommit (Fin.last 14), .known ⟨.b5, List.replicate 64 byte, List.length_replicate⟩,
    isNone_sharedCommit (Fin.last 14)⟩

def firstKey : ModuleKey := declaredKey "a" isValid_a 1

def secondKey : ModuleKey := declaredKey "b" isValid_b 2

def declaring (keys : List ModuleKey) : Addition :=
  .ofRemote (declaredKey "r" isValid_r 0) ⟨.ready (bucket "r"), .ready none, .ready none, .ready keys⟩
    false

def declaringModule (source : Source) (keys : List ModuleKey) : Module :=
  { module 0 "r" isValid_r with
    source := source
    bucketId := ""
    commit := sharedCommit (Fin.last 14)
    isLocal := false
    inputs := (declaring keys).inputs
    identified := .inr rfl
    named_of_remote := fun _ => rfl
    named_of_commit := fun _ => rfl }

def inOrder : List Addition :=
  [addition "a" isValid_a, addition "b" isValid_b, declaring [firstKey, secondKey]]

def inReverse : List Addition :=
  [declaring [secondKey, firstKey], addition "b" isValid_b, addition "a" isValid_a]

def setInOrder : ModuleSet :=
  ⟨0, parser, [first, second, declaringModule ⟨0, 2⟩ [firstKey, secondKey]], by decide, by decide⟩

def setInReverse : ModuleSet :=
  ⟨1, parser, [declaringModule ⟨1, 0⟩ [secondKey, firstKey], { second with source := ⟨1, 1⟩ },
    { first with source := ⟨1, 2⟩ }], by decide, by decide⟩

/-- The session in which both sets were built. -/
def sessionReordered : Session :=
  (({} : Session).after (Session.build parser inOrder)).after (Session.build parser inReverse)

theorem sets_sessionReordered : sessionReordered.sets = [setInOrder, setInReverse] := rfl

theorem isKnown_of_mem_inOrder {disk : Disk} {number : Nat} {a : Addition}
    (ha : a ∈ inOrder ∨ a ∈ inReverse) (keys : List ModuleKey)
    (hkeys : a.inputs.declaredKeys.on disk = .ok keys) : ∀ key ∈ keys, key.IsKnown disk loads number := by
  simp only [inOrder, inReverse, List.mem_cons, List.not_mem_nil, or_false] at ha
  rcases ha with (rfl | rfl | rfl) | (rfl | rfl | rfl) <;> cases hkeys <;> simp [ModuleKey.IsKnown,
    firstKey, secondKey, declaredKey]

theorem reachable_sessionReordered : Session.Reachable loads sessionReordered :=
  Session.Reachable.of_reaches
    ⟨{}, .single (.build _ _ _ fun _ ha => isKnown_of_mem_inOrder (.inl ha))⟩
    (.single (.build _ _ _ fun _ ha => isKnown_of_mem_inOrder (.inr ha)))

theorem hasPlainPaths_setInOrder (disk : Disk) : setInOrder.HasPlainPaths disk :=
  ModuleSet.hasPlainPaths_of_memory <| List.forall_mem_cons.2 ⟨⟨_, rfl, by decide⟩,
    List.forall_mem_cons.2 ⟨⟨_, rfl, by decide⟩, List.forall_mem_singleton.2 ⟨_, rfl, by decide⟩⟩⟩

theorem hasPlainPaths_setInReverse (disk : Disk) : setInReverse.HasPlainPaths disk :=
  ModuleSet.hasPlainPaths_of_memory <| List.forall_mem_cons.2 ⟨⟨_, rfl, by decide⟩,
    List.forall_mem_cons.2 ⟨⟨_, rfl, by decide⟩, List.forall_mem_singleton.2 ⟨_, rfl, by decide⟩⟩⟩

theorem hasPlainPaths_sessionReordered :
    ∀ u ∈ sessionReordered.sets, u.HasPlainPaths sessionReordered.disk := by
  rw [sets_sessionReordered]
  exact List.forall_mem_cons.2 ⟨hasPlainPaths_setInOrder _,
    List.forall_mem_singleton.2 (hasPlainPaths_setInReverse _)⟩

theorem areReordered_sample (disk : Disk) : Addition.AreReordered disk inOrder inReverse := by
  refine ⟨inOrder.reverse, (List.reverse_perm _).symm, ?_⟩
  have rest : ∀ a, Addition.IsRearranged disk a a := fun a => ⟨rfl, .inl rfl⟩
  refine .cons ⟨rfl, .inr ⟨_, _, rfl, rfl, .swap _ _ _, ?_⟩⟩ (.cons (rest _) (.cons (rest _) .nil))
  decide

theorem dependencies_first_inOrder (disk : Disk) (sets : List ModuleSet) :
    setInOrder.dependencies (.direct disk sets) first = .ok [⟨second, true⟩] := by
  cbv

end Sample

/-- In the sample, the first module has the second as its one dependency also where it was added last,
and the digest of the remote module does not depend on the order of its keys. -/
theorem Sample.dependencies_first_reordered :
    List.map Dependency.outline <$> sessionReordered.outcome
        (setInReverse.dependencies Session.access { first with source := ⟨1, 2⟩ }) =
      .ok [(second.identity, true)] ∧
    SameValue
      (sessionReordered.outcome (setInOrder.digest Session.access
        (declaringModule ⟨0, 2⟩ [firstKey, secondKey]) .b5))
      (sessionReordered.outcome (setInReverse.digest Session.access
        (declaringModule ⟨1, 0⟩ [secondKey, firstKey]) .b5)) := by
  have mem : setInOrder ∈ sessionReordered.sets := sets_sessionReordered ▸ List.mem_cons_self
  have mem' : setInReverse ∈ sessionReordered.sets :=
    sets_sessionReordered ▸ List.mem_cons_of_mem _ (List.mem_singleton.2 rfl)
  have first_mem : first ∈ setInOrder.modules := List.mem_cons_self
  have first_mem' : { first with source := ⟨1, 2⟩ } ∈ setInReverse.modules :=
    List.mem_of_mem_getLast? rfl
  have built : ModuleSet.build setInOrder.number Sample.parser inOrder = .ok setInOrder := rfl
  obtain ⟨-, same⟩ := (reachable_sessionReordered.dependencies_reordered hasPlainPaths_sessionReordered
    (by decide) (areReordered_sample _)).2 _ mem _ mem' built rfl
  obtain ⟨dependencies, -⟩ := same first first_mem _ first_mem' rfl
  obtain ⟨-, digests⟩ := same _ (List.mem_of_mem_getLast? rfl) _ List.mem_cons_self rfl
  refine ⟨(dependencies _).1 ?_, digests .b5⟩
  rw [reachable_sessionReordered.outcome_dependencies hasPlainPaths_sessionReordered mem first_mem]
  exact congrArg _ (dependencies_first_inOrder _ _)

end ProtoWorkspace
