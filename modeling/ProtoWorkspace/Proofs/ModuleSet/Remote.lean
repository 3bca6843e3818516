import Mathlib.Tactic
import ProtoWorkspace.Proofs.ModuleSet.Order

/-!
# Sets of remote modules

Remote additions make a set exactly when those of one name agree on the commit. The set then has one
module for each name that was added, at the commit of the name, and the module is a target if one of
the additions is.
-/

namespace ProtoWorkspace

open Fallible

namespace ModuleSet

open Addition

/-- Whether additions of one name agree on the commit. -/
def AgreeOnCommits (additions : List Addition) : Prop :=
  ∀ a ∈ additions, ∀ b ∈ additions, a.name = b.name → a.commit = b.commit

section Remote

variable {number : Nat} {parser : ImportParser} {additions : List Addition}
variable (remote : ∀ a ∈ additions, ∃ key inputs isTarget, a = ofRemote key inputs isTarget)

include remote

/-- What is kept of remote additions is fit to be a set: no two have one name, and none has a
directory. -/
theorem isFit_of_remote {kept : List (Source × Addition)}
    (hkept : mergeAll (placed number additions) = .ok kept) : IsFit (kept.map (·.2.bare)) := by
  have form : ∀ p ∈ kept, ∃ key inputs isTarget, p.2 = ofRemote key inputs isTarget := by
    intro p hp
    obtain ⟨q, hq, -, same⟩ := mem_mergeAll hkept hp
    obtain ⟨key, inputs, isTarget, hform⟩ := remote q.2 (mem_of_mem_placed hq)
    rw [hform] at same
    exact ⟨key, inputs, p.2.isTarget, same⟩
  constructor
  · intro a ha
    obtain ⟨p, hp, rfl⟩ := List.mem_map.1 ha
    obtain ⟨key, inputs, isTarget, hform⟩ := form p hp
    rw [hform]
    exact succeeds_toModule_bare.2 (succeeds_toModule_ofRemote key inputs isTarget ⟨0, 0⟩)
  · rw [List.map_map]
    refine List.pairwise_map.2 ((settles_mergeAll hkept).distinct.imp_of_mem ?_)
    intro p q hp hq both same
    obtain ⟨key, inputs, isTarget, hform⟩ := form p hp
    obtain ⟨key', inputs', isTarget', hform'⟩ := form q hq
    have texts : key.name.text = key'.name.text := by
      rw [Function.comp_apply, Function.comp_apply, hform, hform'] at same
      exact same
    have names : p.2.name = q.2.name := by
      rw [hform, hform']
      exact congrArg some (FullName.text_injective texts)
    have isLocal := (both (by rw [hform]; rfl) names).1
    rw [hform] at isLocal
    cases isLocal
  · have none : (kept.map (·.2.bare)).map Addition.bucketId = kept.map fun _ => "" := by
      rw [List.map_map]
      refine List.map_congr_left fun p hp => ?_
      obtain ⟨key, inputs, isTarget, hform⟩ := form p hp
      rw [Function.comp_apply, hform]
      rfl
    rw [none]
    simp

theorem succeeds_build_remote_iff :
    Succeeds (build number parser additions) ↔ AgreeOnCommits additions := by
  have isRemote : ∀ a ∈ additions, a.isLocal = false ∧ a.name.isSome := by
    intro a ha
    obtain ⟨key, inputs, isTarget, rfl⟩ := remote a ha
    exact ⟨rfl, rfl⟩
  constructor
  · rintro ⟨t, ht⟩ a ha b hb same
    obtain ⟨-, -, kept, hkept, -⟩ := build_eq_ok ht
    have settled : IsSettled additions := by
      intro c hc _ _ _ _ isLocal
      rw [(isRemote c hc).1] at isLocal
      cases isLocal
    obtain ⟨remote, named⟩ := isRemote a ha
    exact agree_of_mergeAll hkept settled ha hb remote (isRemote b hb).1 named same
  · intro agree
    obtain ⟨kept, hkept⟩ : Succeeds (mergeAll (placed number additions)) := by
      apply succeeds_mergeAll
      intro p hp q hq _ _ same
      exact agree p.2 (mem_of_mem_placed hp) q.2 (mem_of_mem_placed hq) same
    exact succeeds_build_iff.2 ⟨kept, hkept, isFit_of_remote remote hkept⟩

variable {t : ModuleSet} (ht : build number parser additions = .ok t)

include ht

/-- Every module speaks for the additions of its name. -/
theorem exists_addition_of_mem_remote {x : Module} (hx : x ∈ t.modules) :
    ∃ a ∈ additions, x.name = a.name ∧ x.isLocal = false ∧
      (∀ b ∈ additions, b.name = x.name → b.commit = x.commit) ∧
      (x.isTarget = true ↔ ∃ b ∈ additions, b.name = x.name ∧ b.isTarget = true) := by
  obtain ⟨-, -, kept, hkept, hmodules⟩ := build_eq_ok ht
  obtain ⟨p, hp, hx'⟩ := exists_of_mem_mapM hmodules hx
  obtain ⟨q, hq, -, same⟩ := mem_mergeAll hkept hp
  have added := mem_of_mem_placed hq
  obtain ⟨key, inputs, isTarget, form⟩ := remote q.2 added
  have name : x.name = some key.name := by
    rw [(makes_of_toModule hx').name, same, form]
    rfl
  have named : q.2.name = some key.name := by
    rw [form]
    rfl
  obtain ⟨y, -, represents, only⟩ := (holds_of_build ht).named q.2 added key.name named
  obtain rfl := only x hx name
  have isLocal : x.isLocal = false := by
    rw [Bool.eq_false_iff]
    intro isLocal
    obtain ⟨a, ha, -, isLocal⟩ := represents.isLocal_iff.1 isLocal
    obtain ⟨key, inputs, isTarget, rfl⟩ := remote a ha
    cases isLocal
  rw [name]
  exact ⟨q.2, added, named.symm, isLocal, represents.of_remote isLocal⟩

theorem exists_module_of_mem_remote {a : Addition} (ha : a ∈ additions) :
    ∃ x ∈ t.modules, x.name = a.name := by
  obtain ⟨key, inputs, isTarget, rfl⟩ := remote a ha
  obtain ⟨x, hx, represents, -⟩ := (holds_of_build ht).named _ ha key.name rfl
  exact ⟨x, hx, represents.name_eq⟩

end Remote

end ModuleSet

end ProtoWorkspace
