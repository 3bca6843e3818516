import Mathlib.Tactic
import ProtoWorkspace.Proofs.ModuleSet.Contents

/-!
# Looking modules up by name

A name is looked up by its text among the identities of the set, and the directories of unnamed
modules are identities as well. So the look-up gives the module of the name, unless an unnamed module
was added whose directory is spelled like the name: then it gives that one.
-/

namespace ProtoWorkspace

open Fallible

namespace ModuleSet

open Addition

variable {number : Nat} {parser : ImportParser} {additions : List Addition} {t : ModuleSet}
  {name : FullName}

theorem identity_eq_text_iff {x : Module} :
    x.identity = name.text ↔ x.name = some name ∨ x.name = none ∧ x.bucketId = name.text := by
  rw [Module.identity]
  cases h : x.name with
  | none => simp [identityOf]
  | some other =>
    rw [identityOf]
    constructor
    · intro same
      rw [FullName.text_injective same]
      exact .inl rfl
    · intro same
      simp only [Option.some.injEq, reduceCtorEq, false_and, or_false] at same
      rw [same]

theorem findName?_eq_some {x : Module} : t.findName? name = some x ↔
    x ∈ t.modules ∧ (x.name = some name ∨ x.name = none ∧ x.bucketId = name.text) := by
  rw [findName?, find?_eq_some, identity_eq_text_iff]

/-- The unnamed modules of a set have the directories of the unnamed additions. -/
theorem Holds.exists_unnamed_iff (h : t.Holds additions) (directory : String) :
    (∃ x ∈ t.modules, x.name = none ∧ x.bucketId = directory) ↔
      ∃ a ∈ additions, a.name = none ∧ a.bucketId = directory := by
  constructor
  · rintro ⟨x, hx, unnamed, hd⟩
    have member : x ∈ t.modules.filter (·.name.isNone) := by simp [hx, unnamed]
    obtain ⟨a, ha, makes⟩ := exists_of_mem_right h.unnamed member
    exact ⟨a, (List.mem_filter.1 ha).1, makes.name ▸ unnamed, makes.bucketId ▸ hd⟩
  · rintro ⟨a, ha, unnamed, hd⟩
    have member : a ∈ additions.filter (·.name.isNone) := by simp [ha, unnamed]
    obtain ⟨x, hx, makes⟩ := exists_of_mem_right h.unnamed.flip member
    exact ⟨x, (List.mem_filter.1 hx).1, makes.name.trans unnamed, makes.bucketId.trans hd⟩

/-- The module that is found under a name has this name, or it is unnamed and its directory is spelled
like the name. For every name that was added its module is found. The look-up gives exactly the module
of the name if and only if no unnamed addition has a directory that is spelled like it. -/
theorem findName?_of_build (h : build number parser additions = .ok t) (name : FullName) :
    (∀ x, t.findName? name = some x ↔
      x ∈ t.modules ∧ (x.name = some name ∨ x.name = none ∧ x.bucketId = name.text)) ∧
    ((∃ a ∈ additions, a.name = some name) →
      ∃ x, t.findName? name = some x ∧ x.Represents additions name) ∧
    ((∀ x, t.findName? name = some x ↔ x ∈ t.modules ∧ x.name = some name) ↔
      ∀ a ∈ additions, a.name = none → a.bucketId ≠ name.text) := by
  have holds := holds_of_build h
  refine ⟨fun x => findName?_eq_some, ?_, ?_⟩
  · rintro ⟨a, ha, named⟩
    obtain ⟨x, hx, represents, -⟩ := holds.named a ha name named
    exact ⟨x, findName?_eq_some.2 ⟨hx, .inl represents.name_eq⟩, represents⟩
  · constructor
    · intro byName a ha unnamed spelled
      obtain ⟨x, hx, hn, hd⟩ := (holds.exists_unnamed_iff _).2 ⟨a, ha, unnamed, spelled⟩
      have found := findName?_eq_some.2 ⟨hx, .inr ⟨hn, hd⟩⟩
      have named := ((byName x).1 found).2
      rw [hn] at named
      cases named
    · intro apart x
      rw [findName?_eq_some]
      refine and_congr_right fun hx => ⟨?_, .inl⟩
      intro same
      apply same.resolve_right
      intro unnamed
      obtain ⟨a, ha, hn, hd⟩ := (holds.exists_unnamed_iff _).1 ⟨x, hx, unnamed⟩
      exact apart a ha hn hd

end ModuleSet

namespace Sample

/-- A local module without a name whose directory is spelled like a name. -/
def namesake : Addition :=
  .ofLocal (.memory ⟨[]⟩) "registry/owner/shared" {}

/-- The one module of a name is found, however many additions it had. -/
theorem findName?_shared : ∃ t,
    ModuleSet.build 0 .standard [sharedLocal, olderRemote, newerRemote] = .ok t ∧
    ∃ x, t.findName? sharedName = some x ∧
      x.Represents [sharedLocal, olderRemote, newerRemote] sharedName := by
  have found := (@ModuleSet.findName?_of_build 0 .standard
    [sharedLocal, olderRemote, newerRemote] _ rfl sharedName).2.1
  exact ⟨_, rfl, found ⟨sharedLocal, List.mem_cons_self, rfl⟩⟩

/-- Under a name that no module has, an unnamed module is found. -/
theorem findName?_namesake : ∃ t x, ModuleSet.build 0 .standard [namesake] = .ok t ∧
    t.findName? sharedName = some x ∧ x.name = none ∧ ∀ y ∈ t.modules, y.name ≠ some sharedName := by
  refine ⟨_, _, rfl, rfl, rfl, ?_⟩
  intro y hy
  rw [List.mem_singleton.1 hy]
  nofun

end Sample

end ProtoWorkspace
