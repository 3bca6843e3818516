import ProtoWorkspace.Proofs.Session.Broken

/-!
# One module more whose files are not imported

A set is built, and another one of the same additions and one more, at any place among them. Where no
file of the new module is imported by a module or by one that imports lead to, the module has the same
dependencies and the same digests in both sets. It does not matter what the new module imports, nor
whether it has files at the paths of other modules.
-/

namespace ProtoWorkspace

open Relation

namespace Addition

/-- Whether an addition has a Protobuf file at a path. -/
def HasProtoOn (a : Addition) (disk : Disk) (path : String) : Prop :=
  a.inputs.Lists disk path ∧ FileKind.ofPath? path = some .proto

/-- Whether the files of an addition can be listed and there is a Protobuf file among them. -/
def IsLoadable (a : Addition) (disk : Disk) : Prop :=
  Succeeds (a.inputs.listingOn disk >>= indexOfListing a.label)

theorem Makes.isLoadable_iff {a : Addition} {x : Module} {disk : Disk} (made : a.Makes x) :
    x.IsLoadable disk ↔ a.IsLoadable disk := by
  rw [← Module.succeeds_indexOn, made.indexOn, IsLoadable]

end Addition

namespace ModuleSet

open Addition

section

variable {s t : ModuleSet} {disk : Disk} {sets : List ModuleSet} {x y : Module}

/-- What looking everything up leads to is imported. -/
theorem importsFrom_of_leads_path (hx : x ∈ s.modules)
    (path : ReflTransGen (s.Leads (.direct disk sets)) x y) :
    ReflTransGen (s.ImportsFrom disk) x y := by
  have plain := Access.isPlain_direct disk sets
  induction path with
  | refl => exact .refl
  | tail before step ih =>
    have hz := mem_modules_of_leads_path hx before
    obtain ⟨-, found, hfound, hid⟩ := id step
    have loadable := (exists_mem_identity plain hfound hid).1
    exact ih.tail ((leads_iff plain loadable (readsImports_direct loadable) hz ⟨found, hfound⟩).1 step)

end

section Added

variable {disk : Disk} {sets : List ModuleSet} {number number' : Nat} {parser : ImportParser}
  {a : Addition} {before after : List Addition} {s t : ModuleSet} {x y : Module} {path : String}
variable (fresh : ∀ b ∈ before ++ after, b.identity ≠ a.identity)
variable (hs : build number parser (before ++ after) = .ok s)
variable (ht : build number' parser (before ++ a :: after) = .ok t)
variable (loadable : a.IsLoadable disk)

include fresh hs ht loadable

theorem isLoadable_iff_of_insert : s.IsLoadable disk ↔ t.IsLoadable disk := by
  constructor
  · intro all y hy
    by_cases hid : y.identity = a.identity
    · obtain ⟨z, -, made, only⟩ := exists_makes fresh hs ht
      rw [only y hy hid]
      exact made.isLoadable_iff.2 loadable
    · obtain ⟨x, hx, copies⟩ := exists_copy fresh hs ht hy hid
      exact (copies.resembles disk).isLoadable_iff.1 (all x hx)
  · intro all x hx
    obtain ⟨y, hy, copies⟩ := exists_copy_of_mem fresh hs ht hx
    exact (copies.resembles disk).isLoadable_iff.2 (all y hy)

/-- The new module only adds its own paths. -/
theorem sharesPath_of_insert (apart : ¬ a.HasProtoOn disk path) : SharesPath s t disk disk path where
  loadable := isLoadable_iff_of_insert fresh hs ht loadable
  right x hx hp := by
    obtain ⟨y, hy, copies⟩ := exists_copy_of_mem fresh hs ht hx
    have resembles := copies.resembles disk
    exact ⟨y, hy, resembles.identity, resembles.hasProtoOn_iff.1 hp⟩
  left y hy hp := by
    by_cases hid : y.identity = a.identity
    · obtain ⟨z, -, made, only⟩ := exists_makes fresh hs ht
      rw [only y hy hid] at hp
      exact absurd (made.hasProtoOn.1 hp) apart
    · obtain ⟨x, hx, copies⟩ := exists_copy fresh hs ht hy hid
      have resembles := copies.resembles disk
      exact ⟨x, hx, resembles.identity.symm, resembles.hasProtoOn_iff.2 hp⟩

/-- Beside a module whose files are not imported, the modules on all paths from `x` are matched. -/
theorem isMatched_of_insert (hx : x ∈ s.modules)
    (unimported : ∀ y, ReflTransGen (s.ImportsFrom disk) x y → ∀ imported, s.Imports disk y imported →
      ¬ a.HasProtoOn disk imported) :
    IsMatched s t (.direct disk sets) (.direct disk sets) x := by
  refine isMatched_of_resembles ((build_eq_ok hs).2.1.trans (build_eq_ok ht).2.1.symm) hx ?_ ?_
  · intro y hy
    obtain ⟨y', hy', copies⟩ := exists_copy_of_mem fresh hs ht hy
    exact ⟨y', hy', copies.resembles disk⟩
  · intro y path imported himports
    refine sharesPath_of_insert fresh hs ht loadable ?_
    exact unimported y (importsFrom_of_leads_path hx path) imported himports

end Added

end ModuleSet

open ModuleSet

section

variable {loads : Nat → Except Error Digest} {σ : Session} {parser : ImportParser} {a : Addition}
  {before after : List Addition} {s : ModuleSet} {x : Module}

/-- A set in a session without NUL characters in paths, and an addition with a new identity and a new
directory whose files can be listed. With the addition at any place among those of the set, a set can be
built too. If no file of the addition is imported by a module of the first set, or by one that imports
lead to, the dependencies of the module and its digests are the same in both sets, or not found in
either. -/
theorem Session.Reachable.dependencies_beside_unimported (h : Session.Reachable loads σ)
    (hplain : ∀ u ∈ σ.sets, u.HasPlainPaths σ.disk) (hs : s ∈ σ.sets)
    (hbuilt : ModuleSet.build s.number parser (before ++ after) = .ok s)
    (fresh : ∀ b ∈ before ++ after, b.identity ≠ a.identity)
    (directory : a.bucketId ≠ "" → ∀ b ∈ before ++ after, b.bucketId ≠ a.bucketId)
    (valid : Succeeds (a.toModule ⟨0, 0⟩)) (loadable : a.IsLoadable σ.disk) (hx : x ∈ s.modules)
    (unimported : ∀ y, ReflTransGen (s.ImportsFrom σ.disk) x y →
      ∀ imported, s.Imports σ.disk y imported → ¬ a.HasProtoOn σ.disk imported) :
    (∀ number, Succeeds (ModuleSet.build number parser (before ++ a :: after))) ∧
    ∀ t ∈ σ.sets, ModuleSet.build t.number parser (before ++ a :: after) = .ok t →
      ∃ y ∈ t.modules, y.identity = x.identity ∧
        SameValue (List.map Dependency.outline <$> σ.outcome (s.dependencies Session.access x))
          (List.map Dependency.outline <$> σ.outcome (t.dependencies Session.access y)) ∧
        ∀ type, SameValue (σ.outcome (s.digest Session.access x type))
          (σ.outcome (t.digest Session.access y type)) := by
  refine ⟨fun number => succeeds_build_insert fresh hbuilt valid directory, fun t ht hbuilt' => ?_⟩
  obtain ⟨y, hy, copies⟩ := exists_copy_of_mem fresh hbuilt hbuilt' hx
  have same := AreCopies.identity copies
  refine ⟨y, hy, same.symm, h.sameValue_of_isMatched hplain hs ht hx hy same ?_ ?_⟩
  · exact isMatched_of_insert fresh hbuilt hbuilt' loadable hx unimported
  · intro z hz z' hz' sameZ
    exact (areCopies_of_identity fresh hbuilt hbuilt' hz hz' sameZ).resembles σ.disk

end

namespace Sample

/-! The additions of the sample, and between them one that imports the first, and a file that no module
has. It has a file at the path of the first one too. -/

def crossParser : ImportParser where
  number := none
  parse path _ := .ok (if path = "a.proto" then ["b.proto"]
    else if path = "c.proto" then ["a.proto", "missing.proto"] else [])

def crossAddition : Addition :=
  .ofLocal (.memory ⟨[("a.proto", ⟨#[]⟩), ("c.proto", ⟨#[]⟩)]⟩) "c"
    { name := some (fullName "c" isValid_c) }

def crossModule : Module :=
  { module 1 "c" isValid_c with source := ⟨1, 1⟩, inputs := crossAddition.inputs }

def uncrossedSet : ModuleSet :=
  { set with parser := crossParser }

def crossedSet : ModuleSet :=
  ⟨1, crossParser, [firstBeside, crossModule, { second with source := ⟨1, 2⟩ }], by decide, by decide⟩

def beforeCross : List Addition := [addition "a" isValid_a]

def afterCross : List Addition := [addition "b" isValid_b]

/-- The session in which both sets were built. -/
def crossSession : Session :=
  (({} : Session).after (Session.build crossParser (beforeCross ++ afterCross))).after
    (Session.build crossParser (beforeCross ++ crossAddition :: afterCross))

theorem sets_crossSession : crossSession.sets = [uncrossedSet, crossedSet] := rfl

theorem reachable_crossSession : Session.Reachable loads crossSession := by
  refine Session.Reachable.of_reaches ⟨{}, .single (.build _ _ _ isKnown_of_addition)⟩
    (.single (.build _ _ _ fun a ha keys hkeys => ?_))
  simp only [beforeCross, afterCross, List.cons_append, List.nil_append, List.mem_cons,
    List.not_mem_nil, or_false] at ha
  rcases ha with rfl | rfl | rfl <;> cases hkeys

theorem hasProtoOn_cross {disk : Disk} {path : String} (hp : crossAddition.HasProtoOn disk path) :
    path = "a.proto" ∨ path = "c.proto" := by
  obtain ⟨⟨_, ⟨⟩, hmem⟩, -⟩ := hp
  change path ∈ ["a.proto", "c.proto"] at hmem
  simpa using hmem

theorem makes_crossModule : crossAddition.Makes crossModule :=
  ⟨rfl, rfl, rfl, rfl, rfl, rfl, rfl⟩

theorem isLoadable_cross (disk : Disk) : crossAddition.IsLoadable disk :=
  makes_crossModule.isLoadable_iff.1 ⟨_, rfl, rfl, "a.proto", List.mem_cons_self, by decide⟩

theorem hasPlainPaths_crossedSet (disk : Disk) : crossedSet.HasPlainPaths disk :=
  ModuleSet.hasPlainPaths_of_memory <| List.forall_mem_cons.2 ⟨⟨_, rfl, by decide⟩,
    List.forall_mem_cons.2 ⟨⟨_, rfl, by decide⟩, List.forall_mem_singleton.2 ⟨_, rfl, by decide⟩⟩⟩

theorem hasPlainPaths_crossSession :
    ∀ u ∈ crossSession.sets, u.HasPlainPaths crossSession.disk := by
  rw [sets_crossSession]
  exact List.forall_mem_cons.2 ⟨hasPlainPaths_set _,
    List.forall_mem_singleton.2 (hasPlainPaths_crossedSet _)⟩

theorem not_hasProtoOn_cross {disk : Disk} {x : Module} (hx : x ∈ set.modules) {imported : String}
    (h : uncrossedSet.Imports disk x imported) : ¬ crossAddition.HasProtoOn disk imported := by
  obtain ⟨path, imports, hp, himports, himported⟩ := h
  intro hc
  rcases mem_modules_set.1 hx with rfl | rfl
  · obtain rfl := hasProtoOn_first.1 hp
    cases himports
    obtain rfl := List.mem_singleton.1 himported
    rcases hasProtoOn_cross hc with h | h <;> exact absurd h (by decide)
  · obtain rfl := hasProtoOn_second.1 hp
    cases himports
    cases himported

theorem dependencies_uncrossed (disk : Disk) (sets : List ModuleSet) :
    uncrossedSet.dependencies (.direct disk sets) first = .ok [⟨second, true⟩] := by
  cbv

end Sample

/-- In the sample, the first module has the second as its one dependency also beside a module that
cannot be resolved. -/
theorem Sample.dependencies_first_crossed :
    ∃ y ∈ crossedSet.modules, y.identity = first.identity ∧
      List.map Dependency.outline <$>
        crossSession.outcome (crossedSet.dependencies Session.access y) =
          .ok [(second.identity, true)] := by
  have first_mem : first ∈ uncrossedSet.modules := mem_modules_set.2 (.inl rfl)
  have set_mem : uncrossedSet ∈ crossSession.sets := sets_crossSession ▸ List.mem_cons_self
  have built : ModuleSet.build uncrossedSet.number crossParser (beforeCross ++ afterCross) =
      .ok uncrossedSet := rfl
  obtain ⟨-, all⟩ := reachable_crossSession.dependencies_beside_unimported (a := crossAddition)
    hasPlainPaths_crossSession set_mem built (by decide) (fun _ => by decide) ⟨_, rfl⟩
    (isLoadable_cross _) first_mem
    fun z path imported => not_hasProtoOn_cross (mem_modules_of_path first_mem path)
  obtain ⟨y, hy, same, dependencies, -⟩ := all crossedSet
    (sets_crossSession ▸ List.mem_cons_of_mem _ (List.mem_singleton.2 rfl)) rfl
  refine ⟨y, hy, same, (dependencies _).1 ?_⟩
  rw [reachable_crossSession.outcome_dependencies hasPlainPaths_crossSession set_mem first_mem]
  exact congrArg _ (dependencies_uncrossed _ _)

end ProtoWorkspace
