import ProtoWorkspace.Proofs.Session.Described

/-!
# Dependencies in a session

Whatever was asked before, the dependencies of a module that a session gives are those that its
imports lead to, said in terms of the files alone.
-/

namespace ProtoWorkspace

open Relation

/-- In a set whose files can be listed, the dependencies of a module are found exactly when, for the
module and all others that imports lead to, every Protobuf file can be read and parsed and each of its
imports is provided by one module alone, or by none and is well known. They are the other modules to
which imports lead, each once and in the order of their identities, and those that the module
imports itself are direct. -/
theorem Session.Reachable.dependencies_exact {loads : Nat → Except Error Digest} {σ : Session}
    (h : Session.Reachable loads σ) {s : ModuleSet}
    (hs : s ∈ σ.sets) (hl : s.IsLoadable σ.disk) (hplain : s.HasPlainPaths σ.disk) {x : Module}
    (hx : x ∈ s.modules) :
    (Succeeds (σ.outcome (s.dependencies Session.access x)) ↔
        ∀ y, ReflTransGen (s.ImportsFrom σ.disk) x y → s.IsResolved σ.disk y) ∧
      ∀ ds, σ.outcome (s.dependencies Session.access x) = .ok ds →
        ds.Pairwise (fun a b => a.module.identity < b.module.identity) ∧
        ∀ d, d ∈ ds ↔ d.module ≠ x ∧ TransGen (s.ImportsFrom σ.disk) x d.module ∧
          (d.isDirect = true ↔ s.ImportsFrom σ.disk x d.module) := by
  have before : σ.Before (σ.after (s.dependencies Session.access x)) := Cumulative.before σ
  have later := h.query (.dependencies hs hx)
  have plain := later.fits_world.sound.plain
  rw [← later.fits_world.disk, before.disk] at plain
  have reads := later.readsImports_world (before.sets.subset hs) (before.disk ▸ hl)
    (before.disk ▸ hplain)
  rw [before.disk] at reads
  rw [h.outcome_dependencies_world hs hx]
  refine ⟨ModuleSet.succeeds_dependencies_iff_isResolved plain hl reads hx, fun ds hds => ?_⟩
  exact ⟨ModuleSet.pairwise_dependencies plain hx hds,
    ModuleSet.mem_dependencies_iff_importsFrom plain hl reads hx hds⟩

namespace Sample

/-! A session with one set of two local modules, of which the first imports the second. -/

def fullName (name : String) (h : NamePart.IsValid name) : FullName :=
  ⟨"registry", "owner", name, by decide, by decide, h⟩

def bucket (name : String) : Bucket :=
  .memory ⟨[(name ++ ".proto", ⟨#[]⟩)]⟩

theorem isValid_a : NamePart.IsValid "a" := by decide

theorem isValid_b : NamePart.IsValid "b" := by decide

theorem isValid_c : NamePart.IsValid "c" := by decide

/-- A parser that finds one import, that of the second module by the first. -/
def parser : ImportParser where
  number := none
  parse path _ := .ok (if path = "a.proto" then ["b.proto"] else [])

def addition (name : String) (h : NamePart.IsValid name) : Addition :=
  .ofLocal (bucket name) name { name := some (fullName name h) }

def module (position : Nat) (name : String) (h : NamePart.IsValid name) : Module where
  source := ⟨0, position⟩
  bucketId := name
  description := (fullName name h).text
  name := some (fullName name h)
  commit := .none
  isTarget := false
  isLocal := true
  includes := []
  excludes := []
  inputs := (addition name h).inputs
  identified := .inr rfl
  named_of_remote := by simp
  named_of_commit := by simp

def first : Module := module 0 "a" isValid_a

def second : Module := module 1 "b" isValid_b

def set : ModuleSet := ⟨0, parser, [first, second], by decide, by decide⟩

/-- The session in which the set was built. -/
def session : Session :=
  ({} : Session).after (Session.build parser [addition "a" isValid_a, addition "b" isValid_b])

theorem second_ne_first : second ≠ first :=
  fun h => absurd (congrArg Module.bucketId h) (by decide)

theorem mem_modules_set {x : Module} : x ∈ set.modules ↔ x = first ∨ x = second := by
  simp [set]

theorem sets_session : session.sets = [set] := rfl

theorem set_mem_sets : set ∈ session.sets := sets_session ▸ List.mem_singleton.2 rfl

/-- No key of the session loads anything. -/
def loads : Nat → Except Error Digest :=
  fun _ => .error (.internal "no digest")

theorem isKnown_of_addition {disk : Disk} {number : Nat} (a : Addition)
    (ha : a ∈ [addition "a" isValid_a, addition "b" isValid_b]) (keys : List ModuleKey)
    (hkeys : a.inputs.declaredKeys.on disk = .ok keys) :
    ∀ key ∈ keys, key.IsKnown disk loads number := by
  simp only [List.mem_cons, List.not_mem_nil, or_false] at ha
  rcases ha with rfl | rfl <;> cases hkeys

theorem reachable_session : Session.Reachable loads session :=
  ⟨{}, .single (.build _ _ _ isKnown_of_addition)⟩

theorem hasProtoOn_module {position : Nat} {name : String} {h : NamePart.IsValid name}
    {disk : Disk} {path : String} (hp : FileKind.ofPath? (name ++ ".proto") = some .proto) :
    (module position name h).HasProtoOn disk path ↔ path = name ++ ".proto" := by
  constructor
  · rintro ⟨_, ⟨⟩, hmem, -⟩
    exact List.mem_singleton.1 hmem
  · rintro rfl
    exact ⟨_, rfl, List.mem_singleton.2 rfl, hp⟩

theorem hasProtoOn_first {disk : Disk} {path : String} :
    first.HasProtoOn disk path ↔ path = "a.proto" :=
  hasProtoOn_module (by decide)

theorem hasProtoOn_second {disk : Disk} {path : String} :
    second.HasProtoOn disk path ↔ path = "b.proto" :=
  hasProtoOn_module (by decide)

theorem isLoadable_set (disk : Disk) : set.IsLoadable disk := by
  intro x hx
  rcases mem_modules_set.1 hx with rfl | rfl
  · exact ⟨_, rfl, rfl, "a.proto", List.mem_singleton.2 rfl, by decide⟩
  · exact ⟨_, rfl, rfl, "b.proto", List.mem_singleton.2 rfl, by decide⟩

theorem hasPlainPaths_set (disk : Disk) : set.HasPlainPaths disk :=
  ModuleSet.hasPlainPaths_of_memory <| List.forall_mem_cons.2 ⟨⟨_, rfl, by decide⟩,
    List.forall_mem_singleton.2 ⟨_, rfl, by decide⟩⟩

theorem hasPlainPaths_sets : ∀ t ∈ session.sets, t.HasPlainPaths session.disk := by
  rw [sets_session]
  exact fun t ht => List.mem_singleton.1 ht ▸ hasPlainPaths_set _

theorem importsOn_first (disk : Disk) : set.importsOn disk first "a.proto" = .ok ["b.proto"] := rfl

theorem importsOn_second (disk : Disk) : set.importsOn disk second "b.proto" = .ok [] := rfl

theorem isOnlyProvider_iff {disk : Disk} {y : Module} :
    set.IsOnlyProvider disk "b.proto" y ↔ y = second := by
  have mem := mem_modules_set.2 (.inr rfl)
  constructor
  · exact fun only => (only.2.2 second mem (hasProtoOn_second.2 rfl)).symm
  · rintro rfl
    refine ⟨mem, hasProtoOn_second.2 rfl, fun z hz hp => ?_⟩
    rcases mem_modules_set.1 hz with rfl | rfl
    · exact absurd (hasProtoOn_first.1 hp) (by decide)
    · rfl

theorem importsFrom_first_iff {disk : Disk} {y : Module} :
    set.ImportsFrom disk first y ↔ y = second := by
  constructor
  · rintro ⟨-, path, imports, imported, hp, himports, himported, only⟩
    obtain rfl := hasProtoOn_first.1 hp
    rw [importsOn_first] at himports
    cases himports
    obtain rfl := List.mem_singleton.1 himported
    exact isOnlyProvider_iff.1 only
  · rintro rfl
    exact ⟨second_ne_first.symm, "a.proto", _, "b.proto", hasProtoOn_first.2 rfl,
      importsOn_first disk, List.mem_singleton.2 rfl, isOnlyProvider_iff.2 rfl⟩

theorem not_importsFrom_second {disk : Disk} {y : Module} : ¬ set.ImportsFrom disk second y := by
  rintro ⟨-, path, imports, imported, hp, himports, himported, -⟩
  obtain rfl := hasProtoOn_second.1 hp
  rw [importsOn_second] at himports
  cases himports
  cases himported

theorem isResolved (disk : Disk) {x : Module} (hx : x ∈ set.modules) : set.IsResolved disk x := by
  intro path hp
  rcases mem_modules_set.1 hx with rfl | rfl
  · obtain rfl := hasProtoOn_first.1 hp
    refine ⟨_, importsOn_first disk, fun imported himported => ?_⟩
    obtain rfl := List.mem_singleton.1 himported
    exact .inl ⟨second, isOnlyProvider_iff.2 rfl⟩
  · obtain rfl := hasProtoOn_second.1 hp
    exact ⟨_, importsOn_second disk, by simp⟩

end Sample

/-- In the sample, the first module has the second as its one dependency, a direct one. -/
theorem Sample.dependencies_first :
    ∃ ds, Sample.session.outcome (Sample.set.dependencies Session.access Sample.first) = .ok ds ∧
      ∀ d, d ∈ ds ↔ d.module = Sample.second ∧ d.isDirect = true := by
  have mem := Sample.mem_modules_set.2 (.inl rfl)
  obtain ⟨hsucceeds, hds⟩ :=
    Sample.reachable_session.dependencies_exact Sample.set_mem_sets (Sample.isLoadable_set _)
      (Sample.hasPlainPaths_set _) mem
  obtain ⟨ds, outcome⟩ := hsucceeds.2 fun y path =>
    Sample.isResolved _ (ModuleSet.mem_modules_of_path mem path)
  refine ⟨ds, outcome, fun d => ?_⟩
  rw [(hds ds outcome).2, Sample.importsFrom_first_iff]
  constructor
  · rintro ⟨hne, path, direct⟩
    have reached := ModuleSet.mem_modules_of_path mem path.to_reflTransGen
    have same := (Sample.mem_modules_set.1 reached).resolve_left hne
    exact ⟨same, direct.2 same⟩
  · rintro ⟨same, direct⟩
    rw [same]
    exact ⟨Sample.second_ne_first, .single (Sample.importsFrom_first_iff.2 rfl),
      iff_of_true direct rfl⟩

end ProtoWorkspace
