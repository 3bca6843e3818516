import ProtoWorkspace.Proofs.Session.Twins

/-!
# Modules that are made of the same

Modules that are made of the same have the same files and import the same. What their dependencies and
digests are then depends on the sets only through what the imports lead to. The order in which the keys
of dependencies were declared is of no importance, as the keys are sorted.
-/

namespace ProtoWorkspace

open Relation

/-- Whether two modules have one identity and are made of the same. The keys of their dependencies may be
declared in different orders, as long as they are the same when sorted by name. -/
structure Module.Resembles (disk : Disk) (x y : Module) : Prop where
  identity : x.identity = y.identity
  description : x.description = y.description
  isLocal : x.isLocal = y.isLocal
  bucket : x.inputs.bucket = y.inputs.bucket
  yaml : x.inputs.yaml = y.inputs.yaml
  lock : x.inputs.lock = y.inputs.lock
  keys : sortedByName <$> x.inputs.declaredKeys.on disk =
    sortedByName <$> y.inputs.declaredKeys.on disk

namespace Module.Resembles

open ModuleSet

variable {s t : ModuleSet} {x y : Module} {disk : Disk} {sets : List ModuleSet}
variable (h : x.Resembles disk y)

include h

theorem areTwins : x.AreTwins disk y where
  identity := h.identity
  description := h.description
  bucket := .of_eq (Bucket.ShowsSame.refl disk) (by rw [h.bucket])
  isLocal := h.isLocal
  yaml := by rw [h.yaml]
  lock := by rw [h.lock]
  keys := h.keys

theorem indexOn : x.indexOn disk = y.indexOn disk :=
  h.areTwins.indexOn

theorem isLoadable_iff : x.IsLoadable disk ↔ y.IsLoadable disk :=
  h.areTwins.isLoadable_iff

theorem contentsOn : x.contentsOn disk = y.contentsOn disk :=
  h.areTwins.contentsOn

theorem hasProtoOn_iff {path : String} : x.HasProtoOn disk path ↔ y.HasProtoOn disk path :=
  h.areTwins.hasProtoOn_iff

theorem alike (parser : s.parser = t.parser) : Alike s t disk disk x y :=
  h.areTwins.alike parser

theorem digest_b4 {io : Access (Except Error)} (plain : io.IsPlain disk sets) :
    t.digest io y .b4 = s.digest io x .b4 :=
  h.areTwins.digest_b4 plain plain

omit h

theorem digest_remote {w : World} (h : x.Resembles w.disk y) (hw : w.IsSound) (hs : s ∈ w.sets)
    (ht : t ∈ w.sets) (hx : x ∈ s.modules) (hy : y ∈ t.modules) (remote : x.isLocal = false) :
    t.digest w.io y .b5 = s.digest w.io x .b5 :=
  h.areTwins.digest_remote hw hs ht hx hy remote

end Module.Resembles

namespace ModuleSet

/-- Whether a Protobuf file of a module imports a path. -/
def Imports (s : ModuleSet) (disk : Disk) (x : Module) (imported : String) : Prop :=
  ∃ path imports, x.HasProtoOn disk path ∧ s.importsOn disk x path = .ok imports ∧
    imported ∈ imports

variable {s t : ModuleSet} {disk : Disk} {sets : List ModuleSet} {x : Module}

/-- Where each module on a path from `x` has one in another set that is made of the same, and the paths
that these modules import are shared, `x` is matched. -/
theorem isMatched_of_resembles (parser : s.parser = t.parser) (hx : x ∈ s.modules)
    (resembling : ∀ y ∈ s.modules, ∃ y' ∈ t.modules, y.Resembles disk y')
    (shares : ∀ y, ReflTransGen (s.Leads (.direct disk sets)) x y → ∀ imported,
      s.Imports disk y imported → SharesPath s t disk disk imported) :
    IsMatched s t (.direct disk sets) (.direct disk sets) x := by
  have plain := Access.isPlain_direct disk sets
  intro y path
  obtain ⟨y', hy', resembles⟩ := resembling y (mem_modules_of_leads_path hx path)
  have reads : ∀ {u : ModuleSet} {z : Module}, z.IsLoadable disk → ∀ file, z.HasProtoOn disk file →
      u.importsOf (.direct disk sets) z file = u.importsOn disk z file :=
    fun hl _ hp => readImports_eq plain hl hp
  refine ⟨y', hy', .of_alike plain plain (resembles.alike parser) resembles.isLoadable_iff reads reads ?_⟩
  intro file imports hp himports imported himported
  exact shares y path imported ⟨file, imports, hp, himports, himported⟩

/-- Where every module of either set has one in the other set that is made of the same, all paths are
shared. -/
theorem sharesPath_of_resembles (forth : ∀ x ∈ s.modules, ∃ y ∈ t.modules, x.Resembles disk y)
    (back : ∀ y ∈ t.modules, ∃ x ∈ s.modules, x.Resembles disk y) (path : String) :
    SharesPath s t disk disk path where
  loadable := by
    constructor
    · intro all y hy
      obtain ⟨x, hx, resembles⟩ := back y hy
      exact resembles.isLoadable_iff.1 (all x hx)
    · intro all x hx
      obtain ⟨y, hy, resembles⟩ := forth x hx
      exact resembles.isLoadable_iff.2 (all y hy)
  right x hx hp := by
    obtain ⟨y, hy, resembles⟩ := forth x hx
    exact ⟨y, hy, resembles.identity, resembles.hasProtoOn_iff.1 hp⟩
  left y hy hp := by
    obtain ⟨x, hx, resembles⟩ := back y hy
    exact ⟨x, hx, resembles.identity.symm, resembles.hasProtoOn_iff.2 hp⟩

end ModuleSet

open ModuleSet

/-- In a session without NUL characters in paths, a module that is matched by another one has the same
dependencies and the same digests, when modules of one identity are made of the same. -/
theorem Session.Reachable.sameValue_of_isMatched {loads : Nat → Except Error Digest} {σ : Session}
    {s t : ModuleSet} {x y : Module} (h : Session.Reachable loads σ)
    (hplain : ∀ u ∈ σ.sets, u.HasPlainPaths σ.disk) (hs : s ∈ σ.sets) (ht : t ∈ σ.sets)
    (hx : x ∈ s.modules) (hy : y ∈ t.modules) (same : x.identity = y.identity)
    (matched : IsMatched s t (.direct σ.disk σ.sets) (.direct σ.disk σ.sets) x)
    (resembling : ∀ z ∈ s.modules, ∀ z' ∈ t.modules, z.identity = z'.identity →
      z.Resembles σ.disk z') :
    SameValue (List.map Dependency.outline <$> σ.outcome (s.dependencies Session.access x))
        (List.map Dependency.outline <$> σ.outcome (t.dependencies Session.access y)) ∧
      ∀ type, SameValue (σ.outcome (s.digest Session.access x type))
        (σ.outcome (t.digest Session.access y type)) := by
  have sound := h.isSound_directWorld
  have plain := sound.plain
  refine ⟨?_, fun type => ?_⟩
  · rw [h.outcome_dependencies hplain hs hx, h.outcome_dependencies hplain ht hy]
    exact matched.sameValue_dependencies hy same plain plain hx
  · rw [h.outcome_digest hplain hs hx, h.outcome_digest hplain ht hy]
    cases type with
    | b4 => exact .of_eq ((resembling x hx y hy same).digest_b4 plain).symm
    | b5 =>
      refine matched.sameValue_digest_b5 plain plain hx hy same fun z hz z' hz' sameZ => ?_
      exact (resembling z hz z' hz' sameZ).areTwins.sameCover sound hs ht hz hz'

end ProtoWorkspace
