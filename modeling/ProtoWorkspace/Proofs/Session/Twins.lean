import ProtoWorkspace.Proofs.Access.Shown
import ProtoWorkspace.Proofs.ModuleDigest.Image
import ProtoWorkspace.Proofs.ModuleDigest.Matched
import ProtoWorkspace.Proofs.Session.Cycles

/-!
# Modules that cannot be told apart

Modules that show the same files, whatever their buckets are, and that are otherwise made of the same
cannot be told apart. They import the same and have the same `b4` digest, and the same `b5` digest if they
are remote. Where all modules of a set have such twins in another set, at the same places, all dependencies
and digests are the same in both sets.
-/

namespace ProtoWorkspace

open ModuleSet

/-- Whether two modules show the same files and are otherwise made of the same. The keys of their
dependencies may be declared in different orders, as long as they are the same when sorted by name. -/
structure Module.AreTwins (disk : Disk) (x y : Module) : Prop extends x.ShowsSame disk y where
  isLocal : x.isLocal = y.isLocal
  yaml : x.inputs.yaml.on disk = y.inputs.yaml.on disk
  lock : x.inputs.lock.on disk = y.inputs.lock.on disk
  keys : sortedByName <$> x.inputs.declaredKeys.on disk =
    sortedByName <$> y.inputs.declaredKeys.on disk

theorem Module.ShowsSame.alike {s t : ModuleSet} {x y : Module} {disk : Disk} (h : x.ShowsSame disk y)
    (parser : s.parser = t.parser) : Alike s t disk disk x y where
  identity := h.identity
  hasProto _ := h.hasProtoOn_iff
  imports path hp := by rw [importsOn, importsOn, h.readOn_of_hasProtoOn hp, parser]

namespace ModuleSet

/-- The `b5` digest of a remote module covers the sorted keys that it was published with. -/
theorem digest_eq_of_sorted {s : ModuleSet} {x : Module} {io : Access (Except Error)} {disk : Disk}
    {sets : List ModuleSet} (plain : io.IsPlain disk sets) (remote : x.isLocal = false) :
    s.digest io x .b5 = (do
      let sorted ← sortedByName <$> x.inputs.declaredKeys.on disk
      let digests ← sorted.mapM (s.keyDigest io)
      Digest.b5 (← x.contentsOn disk) digests) := by
  rw [digest_eq_of_not_isLocal plain remote, plain.declaredKeys_eq, plain.contents_eq]
  cases x.inputs.declaredKeys.on disk <;> rfl

/-- The sorted keys of a module in a world were known before its set. -/
theorem isKnown_of_sorted {w : World} (hw : w.IsSound) {s : ModuleSet} {x : Module} (hs : s ∈ w.sets)
    (hx : x ∈ s.modules) {sorted : List ModuleKey}
    (hsorted : sortedByName <$> x.inputs.declaredKeys.on w.disk = .ok sorted) {key : ModuleKey}
    (hkey : key ∈ sorted) : key.IsKnown w.disk w.loads s.number := by
  obtain ⟨keys, hkeys, rfl⟩ := Fallible.map_eq_ok.1 hsorted
  exact hw.inOrder.keys hs hx hkeys key (List.mem_mergeSort.1 hkey)

end ModuleSet

namespace Module.AreTwins

section

variable {s t : ModuleSet} {x y : Module} {disk : Disk} {sets sets' : List ModuleSet}

theorem digest_b4 (h : x.AreTwins disk y) {io io' : Access (Except Error)} (plain : io.IsPlain disk sets)
    (plain' : io'.IsPlain disk sets') : t.digest io' y .b4 = s.digest io x .b4 := by
  rw [digest_b4_eq plain, digest_b4_eq plain', plain.yaml_eq, plain'.yaml_eq, plain.lock_eq,
    plain'.lock_eq, plain.contents_eq, plain'.contents_eq, h.yaml, h.lock, h.contentsOn]

end

section

variable {w : World} {s t : ModuleSet} {x y : Module} (h : x.AreTwins w.disk y) (hw : w.IsSound)
variable (hs : s ∈ w.sets) (ht : t ∈ w.sets) (hx : x ∈ s.modules) (hy : y ∈ t.modules)

include h hw hs ht hx hy

/-- The `b5` digest of a remote module is the same in all sets. -/
theorem digest_remote (remote : x.isLocal = false) :
    t.digest w.io y .b5 = s.digest w.io x .b5 := by
  rw [digest_eq_of_sorted hw.plain remote, digest_eq_of_sorted hw.plain (h.isLocal ▸ remote), h.keys,
    h.contentsOn]
  refine Fallible.bind_congr fun sorted hsorted => ?_
  have same : sorted.mapM (t.keyDigest w.io) = sorted.mapM (s.keyDigest w.io) := by
    refine Fallible.mapM_congr fun key hkey => ?_
    rw [keyDigest_eq_digest hw (isKnown_of_sorted hw ht hy hsorted hkey),
      keyDigest_eq_digest hw (isKnown_of_sorted hw hs hx (h.keys.trans hsorted) hkey)]
  rw [same]

theorem sameCover : SameCover s t w.io w.io x y where
  isLocal := h.isLocal
  contents := by rw [hw.plain.contents_eq, hw.plain.contents_eq, h.contentsOn]
  remote hl := .of_eq (h.digest_remote hw hs ht hx hy hl).symm

end

end Module.AreTwins

namespace ModuleSet

variable {s t : ModuleSet} {f : Module → Module}

/-- Looked up anew, counterparts that show the same are images. -/
theorem isImage_of_showsSame {disk : Disk} {sets : List ModuleSet}
    (identity : ∀ y : Module, (f y).identity = y.identity)
    (description : ∀ y : Module, (f y).description = y.description)
    (same : ∀ y ∈ s.modules, y.ShowsSame disk (f y)) (modules : t.modules = s.modules.map f)
    (parser : s.parser = t.parser) : IsImage s t (.direct disk sets) (.direct disk sets) f := by
  have plain := Access.isPlain_direct disk sets
  refine ⟨modules, identity, description, fun y hy => ?_, fun y hy paths hpaths path hpath => ?_⟩
  · rw [plain.fileIndex_eq, plain.fileIndex_eq, (same y hy).indexOn]
  · have hl : y.IsLoadable disk := plain.succeeds_protoPaths.1 ⟨paths, hpaths⟩
    have hp : y.HasProtoOn disk path := (plain.mem_protoPaths hpaths).1 hpath
    calc t.importsOf (.direct disk sets) (f y) path
      _ = t.importsOn disk (f y) path :=
        readImports_eq plain ((same y hy).isLoadable_iff.1 hl) ((same y hy).hasProtoOn_iff.1 hp)
      _ = s.importsOn disk y path := (((same y hy).alike parser).imports path hp).symm
      _ = s.importsOf (.direct disk sets) y path := (readImports_eq plain hl hp).symm

theorem coversImage_of_twins {w : World} (hw : w.IsSound) (hs : s ∈ w.sets) (ht : t ∈ w.sets)
    (isLocal : ∀ y : Module, (f y).isLocal = y.isLocal)
    (twins : ∀ y ∈ s.modules, y.AreTwins w.disk (f y)) (modules : t.modules = s.modules.map f) :
    CoversImage s t w.io w.io f := by
  refine ⟨isLocal, fun y hy => ?_, fun y hy remote => ?_⟩
  · rw [hw.plain.contents_eq, hw.plain.contents_eq, (twins y hy).contentsOn]
  · have mem : f y ∈ t.modules := modules ▸ List.mem_map_of_mem hy
    exact (twins y hy).digest_remote hw hs ht hy mem remote

end ModuleSet

end ProtoWorkspace
