import Mathlib
import ProtoWorkspace.Proofs.ModuleDigest.Edited
import ProtoWorkspace.Proofs.Registry.Told

/-!
# Publishing a remote module again

The digest of a remote module covers the keys that it was published with. When it is published again,
its dependencies are pinned anew, to where its imports lead in the set at hand, while the digest that is
recorded still covers the old keys. From the new key it resolves to a module whose digest covers the
new pins. Both digests are over the same files, and they agree when both rows of dependencies have the
same digests.
-/

namespace ProtoWorkspace

open Relation Fallible

theorem Digest.b5Stream_eq_iff {files : List (String × ByteArray)} {digests digests' : List Digest} :
    b5Stream files digests = b5Stream files digests' ↔ digests = digests' := by
  constructor
  · intro same
    apply b5Stream_digests_injective _ same
    have sizes := congrArg List.length same
    simp only [b5Stream, List.length_append, List.length_flatMap, length_dependencyBytes,
      length_countBytes, List.map_const', List.sum_replicate, smul_eq_mul] at sizes
    omega
  · rintro rfl
    rfl

/-- Lists whose elements are related through something in between are so through a list. -/
theorem Fallible.exists_between {α β γ : Type} {R : α → γ → Prop} {S : β → γ → Prop} {xs : List α}
    {ys : List β} (h : List.Forall₂ (fun x y => ∃ z, R x z ∧ S y z) xs ys) :
    ∃ zs, List.Forall₂ R xs zs ∧ List.Forall₂ S ys zs := by
  induction h with
  | nil => exact ⟨[], .nil, .nil⟩
  | cons head _ ih =>
    obtain ⟨z, hR, hS⟩ := head
    obtain ⟨zs, hRs, hSs⟩ := ih
    exact ⟨z :: zs, .cons hR hRs, .cons hS hSs⟩

namespace Session

variable {loads : Nat → Except Error Digest} {σ : Session} {s : ModuleSet} {x : Module}

/-- Whether a session tells the digests of the dependencies of a module. -/
def ImportsDigests (σ : Session) (s : ModuleSet) (x : Module) (digests : List Digest) : Prop :=
  ∃ ds, σ.outcome (s.dependencies access x) = .ok ds ∧
    List.Forall₂ (fun d g => σ.outcome (s.digest access d.module .b5) = .ok g) ds digests

/-- Whether a session tells the digests of the keys that a module was published with, in the order of
their names. -/
def DeclaresDigests (σ : Session) (x : Module) (digests : List Digest) : Prop :=
  ∃ keys, σ.outcome (x.declaredKeys access) = .ok keys ∧
    σ.outcome ((sortedByName keys).mapM fun key => key.digest access) = .ok digests

/-- Keys that a module of the session was published with can be asked for their digests. -/
theorem Reachable.reaches_after_keyDigests (h : Reachable loads σ) (hs : s ∈ σ.sets)
    (hx : x ∈ s.modules) {keys : List ModuleKey}
    (hkeys : x.inputs.declaredKeys.on σ.disk = .ok keys) :
    Reaches loads σ (σ.after ((sortedByName keys).mapM fun key => key.digest access)) := by
  apply reaches_after_mapM
  intro τ hτ key hkey
  have known := h.setsInOrder.keys hs hx hkeys key (List.mem_mergeSort.1 hkey)
  have hsτ := hτ.before.sets.subset hs
  have made := (h.of_reaches hτ).setsInOrder.number_lt hsτ
  refine .single (.query τ (.keyDigest ?_))
  rw [hτ.before.disk]
  exact known.mono made.le

/-- The digest of a remote module is over its files and the digests of the keys that it was published
with. -/
theorem Reachable.declaresDigests (h : Reachable loads σ) (hs : s ∈ σ.sets) (hx : x ∈ s.modules)
    (hl : x.isLocal = false) {g : Digest}
    (hg : ∀ τ, Reaches loads σ τ → s.digest (τ.world loads).io x .b5 = .ok g) :
    ∃ files digests, σ.outcome (x.contents access) = .ok files ∧ σ.DeclaresDigests x digests ∧
      g = .ofStream .b5 (Digest.b5Stream files digests) := by
  -- the keys are the same in every world
  have plain₀ := h.fits_world.sound.plain
  have found₀ := hg σ .refl
  rw [ModuleSet.digest_eq_of_not_isLocal plain₀ hl, plain₀.declaredKeys_eq] at found₀
  obtain ⟨keys, hkeys, -⟩ := bind_eq_ok.1 found₀
  replace hkeys : x.inputs.declaredKeys.on σ.disk = .ok keys := hkeys
  -- the world in which they were asked for their digests
  have reaches := h.reaches_after_keyDigests hs hx hkeys
  set τ := σ.after ((sortedByName keys).mapM fun key => key.digest access)
  have before := reaches.before
  have fits := (h.of_reaches reaches).fits_world
  have plain := fits.sound.plain
  obtain ⟨hsw, hmade⟩ := fits.sound.inOrder.of_mem_take (fits.sets ▸ before.sets.subset hs)
  have same : (τ.world loads).disk = σ.disk := before.disk
  have declared : x.inputs.declaredKeys.on (τ.world loads).disk = .ok keys := same ▸ hkeys
  have known : ∀ key ∈ sortedByName keys, key.IsKnown (τ.world loads).disk loads s.number :=
    fun key hkey => fits.sound.inOrder.keys hsw hx declared key (List.mem_mergeSort.1 hkey)
  have asked := (h.follows fits (.mapM fun key hkey =>
    .digestOfKey fits.sound ((known key hkey).mono hmade.le))).2
  have found := hg _ reaches
  rw [ModuleSet.digest_eq_of_not_isLocal plain hl, plain.declaredKeys_eq, declared, ok_bind] at found
  obtain ⟨digests, hdigests, found⟩ := bind_eq_ok.1 found
  obtain ⟨files, hfiles, found⟩ := bind_eq_ok.1 found
  refine ⟨files, digests, ?_, ⟨keys, ?_, ?_⟩, (ModuleSet.b5_eq_ok.1 found).2⟩
  · rw [← hfiles, plain.contents_eq, same]
    exact h.outcome_contentsOn hs hx
  · rw [← hkeys]
    exact h.outcome_run_of_plain hs (.declaredKeys x) hx fun _ plain => plain.declaredKeys_eq x
  · rw [asked, ← hdigests]
    exact (mapM_congr fun key hkey => ModuleSet.keyDigest_eq_digest fits.sound (known key hkey)).symm

/-- The keys under which dependencies are kept know the digests that the session tells of them. -/
theorem Tells.exists_digests {r : Registry} {stored : StoredCommit} (told : σ.Tells r s x stored) :
    ∃ digests, σ.ImportsDigests s x digests ∧
      List.Forall₂ (fun key g => key.origin = .known g) stored.dependencies digests := by
  obtain ⟨ds, hds, keys⟩ := told.dependencies
  obtain ⟨digests, hdigests, origins⟩ := exists_between
    (S := fun key g => key.origin = .known g) (keys.imp fun d key ⟨_, g, hg, horigin, _⟩ =>
      ⟨g, hg, horigin⟩)
  exact ⟨digests, ⟨ds, hds, hdigests⟩, origins⟩

end Session

/-- Whether a stored module has the given files, whatever disk they are looked for on, and keeps its
dependencies in the order of their names, under keys that know the given `b5` digests. -/
structure StoredCommit.Keeps (stored : StoredCommit) (files : List (String × ByteArray))
    (digests : List Digest) : Prop where
  contents {y : Module} : y.inputs.bucket = .ready (Bucket.memory stored.files) →
    ∀ disk, y.contentsOn disk = .ok files
  sorted : stored.dependencies.Pairwise (·.name.text < ·.name.text)
  origins : List.Forall₂ (fun key g => key.origin = .known g) stored.dependencies digests
  typed : ∀ g ∈ digests, g.type = .b5

/-- A remote module that is made of what was stored has a digest over the files and the digests that the
kept keys know. -/
theorem StoredCommit.Keeps.digest_remote {stored : StoredCommit} {files : List (String × ByteArray)}
    {digests : List Digest} (keeps : stored.Keeps files digests) {t : ModuleSet} {y : Module}
    {io : Access (Except Error)} {disk : Disk} {sets : List ModuleSet} (h : io.IsPlain disk sets)
    (remote : y.isLocal = false) {isTarget : Bool} {key : ModuleKey}
    (hy : y.inputs = (Provider.additionOf isTarget (stored.dataFor key)).inputs) :
    t.digest io y .b5 = .ok (.ofStream .b5 (Digest.b5Stream files digests)) := by
  have contents : y.contents io = .ok files := by
    rw [h.contents_eq]
    exact keeps.contents (by rw [hy]; rfl) disk
  have declared : y.declaredKeys io = .ok stored.dependencies := by
    rw [h.declaredKeys_eq, hy]
    rfl
  have sorted : sortedByName stored.dependencies = stored.dependencies :=
    List.mergeSort_of_pairwise (keeps.sorted.imp fun lt => decide_eq_true lt.le)
  have known : stored.dependencies.mapM (t.keyDigest io) = .ok digests := by
    refine mapM_eq_ok.2 (keeps.origins.imp fun key g horigin => ?_)
    rw [ModuleSet.keyDigest, ModuleKey.digestBy, horigin]
    rfl
  rw [ModuleSet.digest_eq_of_not_isLocal h remote, declared, ok_bind, sorted, known, ok_bind, contents,
    ok_bind]
  exact ModuleSet.b5_eq_ok.2 ⟨keeps.typed, rfl⟩

namespace Registry

variable {r : Registry} {key : ModuleKey} {stored : StoredCommit}

/-- What was stored of a module whose files and whose dependencies' digests are given. -/
theorem IsSnapshot.keeps {s : ModuleSet} {x : Module} {io : Access (Except Error)} {disk : Disk}
    {sets : List ModuleSet} (h : io.IsPlain disk sets) (hx : x ∈ s.modules)
    (hsnap : r.IsSnapshot s io x stored) {files : List (String × ByteArray)}
    (hfiles : x.contents io = .ok files) {digests : List Digest}
    (hdigests : List.Forall₂ (fun key g => key.origin = .known g) stored.dependencies digests) :
    stored.Keeps files digests where
  contents hy disk' := by
    obtain ⟨files', hfiles', table⟩ := hsnap.files
    obtain rfl := Except.ok.inj (hfiles.symm.trans hfiles')
    rw [h.contents_eq] at hfiles
    exact Module.contentsOn_of_bucket hfiles (table ▸ hy)
  sorted := hsnap.pairwise_dependencies h hx
  origins := hdigests
  typed := by
    intro g hg
    obtain ⟨key, hkey, horigin⟩ := exists_of_mem_right hdigests hg
    obtain ⟨ds, hds, keys⟩ := hsnap.dependencies
    obtain ⟨d, hd, hpin⟩ := exists_of_mem_right keys hkey
    obtain ⟨-, g', hg', -, horigin'⟩ := pinnedKey_eq_ok.1 hpin
    cases horigin.symm.trans horigin'
    exact ModuleSet.type_of_digest_b5 h (ModuleSet.mem_modules_of_mem_dependencies h hx hds hd) hg'

/-- A registry that delivers the additions for a key has the dependencies that were kept. -/
theorem exists_stored?_of_additions (h : r.stored? key.name key.commit = some stored)
    (hnames : stored.dependencies.Pairwise (·.name ≠ ·.name)) {additions : List Addition}
    (hadditions : r.provider.additions [key] = .ok additions) :
    ∀ key' ∈ stored.dependencies, ∃ other, r.stored? key'.name key'.commit = some other := by
  intro key' hkey'
  rw [additions_eq h hnames] at hadditions
  obtain ⟨others, hothers, -⟩ := map_eq_ok.1 hadditions
  obtain ⟨d, -, hdata⟩ := exists_mem_of_mapM hothers hkey'
  obtain ⟨other, hother, -⟩ := data_eq_ok.1 hdata
  exact ⟨other, hother⟩

/-- What is delivered for a module that was published makes a set, at any time, in which the module is
remote and has what was stored. -/
theorem IsSnapshot.exists_remote {s : ModuleSet} {x : Module} {io : Access (Except Error)}
    {disk : Disk} {sets : List ModuleSet} {r' : Registry} (h : io.IsPlain disk sets)
    (hx : x ∈ s.modules) (hsnap : r.IsSnapshot s io x stored) (hr' : r'.IsConsistent)
    (hname : key.name = stored.name) (hkey : r'.stored? key.name key.commit = some stored)
    {additions : List Addition} (hadditions : r'.provider.additions [key] = .ok additions)
    {loads : Nat → Except Error Digest} (τ : Session) :
    Session.Step loads τ (τ.after (Session.build .standard additions)) ∧
      ∃ t y, τ.outcome (Session.build .standard additions) = .ok t ∧
        t ∈ (τ.after (Session.build .standard additions)).sets ∧ y ∈ t.modules ∧
        y.name = x.name ∧ y.commit = key.commit ∧ y.isLocal = false ∧
        y.inputs = (Provider.additionOf true (stored.dataFor key)).inputs := by
  have names := hsnap.pairwise_name_ne h hx
  have found := exists_stored?_of_additions hkey names hadditions
  obtain ⟨_, delivered, parts, build⟩ := build_of_additions hkey found names
    fun key' hkey' => hname ▸ hsnap.name_ne h hx hkey'
  cases hadditions.symm.trans delivered
  constructor
  · apply Session.Step.of_known
    intro a ha
    obtain ⟨key', other, isTarget, hother, rfl⟩ := parts a ha
    exact ⟨other.dependencies, rfl, hr'.keys (stored?_eq_some.1 hother).1⟩
  · obtain ⟨t, y, rest, ht, modules, ⟨stored', source, hkey', hy⟩, -⟩ :=
      build τ.sets.length .standard
    obtain rfl := Option.some.inj (hkey.symm.trans hkey')
    obtain ⟨-, -, -, yname, ycommit, -, ylocal, inputs⟩ := Addition.toModule_eq_ok hy
    obtain ⟨outcome, made⟩ := Session.outcome_build ht
    refine ⟨t, y, outcome, made, modules ▸ List.mem_cons_self, ?_, ycommit, ylocal, inputs⟩
    rw [yname, hsnap.name, ← hname]
    rfl

section Published

variable {loads : Nat → Except Error Digest} {σ τ : Session} {s : ModuleSet} {x : Module}
variable {r' r'' : Registry} {fresh : CommitId} {additions : List Addition}
variable (hr : Becomes {} r) (hσ : Session.Reachable loads σ) (hs : s ∈ σ.sets) (hx : x ∈ s.modules)
variable (hfresh : r.commit? fresh = none)
variable (hpush : σ.outcome (r.push fresh s Session.access x) = .ok (r', key))
variable (hr' : Becomes r' r'')
variable (hτ : Session.Reaches loads (σ.after (r.push fresh s Session.access x)) τ)
variable (hadditions : r''.provider.additions [key] = .ok additions)

include hr hσ hs hx hfresh hpush hr' hτ hadditions

/-- A module that was published and can be resolved has a `b5` digest from then on, over its files and
the digests of its dependencies in the set from which it was published. -/
theorem exists_resolved :
    ∃ t y files kept, τ.outcome (Session.build .standard additions) = .ok t ∧ y ∈ t.modules ∧
      y.name = x.name ∧ y.commit = key.commit ∧ y.isLocal = false ∧
      (σ.after (r.push fresh s Session.access x)).outcome (x.contents Session.access) = .ok files ∧
      (σ.after (r.push fresh s Session.access x)).ImportsDigests s x kept ∧
      ∀ υ, Session.Reaches loads (τ.after (Session.build .standard additions)) υ →
        υ.outcome (t.digest Session.access y .b5) =
          .ok (.ofStream .b5 (Digest.b5Stream files kept)) := by
  have published := hσ.query (.push r fresh hs hx)
  have before : σ.Before (σ.after (r.push fresh s Session.access x)) := Cumulative.before σ
  have hs₁ := before.sets.subset hs
  obtain ⟨stored, inserted, hname, hcommit, -, snapshots⟩ := hσ.exists_snapshot hs hx hpush
  have told := published.tells hs₁ hx snapshots
  obtain ⟨kept, hkept, origins⟩ := told.exists_digests
  obtain ⟨files, hfiles, -⟩ := told.files
  have later : Becomes {} r'' := hr.trans (.head (.push hσ hs hx hfresh hpush) hr')
  have hkey : r''.stored? key.name key.commit = some stored := by
    refine hr'.stored?_eq_some (stored?_eq_some.2 ⟨?_, hname.symm⟩)
    rw [inserted, commit?_insert, if_pos hcommit]
  obtain ⟨built, t, y, outcome, made, hy, yname, ycommit, ylocal, inputs⟩ :=
    (snapshots _ .refl).exists_remote published.fits_world.sound.plain hx
      (isConsistent_of_becomes later) hname hkey hadditions τ
  refine ⟨t, y, files, kept, outcome, hy, yname, ycommit, ylocal, hfiles, hkept, fun υ hυ => ?_⟩
  have reaches : Session.Reaches loads _ υ := hτ.trans (.head built hυ)
  have reachable := published.of_reaches reaches
  have ht := hυ.before.sets.subset made
  have step : Session.Step loads υ _ := .query υ (.digest ht hy .b5)
  have plain := (reachable.of_reaches (.single step)).fits_world.sound.plain
  rw [reachable.outcome_digest_world ht hy .b5]
  refine ((snapshots _ (reaches.tail step)).keeps plain hx ?_ origins).digest_remote plain ylocal inputs
  have disk := (reaches.before.trans step.before).disk
  rw [← hfiles, plain.contents_eq, published.outcome_contentsOn hs₁ hx]
  exact congrArg x.contentsOn disk

/-- From the key of a remote module that was published again, if it can be resolved, a set is made in
which the module has a `b5` digest, at any time later. It is over the files of the module and the
digests of its dependencies in the set from which it was published, while the digest that was recorded
is over the same files and the digests of the keys that the module was published with before. So the
two are hashes of the same bytes only when both rows of digests are the same. -/
theorem push_remote_resolves (hl : x.isLocal = false) :
    ∃ t y files kept declared,
      τ.outcome (Session.build .standard additions) = .ok t ∧ y ∈ t.modules ∧ y.name = x.name ∧
      y.commit = key.commit ∧ y.isLocal = false ∧
      (σ.after (r.push fresh s Session.access x)).outcome (x.contents Session.access) = .ok files ∧
      (σ.after (r.push fresh s Session.access x)).ImportsDigests s x kept ∧
      (σ.after (r.push fresh s Session.access x)).DeclaresDigests x declared ∧
      (Digest.b5Stream files kept = Digest.b5Stream files declared ↔ kept = declared) ∧
      ∀ υ, Session.Reaches loads (τ.after (Session.build .standard additions)) υ →
        υ.outcome (t.digest Session.access y .b5) =
            .ok (.ofStream .b5 (Digest.b5Stream files kept)) ∧
          υ.outcome (key.digest Session.access) =
            .ok (.ofStream .b5 (Digest.b5Stream files declared)) := by
  obtain ⟨t, y, files, kept, outcome, hy, yname, ycommit, ylocal, hfiles, hkept, digests⟩ :=
    exists_resolved hr hσ hs hx hfresh hpush hr' hτ hadditions
  have published := hσ.query (.push r fresh hs hx)
  have before : σ.Before (σ.after (r.push fresh s Session.access x)) := Cumulative.before σ
  obtain ⟨stored, -, -, -, horigin, snapshots⟩ := hσ.exists_snapshot hs hx hpush
  obtain ⟨files', declared, hfiles', hdeclared, recorded⟩ :=
    published.declaresDigests (before.sets.subset hs) hx hl fun υ hυ => (snapshots υ hυ).b5
  cases hfiles.symm.trans hfiles'
  refine ⟨t, y, files, kept, declared, outcome, hy, yname, ycommit, ylocal, hfiles, hkept, hdeclared,
    Digest.b5Stream_eq_iff, fun υ hυ => ⟨digests υ hυ, ?_⟩⟩
  rw [← recorded]
  exact Session.outcome_keyDigest_of_known horigin

end Published

end Registry

namespace Sample

/-! A session with a set of two modules, of which the first is remote. It imports the second one, which
is local, but was published without dependencies. -/

def remoteKey : ModuleKey :=
  ⟨fullName "a" isValid_a, commit 3, .known ⟨.b5, List.replicate 64 0, rfl⟩, by decide⟩

def remoteAddition : Addition :=
  .ofRemote remoteKey
    { bucket := .ready (bucket "a"), yaml := .ready none, lock := .ready none,
      declaredKeys := .ready [] } false

def remoteFirst : Module :=
  { first with
    bucketId := ""
    commit := commit 3
    isLocal := false
    inputs := remoteAddition.inputs
    identified := .inr rfl
    named_of_remote := by simp [first, module]
    named_of_commit := by simp [first, module] }

def remoteSet : ModuleSet := ⟨0, parser, [remoteFirst, second], by decide, by decide⟩

def remoteSession : Session :=
  ({} : Session).after (Session.build parser [remoteAddition, addition "b" isValid_b])

theorem mem_modules_remoteSet {x : Module} :
    x ∈ remoteSet.modules ↔ x = remoteFirst ∨ x = second := by
  simp [remoteSet]

theorem sets_remoteSession : remoteSession.sets = [remoteSet] := rfl

theorem remoteSet_mem_sets : remoteSet ∈ remoteSession.sets :=
  sets_remoteSession ▸ List.mem_singleton.2 rfl

theorem reachable_remoteSession : Session.Reachable loads remoteSession := by
  refine ⟨{}, .single (.build _ _ _ fun a ha keys hkeys => ?_)⟩
  simp only [List.mem_cons, List.not_mem_nil, or_false] at ha
  rcases ha with rfl | rfl
  · cases hkeys
    simp
  · cases hkeys

theorem hasPlainPaths_remoteSession :
    ∀ t ∈ remoteSession.sets, t.HasPlainPaths remoteSession.disk := by
  rw [sets_remoteSession]
  refine List.forall_mem_singleton.2 ?_
  exact ModuleSet.hasPlainPaths_of_memory <| List.forall_mem_cons.2 ⟨⟨_, rfl, by decide⟩,
    List.forall_mem_singleton.2 ⟨_, rfl, by decide⟩⟩

def remoteDirect : Access (Except Error) :=
  .direct {} [remoteSet]

theorem dependencies_remoteFirst :
    remoteSet.dependencies remoteDirect remoteFirst = .ok [⟨second, true⟩] := by
  cbv

theorem dependencies_remote_second : remoteSet.dependencies remoteDirect second = .ok [] := by
  cbv

theorem contents_remoteFirst : remoteFirst.contents remoteDirect = .ok [("a.proto", ⟨#[]⟩)] := by
  cbv

theorem contents_remote_second : second.contents remoteDirect = .ok [("b.proto", ⟨#[]⟩)] := by
  cbv

theorem isPlain_remoteDirect : remoteDirect.IsPlain {} [remoteSet] :=
  Access.isPlain_direct _ _

theorem digest_remote_second : remoteSet.digest remoteDirect second .b5 =
    .ok (.ofStream .b5 (Digest.b5Stream [("b.proto", ⟨#[]⟩)] [])) :=
  (ModuleSet.digest_b5_eq_ok isPlain_remoteDirect (mem_modules_remoteSet.2 (.inr rfl)) rfl).2
    ⟨[], [], _, dependencies_remote_second, by simp, .nil, contents_remote_second, rfl⟩

theorem digest_remoteFirst : remoteSet.digest remoteDirect remoteFirst .b5 =
    .ok (.ofStream .b5 (Digest.b5Stream [("a.proto", ⟨#[]⟩)] [])) := by
  have declared : remoteFirst.declaredKeys remoteDirect = .ok [] :=
    isPlain_remoteDirect.declaredKeys_eq _
  have sorted : sortedByName [] = [] := List.mergeSort_nil
  rw [ModuleSet.digest_eq_of_not_isLocal isPlain_remoteDirect rfl, declared, ok_bind, sorted,
    contents_remoteFirst]
  rfl

theorem succeeds_push_remote_second :
    Succeeds (({} : Registry).push (commit 1) remoteSet remoteDirect second) := by
  refine Registry.succeeds_push rfl ⟨_, contents_remote_second⟩ dependencies_remote_second (by simp)
    ⟨none, rfl⟩ ⟨none, rfl⟩ (fun type => ?_) (by decide)
  cases type with
  | b4 => exact ⟨_, (ModuleSet.digest_b4_eq_ok isPlain_remoteDirect).2
      ⟨none, none, _, rfl, rfl, contents_remote_second, rfl⟩⟩
  | b5 => exact ⟨_, digest_remote_second⟩

/-- The remote module can be published again where the label of its dependency points to what is
published of it. -/
theorem succeeds_push_remoteFirst {stored : StoredCommit}
    (h : ({} : Registry).IsSnapshot remoteSet remoteDirect second stored) : Succeeds
      ((({} : Registry).insert (commit 1) stored).push (commit 2) remoteSet remoteDirect
        remoteFirst) := by
  refine Registry.succeeds_push rfl ⟨_, contents_remoteFirst⟩ dependencies_remoteFirst
    (fun d hd => ?_) ⟨none, rfl⟩ ⟨none, rfl⟩ (fun type => ?_) (by decide)
  · rw [List.mem_singleton.1 hd]
    refine ⟨⟨stored.name, commit 1, .known stored.b5, by decide⟩,
      Registry.pinnedKey_eq_ok.2 ⟨h.name, stored.b5, h.b5, ?_, rfl⟩⟩
    rw [Registry.pin_eq_ok, Registry.labeled?_insert, Registry.commit?_insert,
      if_pos ⟨rfl, rfl⟩, if_pos rfl]
    exact .inr ⟨rfl, rfl, rfl⟩
  · cases type with
    | b4 => exact ⟨_, (ModuleSet.digest_b4_eq_ok isPlain_remoteDirect).2
        ⟨none, none, _, rfl, rfl, contents_remoteFirst, rfl⟩⟩
    | b5 => exact ⟨_, digest_remoteFirst⟩

/-- Both modules are published in the session, the remote one second, which can then be resolved. -/
theorem exists_remote_published : ∃ (r r' : Registry) (key : ModuleKey) (additions : List Addition),
    Registry.Becomes {} r ∧ r.commit? (commit 2) = none ∧
      remoteSession.outcome (r.push (commit 2) remoteSet Session.access remoteFirst) =
        .ok (r', key) ∧ r'.provider.additions [key] = .ok additions := by
  obtain ⟨⟨r, key⟩, hpush⟩ := succeeds_push_remote_second
  obtain ⟨stored, published, rfl, -⟩ := Registry.push_eq_ok hpush
  obtain ⟨⟨r', key'⟩, hpush'⟩ := succeeds_push_remoteFirst published
  have direct : (remoteSession.directWorld loads).io = remoteDirect := rfl
  have reachable := reachable_remoteSession
  have first_mem := mem_modules_remoteSet.2 (.inl rfl)
  have second_mem := mem_modules_remoteSet.2 (.inr rfl)
  obtain ⟨stored', snapshot, rfl, hname, hcommit, -⟩ := Registry.push_eq_ok hpush'
  rw [← direct, ← reachable.outcome_push hasPlainPaths_remoteSession remoteSet_mem_sets second_mem]
    at hpush
  rw [← direct, ← reachable.outcome_push hasPlainPaths_remoteSession remoteSet_mem_sets first_mem]
    at hpush'
  have unused : (({} : Registry).insert (commit 1) stored).commit? (commit 2) = none := by
    rw [Registry.commit?_insert, if_neg (by decide)]
    rfl
  have earlier : Registry.Becomes {} (({} : Registry).insert (commit 1) stored) :=
    .single (.push reachable remoteSet_mem_sets second_mem rfl hpush)
  have later : Registry.Becomes (({} : Registry).insert (commit 1) stored) _ :=
    .single (.push reachable remoteSet_mem_sets first_mem unused hpush')
  have kept : ∀ key ∈ stored'.dependencies, ∃ other,
      (({} : Registry).insert (commit 1) stored).stored? key.name key.commit = some other := by
    intro key hkey
    refine snapshot.exists_stored? (Registry.isConsistent_of_becomes earlier)
      dependencies_remoteFirst (fun d hd => ?_) hkey
    rw [List.mem_singleton.1 hd]
    exact .inl rfl
  have here : ((({} : Registry).insert (commit 1) stored).insert (commit 2) stored').stored?
      key'.name key'.commit = some stored' := by
    rw [Registry.stored?_eq_some, Registry.commit?_insert, if_pos hcommit]
    exact ⟨rfl, hname.symm⟩
  have names := snapshot.pairwise_name_ne isPlain_remoteDirect first_mem
  obtain ⟨others, -, delivered⟩ := Registry.additions_eq_ok here (fun key hkey => by
    obtain ⟨other, hother⟩ := kept key hkey
    exact ⟨other, later.stored?_eq_some hother⟩) names
  exact ⟨_, _, key', _, earlier, unused, hpush', delivered⟩

/-- The streams under the recorded digest of the remote module and the digest to which it resolves do
not collide. -/
theorem hash_remoteFirst_ne : Shake256.hash 64 (Digest.b5Stream [("a.proto", ⟨#[]⟩)]
      [.ofStream .b5 (Digest.b5Stream [("b.proto", ⟨#[]⟩)] [])]) ≠
    Shake256.hash 64 (Digest.b5Stream [("a.proto", ⟨#[]⟩)] []) := by
  decide +kernel

section Pushed

variable {r r' : Registry} {key : ModuleKey}

/-- The recorded digest covers no dependency. -/
theorem origin_of_push_remoteFirst
    (hpush : remoteSession.outcome (r.push (commit 2) remoteSet Session.access remoteFirst) =
      .ok (r', key)) :
    key.origin = .known (.ofStream .b5 (Digest.b5Stream [("a.proto", ⟨#[]⟩)] [])) := by
  rw [reachable_remoteSession.outcome_push hasPlainPaths_remoteSession remoteSet_mem_sets
    (mem_modules_remoteSet.2 (.inl rfl))] at hpush
  obtain ⟨stored, snapshot, -, -, -, horigin⟩ := Registry.push_eq_ok hpush
  rw [horigin, Except.ok.inj (snapshot.b5.symm.trans digest_remoteFirst)]

/-- Publishing does not change the files of the module nor the digest of its dependency. -/
theorem told_after_push {files : List (String × ByteArray)} {kept : List Digest} {σ : Session}
    (hσ : σ = remoteSession.after (r.push (commit 2) remoteSet Session.access remoteFirst))
    (hfiles : σ.outcome (remoteFirst.contents Session.access) = .ok files)
    (hkept : σ.ImportsDigests remoteSet remoteFirst kept) :
    files = [("a.proto", ⟨#[]⟩)] ∧
      kept = [.ofStream .b5 (Digest.b5Stream [("b.proto", ⟨#[]⟩)] [])] := by
  have first_mem := mem_modules_remoteSet.2 (.inl rfl)
  have second_mem := mem_modules_remoteSet.2 (.inr rfl)
  have published := reachable_remoteSession.query (.push r (commit 2) remoteSet_mem_sets first_mem)
  have before : remoteSession.Before σ := hσ ▸ Cumulative.before _
  have sets : σ.sets = remoteSession.sets := hσ ▸ Cumulative.sets_eq _
  have direct : σ.directWorld loads = remoteSession.directWorld loads :=
    hσ ▸ Session.directWorld_after _
  rw [← hσ] at published
  have hs := before.sets.subset remoteSet_mem_sets
  have hplain := hasPlainPaths_remoteSession
  rw [← before.disk, ← sets] at hplain
  rw [published.outcome_contents hplain hs first_mem, direct] at hfiles
  obtain ⟨ds, hds, hdigests⟩ := hkept
  rw [published.outcome_dependencies hplain hs first_mem, direct] at hds
  obtain rfl := Except.ok.inj (dependencies_remoteFirst.symm.trans hds)
  obtain ⟨g, _, hg, rest, rfl⟩ := List.forall₂_cons_left_iff.1 hdigests
  obtain rfl := List.forall₂_nil_left_iff.1 rest
  rw [published.outcome_digest hplain hs second_mem, direct] at hg
  exact ⟨Except.ok.inj (hfiles.symm.trans contents_remoteFirst),
    by rw [Except.ok.inj (hg.symm.trans digest_remote_second)]⟩

end Pushed

end Sample

/-- In the sample, the remote module can be published again and resolved. -/
theorem Sample.remote_resolves : ∃ (r r' : Registry) (key : ModuleKey) (σ : Session)
    (additions : List Addition) (t : ModuleSet) (y : Module) (kept declared : List Digest),
    remoteSession.outcome (r.push (commit 2) remoteSet Session.access remoteFirst) =
        .ok (r', key) ∧
      σ = remoteSession.after (r.push (commit 2) remoteSet Session.access remoteFirst) ∧
      σ.outcome (Session.build .standard additions) = .ok t ∧ y ∈ t.modules ∧
      σ.ImportsDigests remoteSet remoteFirst kept ∧ σ.DeclaresDigests remoteFirst declared ∧
      Succeeds ((σ.after (Session.build .standard additions)).outcome
        (t.digest Session.access y .b5)) := by
  obtain ⟨r, r', key, additions, earlier, unused, hpush, delivered⟩ := exists_remote_published
  obtain ⟨t, y, files, kept, declared, outcome, hy, -, -, -, -, hkept, hdeclared, -, digests⟩ :=
    Registry.push_remote_resolves earlier reachable_remoteSession remoteSet_mem_sets
      (mem_modules_remoteSet.2 (.inl rfl)) unused hpush .refl .refl delivered rfl
  exact ⟨r, r', key, _, additions, t, y, kept, declared, hpush, rfl, outcome, hy, hkept, hdeclared,
    _, (digests _ .refl).1⟩

/-- In the sample, the remote module resolves to one with another digest than the one that was
recorded. -/
theorem Sample.digest_ne_recorded : ∃ (r r' : Registry) (key : ModuleKey) (σ : Session)
    (additions : List Addition) (t : ModuleSet) (y : Module),
    Registry.Becomes {} r ∧ Session.Reachable loads remoteSession ∧
      remoteSet ∈ remoteSession.sets ∧ remoteFirst ∈ remoteSet.modules ∧
      remoteFirst.isLocal = false ∧ r.commit? (commit 2) = none ∧
      remoteSession.outcome (r.push (commit 2) remoteSet Session.access remoteFirst) =
        .ok (r', key) ∧
      σ = remoteSession.after (r.push (commit 2) remoteSet Session.access remoteFirst) ∧
      r'.provider.additions [key] = .ok additions ∧
      σ.outcome (Session.build .standard additions) = .ok t ∧
      y ∈ t.modules ∧ y.name = remoteFirst.name ∧
      (σ.after (Session.build .standard additions)).outcome (t.digest Session.access y .b5) ≠
        (σ.after (Session.build .standard additions)).outcome (key.digest Session.access) := by
  obtain ⟨r, r', key, additions, earlier, unused, hpush, delivered⟩ := exists_remote_published
  have first_mem := mem_modules_remoteSet.2 (.inl rfl)
  obtain ⟨t, y, files, kept, outcome, hy, hname, -, -, hfiles, hkept, digests⟩ :=
    Registry.exists_resolved earlier reachable_remoteSession remoteSet_mem_sets first_mem unused
      hpush .refl .refl delivered
  refine ⟨r, r', key, _, additions, t, y, earlier, reachable_remoteSession, remoteSet_mem_sets,
    first_mem, rfl, unused, hpush, rfl, delivered, outcome, hy, hname, fun same => ?_⟩
  obtain ⟨rfl, rfl⟩ := told_after_push rfl hfiles hkept
  rw [Session.outcome_keyDigest_of_known (origin_of_push_remoteFirst hpush), digests _ .refl] at same
  exact hash_remoteFirst_ne (congrArg Digest.value (Except.ok.inj same))

end ProtoWorkspace
