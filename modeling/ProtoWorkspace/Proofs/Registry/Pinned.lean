import ProtoWorkspace.Proofs.Registry.Pins
import ProtoWorkspace.Proofs.Registry.Republish
import ProtoWorkspace.Proofs.Session.Marks

/-!
# What pins stand for

A dependency without a commit is pinned to what was published under its name, at whichever commit the
label points to, because both have the same digest. That they have the same files as well is nowhere
compared. It follows from the digests, since what they are computed from can be read in one way only, as
long as their hashes do not collide.
-/

namespace ProtoWorkspace

open Fallible

/-- Whether two rows of bytes under digests are equal if their hashes are, and no count in them needs more
than its eight bytes. -/
structure Digest.Preimage.AreApart (p q : Digest.Preimage) : Prop where
  fits : p.Fits
  fits' : q.Fits
  stream_eq : Shake256.hash 64 p.stream = Shake256.hash 64 q.stream → p.stream = q.stream

theorem Digest.Preimage.AreApart.eq_of_digest {p q : Digest.Preimage} (apart : p.AreApart q)
    {type : DigestType} (same : Digest.ofStream type p.stream = Digest.ofStream type q.stream) :
    p = q :=
  (Digest.stream_eq_iff apart.fits apart.fits').1 (apart.stream_eq (congrArg Digest.value same))

namespace Session

variable {loads : Nat → Except Error Digest} {σ τ : Session} {s : ModuleSet} {x : Module} {g : Digest}

/-- Whether the `b5` digest of a module covers the given files and digests, as a session tells. The digests
are those of the dependencies of a local module, and those of the keys that a remote one was published
with. -/
structure Covers (σ : Session) (s : ModuleSet) (x : Module) (files : List (String × ByteArray))
    (digests : List Digest) : Prop where
  files : σ.outcome (x.contents access) = .ok files
  imports : x.isLocal = true → σ.ImportsDigests s x digests
  declares : x.isLocal = false → σ.DeclaresDigests x digests

/-- Whether a module has a `b5` digest in the worlds of all later sessions. -/
def TellsDigest (loads : Nat → Except Error Digest) (σ : Session) (s : ModuleSet) (x : Module)
    (g : Digest) : Prop :=
  ∀ τ, Reaches loads σ τ → s.digest (τ.world loads).io x .b5 = .ok g

theorem TellsDigest.outcome (kept : TellsDigest loads σ s x g) (h : Reachable loads σ) (hs : s ∈ σ.sets)
    (hx : x ∈ s.modules) (hτ : Reaches loads σ τ) : τ.outcome (s.digest access x .b5) = .ok g := by
  have hs := hτ.before.sets.subset hs
  have step : Step loads τ (τ.after (s.digest access x .b5)) := .query τ (.digest hs hx .b5)
  rw [(h.of_reaches hτ).outcome_digest_world hs hx .b5]
  exact kept _ (hτ.tail step)

/-- A digest is computed from what it covers. -/
theorem Reachable.exists_covers (h : Reachable loads σ) (hs : s ∈ σ.sets)
    (marks : s.HasTrueMarks σ.disk) (hx : x ∈ s.modules) (kept : TellsDigest loads σ s x g)
    (below : x.isLocal = true → ∀ y, s.HasDependency (σ.world loads).io x y →
      ∃ g', TellsDigest loads σ s y g') :
    ∃ files digests, σ.Covers s x files digests ∧
      g = .ofStream .b5 (Digest.b5Stream files digests) := by
  cases hl : x.isLocal with
  | false =>
    obtain ⟨files, digests, hfiles, declares, hg⟩ := h.declaresDigests hs hx hl kept
    exact ⟨files, digests, ⟨hfiles, by simp [hl], fun _ => declares⟩, hg⟩
  | true =>
    have plain := h.fits_world.sound.plain
    obtain ⟨ds, digests, files, hds, -, hdigests, hfiles, hg⟩ :=
      (ModuleSet.digest_b5_eq_ok plain hx hl).1 (kept σ .refl)
    refine ⟨files, digests, ⟨?_, fun _ => ⟨ds, ?_, ?_⟩, by simp [hl]⟩, hg⟩
    · rw [← hfiles, plain.contents_eq]
      exact h.outcome_contentsOn hs hx
    · rw [← hds, h.outcome_dependencies_of_marks hs marks hx, h.dependencies_world hs marks hx]
    · refine (forall₂_congr_of_mem fun d hd g' => ?_).1 hdigests
      obtain ⟨g₀, kept⟩ := below hl d.module (ModuleSet.hasDependency_of_mem hds hd)
      have inside := ModuleSet.mem_modules_of_mem_dependencies plain hx hds hd
      rw [kept σ .refl, kept.outcome h hs inside .refl]

end Session

namespace Registry

variable {r : Registry} {c : Call} {key key' : ModuleKey} {stored : StoredCommit} {y : Module}

/-! ## What a snapshot has of dependencies -/

/-- The dependencies of a module are the modules with the names of the kept keys. -/
theorem IsSnapshot.hasDependency_iff {s : ModuleSet} {x : Module} {io : Access (Except Error)}
    {disk : Disk} {sets : List ModuleSet} (h : io.IsPlain disk sets) (hx : x ∈ s.modules)
    (hsnap : r.IsSnapshot s io x stored) (hy : y ∈ s.modules) :
    s.HasDependency io x y ↔ ∃ key ∈ stored.dependencies, y.name = some key.name := by
  obtain ⟨ds, hds, keys⟩ := hsnap.dependencies
  constructor
  · intro hxy
    obtain ⟨d, hd, rfl⟩ := hxy.exists_mem hds
    obtain ⟨key, hkey, hpin⟩ := exists_of_mem_right keys.flip hd
    exact ⟨key, hkey, (pinnedKey_eq_ok.1 hpin).1⟩
  · rintro ⟨key, hkey, hname⟩
    obtain ⟨d, hd, hpin⟩ := exists_of_mem_right keys hkey
    have inside := ModuleSet.mem_modules_of_mem_dependencies h hx hds hd
    obtain rfl : d.module = y := by
      apply ModuleSet.eq_of_identity inside hy
      rw [Module.identity_of_name (pinnedKey_eq_ok.1 hpin).1, Module.identity_of_name hname]
    exact ModuleSet.hasDependency_of_mem hds hd

/-- The digest of a local module is over its files and the digests that the kept keys know. -/
theorem IsSnapshot.b5_eq_ofStream {s : ModuleSet} {x : Module} {io : Access (Except Error)}
    {disk : Disk} {sets : List ModuleSet} (h : io.IsPlain disk sets) (hx : x ∈ s.modules)
    (hl : x.isLocal = true) (hsnap : r.IsSnapshot s io x stored)
    {files : List (String × ByteArray)} (hfiles : x.contents io = .ok files) {digests : List Digest}
    (origins : List.Forall₂ (fun key g => key.origin = .known g) stored.dependencies digests) :
    stored.b5 = .ofStream .b5 (Digest.b5Stream files digests) := by
  obtain ⟨ds, digests', files', hds, -, hdigests, hfiles', hg⟩ :=
    (ModuleSet.digest_b5_eq_ok h hx hl).1 hsnap.b5
  obtain rfl := Except.ok.inj (hfiles.symm.trans hfiles')
  have origins' : List.Forall₂ (fun key g => key.origin = .known g) stored.dependencies digests' := by
    refine forall₂_of_common (hsnap.forall₂_pinnedKey hds) hdigests ?_
    intro d _ key _ g hpin hg
    obtain ⟨-, g', hg', -, horigin⟩ := pinnedKey_eq_ok.1 hpin
    rw [horigin, Except.ok.inj (hg.symm.trans hg')]
  have same : List.Forall₂ (· = ·) digests' digests := by
    refine forall₂_of_common origins' origins fun key _ g _ g' hg hg' => ?_
    exact DigestOrigin.known.inj (hg.symm.trans hg')
  rw [List.forall₂_eq_eq_eq] at same
  rw [hg, same]

end Registry

/-- Whether what was stored has the files and the `b5` digest that a module has in a session, and in the
worlds of all later ones. -/
structure StoredCommit.IsOf (stored : StoredCommit) (loads : Nat → Except Error Digest) (σ : Session)
    (s : ModuleSet) (x : Module) : Prop where
  keeps : ∃ files digests, x.contentsOn σ.disk = .ok files ∧ stored.Keeps files digests ∧
    stored.b5 = .ofStream .b5 (Digest.b5Stream files digests)
  digest : Session.TellsDigest loads σ s x stored.b5

namespace Registry

namespace Call

/-- Whether the dependencies of the module of a call have no commits of their own. -/
def IsUnpinned (c : Call) (r : Registry) : Prop :=
  ∀ ds, (c.sessionAfter r).outcome (c.set.dependencies Session.access c.module) = .ok ds →
    ∀ d ∈ ds, d.module.commit.isNone = true

/-- Whether the hashes tell apart what is under the `b5` digests of the dependencies of the module of a
call, and under those of the modules that were published under their names before. -/
def IsUnambiguous (c : Call) (before : List Call) : Prop :=
  ∀ ds, (c.sessionAfter (History.of before).registry).outcome
      (c.set.dependencies Session.access c.module) = .ok ds → ∀ d ∈ ds,
    ∀ earlier b later key stored, before = earlier ++ b :: later →
      b.Publishes (History.of earlier).registry key stored → d.module.name = some key.name →
      ∀ files digests files' digests',
        (c.sessionAfter (History.of before).registry).Covers c.set d.module files digests →
        (b.sessionAfter (History.of earlier).registry).Covers b.set b.module files' digests' →
        (Digest.Preimage.b5 files digests).AreApart (.b5 files' digests')

section Reaches

variable {c : Call} {r : Registry} {σ : Session} (hσ : Session.Reaches c.loads (c.sessionAfter r) σ)

include hσ

theorem mem_sets_of_reaches : c.set ∈ σ.sets :=
  hσ.before.sets.subset (c.mem_sets_after r)

theorem hasTrueMarks_of_reaches (hplain : c.set.HasPlainPaths c.session.disk) :
    c.set.HasTrueMarks σ.disk := by
  have before : c.session.Before (c.sessionAfter r) := c.before_sessionAfter r
  rw [hσ.before.disk, before.disk]
  exact hplain.hasTrueMarks

end Reaches

namespace Publishes

variable {r : Registry} {c : Call} {key key' : ModuleKey} {stored : StoredCommit} {y : Module}
variable (h : c.Publishes r key stored)

include h

/-- What is stored is a snapshot in the worlds of all later sessions. -/
theorem snapshot {τ : Session} (hτ : Session.Reaches c.loads (c.sessionAfter r) τ) :
    r.IsSnapshot c.set (τ.world c.loads).io c.module stored := by
  obtain ⟨stored', inserted, -, -, -, snapshots⟩ :=
    c.isReachable.exists_snapshot c.mem_sets c.mem_modules ((c.outcome_eq r).symm.trans h.outcome)
  rw [← Call.sessionAfter_eq] at snapshots
  have commits := congrArg Registry.commits inserted
  obtain rfl : stored = stored' := (Prod.mk.inj (List.cons.inj commits).1).2
  exact snapshots τ hτ

/-- What is stored of a local module covers what the session tells that the digest covers. -/
theorem exists_covers (hl : c.module.isLocal = true) : ∃ files digests,
    (c.sessionAfter r).Covers c.set c.module files digests ∧ stored.Keeps files digests ∧
      stored.b5 = .ofStream .b5 (Digest.b5Stream files digests) := by
  have plain := (c.reachable_after r).fits_world.sound.plain
  have snapshot := h.snapshot .refl
  obtain ⟨digests, imports, origins⟩ := (h.told _ .refl).exists_digests
  obtain ⟨files, hfiles, -⟩ := snapshot.files
  have contents : (c.sessionAfter r).outcome (c.module.contents Session.access) = .ok files := by
    rw [← hfiles, plain.contents_eq]
    exact (c.reachable_after r).outcome_contentsOn (c.mem_sets_after r) c.mem_modules
  exact ⟨files, digests, ⟨contents, fun _ => imports, by simp [hl]⟩,
    snapshot.keeps plain c.mem_modules hfiles origins,
    snapshot.b5_eq_ofStream plain c.mem_modules hl hfiles origins⟩

/-- The module with the name of a kept key has the digest of the key from then on. -/
theorem exists_tellsDigest (hkey' : key' ∈ stored.dependencies) (hy : y ∈ c.set.modules)
    (hname : y.name = some key'.name) : ∃ g, key'.origin = .known g ∧
      r.pin y key'.name g = .ok key'.commit ∧
        Session.TellsDigest c.loads (c.sessionAfter r) c.set y g := by
  have pinned : ∀ τ, Session.Reaches c.loads (c.sessionAfter r) τ →
      r.pinnedKey c.set (τ.world c.loads).io ⟨y, true⟩ = .ok key' := by
    intro τ hτ
    have plain := ((c.reachable_after r).of_reaches hτ).fits_world.sound.plain
    exact (h.snapshot hτ).pinnedKey_of_name plain c.mem_modules hkey' hy hname true
  obtain ⟨-, g, -, hpin, horigin⟩ := pinnedKey_eq_ok.1 (pinned _ .refl)
  refine ⟨g, horigin, hpin, fun τ hτ => ?_⟩
  obtain ⟨-, g', hg', -, horigin'⟩ := pinnedKey_eq_ok.1 (pinned τ hτ)
  obtain rfl := DigestOrigin.known.inj (horigin.symm.trans horigin')
  exact hg'

section Dependency

variable (hl : c.module.isLocal = true) (hplain : c.set.HasPlainPaths c.session.disk)
variable (hkey' : key' ∈ stored.dependencies) (hy : y ∈ c.set.modules)
variable (hname : y.name = some key'.name)

include hl hplain hkey' hy hname

/-- The digest of a dependency is computed from what the session tells that it covers. -/
theorem exists_covers_dependency : ∃ g files digests, key'.origin = .known g ∧
    r.pin y key'.name g = .ok key'.commit ∧
      Session.TellsDigest c.loads (c.sessionAfter r) c.set y g ∧
        (c.sessionAfter r).Covers c.set y files digests ∧
          g = .ofStream .b5 (Digest.b5Stream files digests) := by
  have reachable := c.reachable_after r
  have plain := reachable.fits_world.sound.plain
  have snapshot := h.snapshot .refl
  have marks : c.set.HasTrueMarks (c.sessionAfter r).disk := c.hasTrueMarks_of_reaches .refl hplain
  obtain ⟨g, horigin, hpin, kept⟩ := h.exists_tellsDigest hkey' hy hname
  have needs := (snapshot.hasDependency_iff plain c.mem_modules hy).2 ⟨key', hkey', hname⟩
  obtain ⟨ds, -, -, hds, noBack, -⟩ :=
    (ModuleSet.digest_b5_eq_ok plain c.mem_modules hl).1 snapshot.b5
  obtain ⟨files, digests, covers, hg⟩ :=
    reachable.exists_covers (c.mem_sets_after r) marks hy kept fun hyl z hyz => by
      -- what a dependency needs is a dependency too, as there are no cycles
      obtain ⟨d, hd, rfl⟩ := needs.exists_mem hds
      have other : z ≠ c.module := fun same => noBack d hd hyl (same ▸ hyz)
      have hz := hyz.mem_modules plain hy
      obtain ⟨key'', hkey'', hname'⟩ := (snapshot.hasDependency_iff plain c.mem_modules hz).1
        (needs.trans plain c.mem_modules hyz other)
      obtain ⟨g', -, -, kept'⟩ := h.exists_tellsDigest hkey'' hz hname'
      exact ⟨g', kept'⟩
  exact ⟨g, files, digests, horigin, hpin, kept, covers, hg⟩

end Dependency

end Publishes

variable {before : List Call} {c : Call} {key key' : ModuleKey} {stored : StoredCommit} {y : Module}

/-- What is stored of a local module is of the module. -/
theorem Publishes.isOf {r : Registry} (h : c.Publishes r key stored) (hl : c.module.isLocal = true) :
    stored.IsOf c.loads (c.sessionAfter r) c.set c.module := by
  obtain ⟨files, digests, covers, keeps, hb5⟩ := h.exists_covers hl
  refine ⟨⟨files, digests, ?_, keeps, hb5⟩, fun τ hτ => (h.snapshot hτ).b5⟩
  rw [← covers.files, (c.reachable_after r).outcome_contentsOn (c.mem_sets_after r) c.mem_modules]

/-- What stands at the commit to which a dependency without a commit is pinned is of the dependency. -/
theorem Publishes.exists_isOf_dependency (h : c.Publishes (History.of before).registry key stored)
    (hfresh : (before.map Call.commit).Nodup) (hlocal : ∀ b ∈ before, b.module.isLocal = true)
    (hl : c.module.isLocal = true) (hplain : c.set.HasPlainPaths c.session.disk)
    (unpinned : c.IsUnpinned (History.of before).registry) (unambiguous : c.IsUnambiguous before)
    (hkey' : key' ∈ stored.dependencies) (hy : y ∈ c.set.modules)
    (hname : y.name = some key'.name) : ∃ published other, IsPublished before published other ∧
      published.name = key'.name ∧ published.commit = key'.commit ∧
        other.IsOf c.loads (c.sessionAfter (History.of before).registry) c.set y ∧
          key'.origin = .known other.b5 := by
  have reachable := c.reachable_after (History.of before).registry
  have hs := c.mem_sets_after (History.of before).registry
  obtain ⟨ds, hds, keys⟩ := (h.told _ .refl).dependencies
  obtain ⟨d, hd, hdname, -⟩ := exists_of_mem_right keys hkey'
  obtain rfl : d.module = y := by
    apply ModuleSet.eq_of_identity (reachable.mem_modules_of_dependencies hs c.mem_modules hds hd) hy
    rw [Module.identity_of_name hdname, Module.identity_of_name hname]
  obtain ⟨g, files, digests, horigin, hpin, kept, covers, hg⟩ :=
    h.exists_covers_dependency hl hplain hkey' hy hname
  -- what the label points to, and the call that published it
  rcases pin_eq_ok.1 hpin with ⟨own, -⟩ | ⟨-, hlabel, hb5⟩
  · rw [unpinned ds hds d hd] at own
    cases own
  · obtain ⟨other, hother⟩ := exists_stored?_of_labeled? hfresh hlabel
    rw [(stored?_eq_some.1 hother).1] at hb5
    obtain rfl : other.b5 = g := Option.some.inj hb5
    obtain ⟨published, hpublished, pname, pcommit⟩ := (stored?_of_calls hfresh).1 hother
    obtain ⟨earlier, b, later, split, publishes⟩ := id hpublished
    have hbl : b.module.isLocal = true := hlocal b (by simp [split])
    obtain ⟨files', digests', covers', keeps, hb5'⟩ := publishes.exists_covers hbl
    have apart := unambiguous ds hds d hd earlier b later published other split publishes
      (hname.trans (congrArg some pname.symm)) files digests files' digests' covers covers'
    have same := apart.eq_of_digest (hg.symm.trans hb5')
    obtain ⟨rfl, rfl⟩ := Digest.Preimage.b5.inj same
    refine ⟨published, other, hpublished, pname, pcommit, ⟨⟨files, digests, ?_, keeps, hb5'⟩, kept⟩,
      horigin⟩
    rw [← covers.files, reachable.outcome_contentsOn hs hy]

end Call

end Registry

end ProtoWorkspace
