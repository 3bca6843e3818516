import ProtoWorkspace.Proofs.Dependencies.Copied
import ProtoWorkspace.Proofs.Registry.KeyLists
import ProtoWorkspace.Proofs.Registry.Pinned

/-!
# Resolved modules import what they declare

A module that was published is resolved with the dependencies that it declares, and with nothing else.
Main statement: where all of them are pinned through labels, walking its imports anew in that set gives
exactly the declared dependencies, with the digests of the keys (`Registry.resolved_imports_declared`).
What the labels pointed to was published from other sets and in other sessions; that it has the files of
the dependencies at hand is known from the digests alone.
-/

namespace ProtoWorkspace

open Relation Fallible

/-- What is told of a dependency apart from the set it is in: its name, and whether it is a direct
one. -/
def Dependency.entry (d : Dependency) : Option FullName × Bool :=
  (d.module.name, d.isDirect)

/-- Whether two modules, each in a session of its own, have the same dependencies under the names of the
given keys, and all of these have the digests of the keys. -/
def Session.DependAlike (σ : Session) (s : ModuleSet) (x : Module) (υ : Session) (t : ModuleSet)
    (y : Module) (keys : List ModuleKey) : Prop :=
  ∃ ds ds' digests, σ.outcome (s.dependencies access x) = .ok ds ∧
    υ.outcome (t.dependencies access y) = .ok ds' ∧
    ds'.map Dependency.entry = ds.map Dependency.entry ∧
    ds'.map (·.module.name) = keys.map (some ·.name) ∧
    List.Forall₂ (fun d g => σ.outcome (s.digest access d.module .b5) = .ok g) ds digests ∧
    List.Forall₂ (fun d g => υ.outcome (t.digest access d.module .b5) = .ok g) ds' digests ∧
    List.Forall₂ (fun key g => key.origin = .known g) keys digests

/-- Whether a module has the name, the files and the `b5` digest of a module in a session, wherever it
is. -/
structure Module.IsRemade (loads : Nat → Except Error Digest) (σ : Session) (s : ModuleSet)
    (x z : Module) : Prop where
  name : z.name = x.name
  copied (disk : Disk) : x.IsCopied σ.disk disk z
  digest : ∃ g, Session.TellsDigest loads σ s x g ∧
    ∀ (t : ModuleSet) (io : Access (Except Error)) (disk : Disk) (sets : List ModuleSet),
      io.IsPlain disk sets → t.digest io z .b5 = .ok g

/-- A module is made anew of what is stored of it. -/
theorem StoredCommit.IsOf.isRemade {stored : StoredCommit} {loads : Nat → Except Error Digest}
    {σ : Session} {s : ModuleSet} {x z : Module} (h : stored.IsOf loads σ s x) {key : ModuleKey}
    (hname : x.name = some key.name) {isTarget : Bool} {source : Source}
    (hz : (Provider.additionOf isTarget (stored.dataFor key)).toModule source = .ok z) :
    x.IsRemade loads σ s z := by
  obtain ⟨-, -, -, name, -, -, isLocal, inputs⟩ := Addition.toModule_eq_ok hz
  obtain ⟨files, digests, contents, keeps, hb5⟩ := h.keeps
  have named : z.name = some key.name := name
  refine ⟨named.trans hname.symm, fun disk => ⟨?_, files, contents, keeps.contents ?_ disk⟩,
    stored.b5, h.digest, fun t io disk sets plain => ?_⟩
  · rw [Module.identity_of_name hname, Module.identity_of_name named]
  · rw [inputs]
    rfl
  · rw [hb5]
    exact keeps.digest_remote plain isLocal inputs

/-- Where a provider delivers, resolving keys is building a set. -/
theorem Session.after_resolve {σ : Session} {p : Provider} {keys : List ModuleKey}
    {additions : List Addition} (h : p.additions keys = .ok additions) :
    σ.after (resolve p keys) = σ.after (build .standard additions) := by
  rw [resolve, h]
  rfl

namespace Registry

theorem IsPublished.append {calls : List Call} {key : ModuleKey} {stored : StoredCommit}
    (h : IsPublished calls key stored) (later : List Call) :
    IsPublished (calls ++ later) key stored := by
  obtain ⟨before, c, rest, rfl, published⟩ := h
  exact ⟨before, c, rest ++ later, by simp, published⟩

theorem IsPublished.keys {calls : List Call} {key : ModuleKey} {stored : StoredCommit}
    (h : IsPublished calls key stored) :
    ∀ key' ∈ stored.dependencies, ∃ digest, key'.origin = .known digest := by
  obtain ⟨before, c, rest, rfl, published⟩ := h
  exact (published.snapshot .refl).keys

namespace Call

/-- Whether a module of the set of a call is the published one, or has the name of a kept key. -/
def Involves (c : Call) (stored : StoredCommit) (x : Module) : Prop :=
  x ∈ c.set.modules ∧ (x = c.module ∨ ∃ key ∈ stored.dependencies, x.name = some key.name)

/-- Whether a set is made anew of the module of a call and of its dependencies. -/
structure IsResolvedAs (c : Call) (r : Registry) (stored : StoredCommit) (t : ModuleSet) (y : Module) :
    Prop where
  parser : t.parser = .standard
  mem : y ∈ t.modules
  self : c.module.IsRemade c.loads (c.sessionAfter r) c.set y
  forth : ∀ x, c.Involves stored x → ∃ z ∈ t.modules, x.IsRemade c.loads (c.sessionAfter r) c.set z
  back : ∀ z ∈ t.modules, ∃ x, c.Involves stored x ∧
    x.IsRemade c.loads (c.sessionAfter r) c.set z

section Resolved

variable {r : Registry} {c : Call} {key : ModuleKey} {stored : StoredCommit} {t : ModuleSet} {y : Module}
variable {loads : Nat → Except Error Digest} {σ υ : Session}

theorem IsResolvedAs.hasPlainPaths (resolved : c.IsResolvedAs r stored t y)
    (hplain : c.set.HasPlainPaths c.session.disk) (disk : Disk) : t.HasPlainPaths disk := by
  have before : c.session.Before (c.sessionAfter r) := c.before_sessionAfter r
  intro z hz path hp
  obtain ⟨x, ⟨hx, -⟩, remade⟩ := resolved.back z hz
  have hp := (remade.copied disk).hasProtoOn_iff.2 hp
  rw [before.disk] at hp
  exact hplain x hx path hp

variable (h : c.Publishes r key stored) (hplain : c.set.HasPlainPaths c.session.disk)
variable (hσ : Session.Reaches c.loads (c.sessionAfter r) σ)

include h hplain hσ

/-- What the published module needs in a later session are the involved modules. -/
theorem Publishes.needs_iff {x : Module} :
    c.set.Needs (.direct σ.disk σ.sets) c.module x ↔ c.Involves stored x := by
  have reachable := (c.reachable_after r).of_reaches hσ
  have plain := Access.isPlain_direct σ.disk σ.sets
  have dependency : ∀ x ∈ c.set.modules,
      c.set.HasDependency (.direct σ.disk σ.sets) c.module x ↔
        ∃ key ∈ stored.dependencies, x.name = some key.name := by
    intro x hx
    rw [ModuleSet.HasDependency, ← reachable.dependencies_world (c.mem_sets_of_reaches hσ)
      (c.hasTrueMarks_of_reaches hσ hplain) c.mem_modules]
    exact (h.snapshot hσ).hasDependency_iff reachable.fits_world.sound.plain c.mem_modules hx
  constructor
  · intro needs
    have hx := needs.mem_modules plain c.mem_modules
    exact ⟨hx, needs.imp_right (dependency x hx).1⟩
  · rintro ⟨hx, involved⟩
    exact involved.imp_right (dependency x hx).2

variable {ds : List Dependency}
variable (hds : c.set.dependencies (.direct σ.disk σ.sets) c.module = .ok ds)
variable (resolved : c.IsResolvedAs r stored t y) (hparser : c.set.parser = .standard)

include hds resolved hparser

theorem IsResolvedAs.isMatched (disk : Disk) (sets : List ModuleSet) :
    c.set.IsMatched t (.direct σ.disk σ.sets) (.direct disk sets) c.module := by
  have same : σ.disk = (c.sessionAfter r).disk := hσ.before.disk
  refine ModuleSet.isMatched_of_copies c.mem_modules ⟨ds, hds⟩ (fun x needs => ?_) (fun z hz => ?_)
    (hparser.trans resolved.parser.symm)
  · obtain ⟨z, hz, remade⟩ := resolved.forth x ((h.needs_iff hplain hσ).1 needs)
    exact ⟨z, hz, same ▸ remade.copied disk⟩
  · obtain ⟨x, involved, remade⟩ := resolved.back z hz
    exact ⟨x, (h.needs_iff hplain hσ).2 involved, same ▸ remade.copied disk⟩

/-- The dependencies in the set that was made anew are those of the published module, remade. -/
theorem IsResolvedAs.exists_dependencies (disk : Disk) (sets : List ModuleSet) :
    ∃ ds', t.dependencies (.direct disk sets) y = .ok ds' ∧
      List.Forall₂ (fun d d' => d.isDirect = d'.isDirect ∧ d'.module ∈ t.modules ∧
        d.module.IsRemade c.loads (c.sessionAfter r) c.set d'.module) ds ds' := by
  have plain := Access.isPlain_direct σ.disk σ.sets
  have plain' := Access.isPlain_direct disk sets
  have matched := resolved.isMatched h hplain hσ hds hparser disk sets
  have same := (resolved.self.copied disk).identity
  obtain ⟨ds', hds'⟩ := matched.succeeds_dependencies resolved.mem same plain plain' c.mem_modules
    ⟨ds, hds⟩
  have outlines := (matched.sameValue_dependencies resolved.mem same plain plain' c.mem_modules _).1
    (map_eq_ok.2 ⟨ds, hds, rfl⟩)
  rw [hds', map_ok, Except.ok.injEq, ← List.forall₂_eq_eq_eq, List.forall₂_map_left_iff,
    List.forall₂_map_right_iff, List.forall₂_iff_zip] at outlines
  refine ⟨ds', hds', (List.forall₂_iff_zip.2 ⟨outlines.1, fun {d' d} member => ?_⟩).flip⟩
  obtain ⟨hd', hd⟩ := List.of_mem_zip member
  obtain ⟨identity, isDirect⟩ := Prod.mk.inj (outlines.2 member)
  have inside := ModuleSet.mem_modules_of_mem_dependencies plain c.mem_modules hds hd
  have inside' := ModuleSet.mem_modules_of_mem_dependencies plain' resolved.mem hds' hd'
  obtain ⟨x, ⟨hx, -⟩, remade⟩ := resolved.back d'.module inside'
  obtain rfl : x = d.module :=
    ModuleSet.eq_of_identity hx inside ((remade.copied disk).identity.trans identity)
  exact ⟨isDirect.symm, inside', remade⟩

omit hds in
theorem IsResolvedAs.dependAlike (hυ : Session.Reachable loads υ) (ht : t ∈ υ.sets) :
    σ.DependAlike c.set c.module υ t y stored.dependencies := by
  have reachable := (c.reachable_after r).of_reaches hσ
  have hs := c.mem_sets_of_reaches hσ
  have marks := c.hasTrueMarks_of_reaches hσ hplain
  have marks' := (resolved.hasPlainPaths hplain υ.disk).hasTrueMarks
  obtain ⟨ds, hds, keys⟩ := (h.told σ hσ).dependencies
  have direct := hds
  rw [reachable.outcome_dependencies_of_marks hs marks c.mem_modules] at direct
  obtain ⟨ds', hds', remade⟩ :=
    resolved.exists_dependencies h hplain hσ direct hparser υ.disk υ.sets
  rw [← hυ.outcome_dependencies_of_marks ht marks' resolved.mem] at hds'
  obtain ⟨digests, hdigests, origins⟩ := exists_between
    (S := fun key g => key.origin = .known g) (keys.imp fun d key ⟨_, g, hg, horigin, _⟩ =>
      ⟨g, hg, horigin⟩)
  refine ⟨ds, ds', digests, hds, hds', ?_, ?_, hdigests, ?_, origins⟩
  · refine (map_eq_map_of_forall₂ (remade.imp ?_)).symm
    rintro d d' ⟨isDirect, -, remade⟩
    rw [Dependency.entry, Dependency.entry, remade.name, isDirect]
  · refine map_eq_map_of_forall₂ (forall₂_of_common remade keys ?_)
    rintro d - d' - key' ⟨-, -, remade⟩ ⟨hname, -⟩
    rw [remade.name, hname]
  · refine forall₂_of_common remade hdigests ?_
    rintro d hd d' - g ⟨-, inside, remade⟩ hg
    obtain ⟨g', tells, remote⟩ := remade.digest
    have local_mem := reachable.mem_modules_of_dependencies hs c.mem_modules hds hd
    have told := tells.outcome (c.reachable_after r) (c.mem_sets_after r) local_mem hσ
    obtain rfl := Except.ok.inj (hg.symm.trans told)
    have plain := (hυ.query (.digest ht inside .b5)).fits_world.sound.plain
    rw [hυ.outcome_digest_world ht inside .b5]
    exact remote t _ _ _ plain

end Resolved

section Resolve

variable {before rest : List Call} {c : Call} {key key' : ModuleKey} {stored : StoredCommit}
variable {x z : Module}

/-- The kept keys have names of modules of the set. -/
theorem Publishes.exists_of_key {r : Registry} (h : c.Publishes r key stored)
    (hkey' : key' ∈ stored.dependencies) : ∃ x ∈ c.set.modules, x.name = some key'.name := by
  have snapshot := h.snapshot .refl
  have plain := (c.reachable_after r).fits_world.sound.plain
  obtain ⟨ds, hds, keys⟩ := snapshot.dependencies
  obtain ⟨d, hd, hpin⟩ := exists_of_mem_right keys hkey'
  exact ⟨d.module, ModuleSet.mem_modules_of_mem_dependencies plain c.mem_modules hds hd,
    (pinnedKey_eq_ok.1 hpin).1⟩

variable (h : c.Publishes (History.of before).registry key stored)
variable (hfresh : ((before ++ c :: rest).map Call.commit).Nodup)

include h hfresh

/-- What is published can be looked up at any time later. -/
theorem Publishes.stored?_later :
    (History.of (before ++ c :: rest)).registry.stored? key.name key.commit = some stored :=
  (stored?_of_calls hfresh).2 ⟨key, ⟨before, c, rest, rfl, h⟩, rfl, rfl⟩

variable (hlocal : ∀ b ∈ before, b.module.isLocal = true) (hl : c.module.isLocal = true)
variable (hplain : c.set.HasPlainPaths c.session.disk)
variable (unpinned : c.IsUnpinned (History.of before).registry) (unambiguous : c.IsUnambiguous before)

include hlocal hl hplain unpinned unambiguous

/-- At a kept key, what can be looked up later is of the dependency with its name. -/
theorem Publishes.exists_stored_dependency (hkey' : key' ∈ stored.dependencies)
    (hx : x ∈ c.set.modules) (hname : x.name = some key'.name) :
    ∃ other, (History.of (before ++ c :: rest)).registry.stored? key'.name key'.commit = some other ∧
      other.IsOf c.loads (c.sessionAfter (History.of before).registry) c.set x := by
  have hbefore : (before.map Call.commit).Nodup := by
    rw [List.map_append] at hfresh
    exact hfresh.of_append_left
  obtain ⟨published, other, hpublished, pname, pcommit, isOf, -⟩ :=
    h.exists_isOf_dependency hbefore hlocal hl hplain unpinned unambiguous hkey' hx hname
  exact ⟨other, (stored?_of_calls hfresh).2 ⟨published, hpublished.append _, pname, pcommit⟩, isOf⟩

/-- What is delivered for a kept key is the dependency with its name, made anew. -/
theorem Publishes.isRemade_dependency (hkey' : key' ∈ stored.dependencies)
    (hx : x ∈ c.set.modules) (hname : x.name = some key'.name)
    (delivered : (History.of (before ++ c :: rest)).registry.IsDelivered false key' z) :
    x.IsRemade c.loads (c.sessionAfter (History.of before).registry) c.set z := by
  obtain ⟨other', source, hother', hz⟩ := delivered
  obtain ⟨other, hother, isOf⟩ :=
    h.exists_stored_dependency hfresh hlocal hl hplain unpinned unambiguous hkey' hx hname
  obtain rfl := Option.some.inj (hother.symm.trans hother')
  exact isOf.isRemade hname hz

/-- A set of what is delivered for a key and for the keys that were kept with it is made anew of the
module and its dependencies. -/
theorem Publishes.isResolvedAs {t : ModuleSet} {y : Module} {others : List Module}
    (parser : t.parser = .standard) (modules : t.modules = y :: others)
    (self : (History.of (before ++ c :: rest)).registry.IsDelivered true key y)
    (delivered : List.Forall₂ ((History.of (before ++ c :: rest)).registry.IsDelivered false)
      stored.dependencies others) :
    c.IsResolvedAs (History.of before).registry stored t y := by
  obtain ⟨stored', source, hkey', hy⟩ := self
  obtain rfl := Option.some.inj ((h.stored?_later hfresh).symm.trans hkey')
  have remade := (h.isOf hl).isRemade ((h.snapshot .refl).name.trans (congrArg some h.name.symm)) hy
  refine ⟨parser, modules ▸ List.mem_cons_self, remade, ?_, ?_⟩
  · rintro x ⟨hx, rfl | ⟨key', hkey', hname⟩⟩
    · exact ⟨y, modules ▸ List.mem_cons_self, remade⟩
    · obtain ⟨z, hz, here⟩ := exists_of_mem_right delivered.flip hkey'
      exact ⟨z, modules ▸ List.mem_cons_of_mem y hz,
        h.isRemade_dependency hfresh hlocal hl hplain unpinned unambiguous hkey' hx hname here⟩
  · intro z hz
    rw [modules] at hz
    rcases List.mem_cons.1 hz with rfl | hz
    · exact ⟨c.module, ⟨c.mem_modules, .inl rfl⟩, remade⟩
    · obtain ⟨key', hkey', here⟩ := exists_of_mem_right delivered hz
      obtain ⟨x, hx, hname⟩ := h.exists_of_key hkey'
      exact ⟨x, ⟨hx, .inr ⟨key', hkey', hname⟩⟩,
        h.isRemade_dependency hfresh hlocal hl hplain unpinned unambiguous hkey' hx hname here⟩

/-- From the key of a module whose dependencies are all pinned through labels, a set is made anew of the
module and its dependencies, at any time later. -/
theorem Publishes.exists_resolution :
    ∃ additions, (History.of (before ++ c :: rest)).registry.provider.additions [key] = .ok additions ∧
      (∀ a ∈ additions, ∃ keys, a.inputs.declaredKeys = .ready keys ∧
        ∀ key' ∈ keys, ∃ digest, key'.origin = .known digest) ∧
      ∀ number, ∃ t y, ModuleSet.build number .standard additions = .ok t ∧
        c.IsResolvedAs (History.of before).registry stored t y ∧ y.commit = key.commit := by
  have snapshot := h.snapshot .refl
  have plain := (c.reachable_after (History.of before).registry).fits_world.sound.plain
  have exists_stored : ∀ key' ∈ stored.dependencies, ∃ other,
      (History.of (before ++ c :: rest)).registry.stored? key'.name key'.commit = some other := by
    intro key' hkey'
    obtain ⟨x, hx, hname⟩ := h.exists_of_key hkey'
    obtain ⟨other, hother, -⟩ :=
      h.exists_stored_dependency hfresh hlocal hl hplain unpinned unambiguous hkey' hx hname
    exact ⟨other, hother⟩
  have name_ne : ∀ key' ∈ stored.dependencies, key'.name ≠ key.name := fun key' hkey' =>
    h.name ▸ snapshot.name_ne plain c.mem_modules hkey'
  obtain ⟨additions, hadditions, delivered, build⟩ := build_of_additions (h.stored?_later hfresh)
    exists_stored (snapshot.pairwise_name_ne plain c.mem_modules) name_ne
  refine ⟨additions, hadditions, fun a ha => ?_, fun number => ?_⟩
  · obtain ⟨key', other, isTarget, hother, rfl⟩ := delivered a ha
    obtain ⟨published, hpublished, -⟩ := (stored?_of_calls hfresh).1 hother
    exact ⟨other.dependencies, rfl, hpublished.keys⟩
  · obtain ⟨t, y, others, ht, modules, self, remade⟩ := build number .standard
    have ⟨_, _, _, hy⟩ := self
    exact ⟨t, y, ht, h.isResolvedAs hfresh hlocal hl hplain unpinned unambiguous
      (ModuleSet.build_eq_ok ht).2.1 modules self remade, (Addition.toModule_eq_ok hy).2.2.2.2.1⟩

end Resolve

end Call

/-- A local module is published in a registry in which only local modules were published before. All of its
dependencies, which the standard parser finds, are pinned through labels, and the hashes of what is under
the digests do not collide. Then the key that is given makes a set, at any time later and in any session,
in which the imports of the module lead to the same dependencies as before, direct ones to direct ones.
They are those that were kept with the module, and each has the digest of the local dependency, which is
that of its key. No path in the set of the module holds a NUL character. -/
theorem resolved_imports_declared {before rest : List Call} {c : Call}
    (hfresh : ((before ++ c :: rest).map Call.commit).Nodup)
    (hlocal : ∀ b ∈ before, b.module.isLocal = true) (hl : c.module.isLocal = true)
    (hparser : c.set.parser = .standard) (hplain : c.set.HasPlainPaths c.session.disk)
    {r : Registry} {key : ModuleKey} (hpush : c.outcome (History.of before).registry = .ok (r, key))
    (unpinned : c.IsUnpinned (History.of before).registry) (unambiguous : c.IsUnambiguous before)
    {loads : Nat → Except Error Digest} {τ : Session} (hτ : Session.Reachable loads τ) :
    ∃ stored t y, (History.of (before ++ c :: rest)).registry.find key = .ok stored ∧
      τ.outcome (Session.resolve (History.of (before ++ c :: rest)).registry.provider [key]) =
        .ok t ∧
      y ∈ t.modules ∧ y.name = c.module.name ∧ y.commit = key.commit ∧
      ∀ σ υ, Session.Reaches c.loads (c.sessionAfter (History.of before).registry) σ →
        Session.Reaches loads
          (τ.after (Session.resolve (History.of (before ++ c :: rest)).registry.provider [key])) υ →
        σ.DependAlike c.set c.module υ t y stored.dependencies := by
  obtain ⟨stored, -, h⟩ := Call.publishes_of_outcome hpush
  obtain ⟨additions, hadditions, known, build⟩ :=
    h.exists_resolution hfresh hlocal hl hplain unpinned unambiguous
  obtain ⟨t, y, ht, resolved, commit⟩ := build τ.sets.length
  obtain ⟨outcome, made⟩ := Session.outcome_build ht
  have hkey : (History.of (before ++ c :: rest)).registry.find key = .ok stored :=
    find_eq_ok.2 (h.stored?_later hfresh)
  refine ⟨stored, t, y, hkey, ?_, resolved.mem, resolved.self.name, commit, fun σ υ hσ hυ => ?_⟩
  · rw [Session.outcome_resolve, resolve, hadditions]
    exact ht
  · rw [Session.after_resolve hadditions] at hυ
    have step : Session.Step loads τ (τ.after (Session.build .standard additions)) := .of_known known
    exact resolved.dependAlike h hplain hσ hparser ((hτ.of_reaches (.single step)).of_reaches hυ)
      (hυ.before.sets.subset made)

end Registry

namespace Sample

/-! The two modules of the sample, with an import that the standard parser finds. -/

def importAddition : Addition :=
  .ofLocal (.memory ⟨[("a.proto", "import 'b.proto';".toUTF8)]⟩) "a" { name := first.name }

def importFirst : Module :=
  { first with inputs := importAddition.inputs }

def standardSet : ModuleSet :=
  ⟨0, .standard, [importFirst, second], set.nodup_identity, set.nodup_bucketId⟩

def standardSession : Session :=
  ({} : Session).after (Session.build .standard [importAddition, addition "b" isValid_b])

theorem standardSet_mem_sets : standardSet ∈ standardSession.sets :=
  List.mem_singleton.2 rfl

theorem mem_modules_standardSet {x : Module} :
    x ∈ standardSet.modules ↔ x = importFirst ∨ x = second := by
  simp [standardSet]

theorem reachable_standardSession : Session.Reachable loads standardSession := by
  refine ⟨{}, .single (.build _ _ _ fun a ha keys hkeys => ?_)⟩
  simp only [List.mem_cons, List.not_mem_nil, or_false] at ha
  rcases ha with rfl | rfl <;> cases hkeys

theorem hasPlainPaths_standardSet (disk : Disk) : standardSet.HasPlainPaths disk :=
  ModuleSet.hasPlainPaths_of_memory <| List.forall_mem_cons.2
    ⟨⟨_, rfl, List.forall_mem_singleton.2 (by decide)⟩,
      List.forall_mem_singleton.2 ⟨_, rfl, List.forall_mem_singleton.2 (by decide)⟩⟩

theorem hasPlainPaths_standardSession :
    ∀ t ∈ standardSession.sets, t.HasPlainPaths standardSession.disk :=
  List.forall_mem_singleton.2 (hasPlainPaths_standardSet _)

section Direct

variable (disk : Disk) (sets : List ModuleSet)

theorem dependencies_importFirst :
    standardSet.dependencies (.direct disk sets) importFirst = .ok [⟨second, true⟩] := by
  cbv

theorem dependencies_standard_second :
    standardSet.dependencies (.direct disk sets) second = .ok [] := by
  cbv

theorem contentsOn_second : second.contentsOn disk = .ok [("b.proto", ⟨#[]⟩)] := by
  cbv

theorem contentsOn_importFirst : importFirst.contentsOn disk =
    .ok [("a.proto", "import 'b.proto';".toUTF8)] := by
  cbv

theorem digest_standard_second : standardSet.digest (.direct disk sets) second .b5 =
    .ok (.ofStream .b5 (Digest.b5Stream [("b.proto", ⟨#[]⟩)] [])) := by
  have plain := Access.isPlain_direct disk sets
  refine (ModuleSet.digest_b5_eq_ok plain (mem_modules_standardSet.2 (.inr rfl)) rfl).2
    ⟨[], [], _, dependencies_standard_second disk sets, by simp, .nil, ?_, rfl⟩
  rw [plain.contents_eq, contentsOn_second]

theorem succeeds_digest_importFirst :
    Succeeds (standardSet.digest (.direct disk sets) importFirst .b5) := by
  have plain := Access.isPlain_direct disk sets
  refine ⟨_, (ModuleSet.digest_b5_eq_ok plain (mem_modules_standardSet.2 (.inl rfl)) rfl).2
    ⟨_, _, [("a.proto", "import 'b.proto';".toUTF8)], dependencies_importFirst disk sets, ?_,
      .cons (digest_standard_second disk sets) .nil, ?_, rfl⟩⟩
  · intro d hd _ back
    rw [List.mem_singleton.1 hd] at back
    obtain ⟨e, he, -⟩ := back.exists_mem (dependencies_standard_second disk sets)
    cases he
  · rw [plain.contents_eq, contentsOn_importFirst]

theorem succeeds_push_standard_second :
    Succeeds (({} : Registry).push (commit 1) standardSet (.direct disk sets) second) := by
  have plain := Access.isPlain_direct disk sets
  have contents : second.contents (.direct disk sets) = .ok [("b.proto", ⟨#[]⟩)] := by
    rw [plain.contents_eq, contentsOn_second]
  refine Registry.succeeds_push rfl ⟨_, contents⟩ (dependencies_standard_second disk sets) (by simp)
    ⟨none, rfl⟩ ⟨none, rfl⟩ (fun type => ?_) (by decide)
  cases type with
  | b4 => exact ⟨_, (ModuleSet.digest_b4_eq_ok plain).2 ⟨none, none, _, rfl, rfl, contents, rfl⟩⟩
  | b5 => exact ⟨_, digest_standard_second disk sets⟩

/-- The first module can be published where the label of the second points to what is published of
it. -/
theorem succeeds_push_importFirst {stored : StoredCommit}
    (h : ({} : Registry).IsSnapshot standardSet (.direct disk sets) second stored) : Succeeds
      ((({} : Registry).insert (commit 1) stored).push (commit 2) standardSet (.direct disk sets)
        importFirst) := by
  have plain := Access.isPlain_direct disk sets
  have contents : importFirst.contents (.direct disk sets) =
      .ok [("a.proto", "import 'b.proto';".toUTF8)] := by
    rw [plain.contents_eq, contentsOn_importFirst]
  refine Registry.succeeds_push rfl ⟨_, contents⟩ (dependencies_importFirst disk sets)
    (fun d hd => ?_) ⟨none, rfl⟩ ⟨none, rfl⟩ (fun type => ?_) (by decide)
  · rw [List.mem_singleton.1 hd]
    refine ⟨⟨stored.name, commit 1, .known stored.b5, by decide⟩,
      Registry.pinnedKey_eq_ok.2 ⟨h.name, stored.b5, h.b5, ?_, rfl⟩⟩
    rw [Registry.pin_eq_ok, Registry.labeled?_insert, Registry.commit?_insert,
      if_pos ⟨rfl, rfl⟩, if_pos rfl]
    exact .inr ⟨rfl, rfl, rfl⟩
  · cases type with
    | b4 => exact ⟨_, (ModuleSet.digest_b4_eq_ok plain).2 ⟨none, none, _, rfl, rfl, contents, rfl⟩⟩
    | b5 => exact succeeds_digest_importFirst disk sets

end Direct

/-- A call to publish a module of the sample. -/
def standardCall {x : Module} (hx : x ∈ standardSet.modules) (digit : Fin 16)
    (proper : (commit digit).isNone = false) : Registry.Call where
  loads := loads
  session := standardSession
  isReachable := reachable_standardSession
  set := standardSet
  mem_sets := standardSet_mem_sets
  module := x
  mem_modules := hx
  commit := commit digit
  proper := proper

def secondCall : Registry.Call :=
  standardCall (mem_modules_standardSet.2 (.inr rfl)) 1 isNone_commit_one

def importCall : Registry.Call :=
  standardCall (mem_modules_standardSet.2 (.inl rfl)) 2 isNone_commit_two

theorem outcome_standardCall {x : Module} (hx : x ∈ standardSet.modules) (digit : Fin 16)
    (proper : (commit digit).isNone = false) (r : Registry) : (standardCall hx digit proper).outcome r =
      r.push (commit digit) standardSet (.direct {} [standardSet]) x :=
  (Registry.Call.outcome_eq (standardCall hx digit proper) r).trans
    (reachable_standardSession.outcome_push hasPlainPaths_standardSession standardSet_mem_sets hx)

/-- The first module can be published once the second one is. -/
theorem exists_outcome_importCall : ∃ r key,
    importCall.outcome (Registry.History.of [secondCall]).registry = .ok (r, key) := by
  obtain ⟨⟨r, key⟩, hpush⟩ := succeeds_push_standard_second {} [standardSet]
  obtain ⟨stored, snapshot, rfl, -⟩ := Registry.push_eq_ok hpush
  obtain ⟨⟨r', key'⟩, hpush'⟩ := succeeds_push_importFirst {} [standardSet] snapshot
  refine ⟨r', key', ?_⟩
  have published : (Registry.History.of [secondCall]).registry =
      ({} : Registry).insert (commit 1) stored := by
    have outcome : secondCall.outcome {} = .ok (({} : Registry).insert (commit 1) stored, key) :=
      (outcome_standardCall _ 1 rfl {}).trans hpush
    exact congrArg Registry.History.registry (Registry.Call.extend_of_ok (h := {}) outcome)
  rw [published]
  exact (outcome_standardCall _ 2 rfl _).trans hpush'

section Told

variable {σ : Session} (hσ : Session.Reachable loads σ) (hs : standardSet ∈ σ.sets)

include hσ hs

theorem outcome_dependencies_importFirst :
    σ.outcome (standardSet.dependencies Session.access importFirst) = .ok [⟨second, true⟩] := by
  rw [hσ.outcome_dependencies_of_marks hs (hasPlainPaths_standardSet _).hasTrueMarks
    (mem_modules_standardSet.2 (.inl rfl)), dependencies_importFirst]

/-- The digest of the second module covers its file alone. -/
theorem eq_of_covers_second {files : List (String × ByteArray)} {digests : List Digest}
    (h : σ.Covers standardSet second files digests) :
    files = [("b.proto", ⟨#[]⟩)] ∧ digests = [] := by
  have mem := mem_modules_standardSet.2 (.inr rfl)
  have hfiles := h.files
  obtain ⟨ds, hds, hdigests⟩ := h.imports rfl
  rw [hσ.outcome_contentsOn hs mem, contentsOn_second] at hfiles
  rw [hσ.outcome_dependencies_of_marks hs (hasPlainPaths_standardSet _).hasTrueMarks mem,
    dependencies_standard_second] at hds
  cases hds
  cases hdigests
  exact ⟨(Except.ok.inj hfiles).symm, rfl⟩

end Told

theorem outcome_dependencies_importCall (r : Registry) : (importCall.sessionAfter r).outcome
    (importCall.set.dependencies Session.access importCall.module) = .ok [⟨second, true⟩] :=
  outcome_dependencies_importFirst (importCall.reachable_after r) (importCall.mem_sets_after r)

theorem isUnpinned_importCall (r : Registry) : importCall.IsUnpinned r := by
  intro ds hds d hd
  rw [outcome_dependencies_importCall] at hds
  obtain rfl := Except.ok.inj hds
  rw [List.mem_singleton.1 hd]
  rfl

theorem isUnambiguous_importCall : importCall.IsUnambiguous [secondCall] := by
  intro ds hds d hd earlier b later key stored split _ _ files digests files' digests' covers covers'
  rw [outcome_dependencies_importCall] at hds
  obtain rfl := Except.ok.inj hds
  obtain rfl := List.mem_singleton.1 hd
  obtain ⟨rfl, rfl, rfl⟩ : earlier = [] ∧ b = secondCall ∧ later = [] := by
    cases earlier with
    | nil => simpa using split.symm
    | cons => simp at split
  obtain ⟨rfl, rfl⟩ := eq_of_covers_second (importCall.reachable_after _)
    (importCall.mem_sets_after _) covers
  obtain ⟨rfl, rfl⟩ := eq_of_covers_second (secondCall.reachable_after _)
    (secondCall.mem_sets_after _) covers'
  have fits : (Digest.Preimage.b5 [("b.proto", ⟨#[]⟩)] []).Fits :=
    ⟨⟨by decide, List.forall_mem_singleton.2 ⟨by decide, by decide⟩⟩, by decide⟩
  exact ⟨fits, fits, fun _ => rfl⟩

/-- In the sample, the set that is made of the key of the first module has the second one as its
dependency. -/
theorem resolves_importFirst : ∃ r key t y,
    importCall.outcome (Registry.History.of [secondCall]).registry = .ok (r, key) ∧
      session.outcome (Session.resolve
        (Registry.History.of [secondCall, importCall]).registry.provider [key]) = .ok t ∧
      y ∈ t.modules ∧ y.name = first.name ∧
      ∃ d, (session.after (Session.resolve
          (Registry.History.of [secondCall, importCall]).registry.provider [key])).outcome
          (t.dependencies Session.access y) = .ok [d] ∧ d.entry = (second.name, true) := by
  obtain ⟨r, key, hpush⟩ := exists_outcome_importCall
  have different : (([secondCall] ++ [importCall]).map Registry.Call.commit).Nodup := by
    decide
  obtain ⟨stored, t, y, -, ht, hy, hname, -, alike⟩ := Registry.resolved_imports_declared different
    (List.forall_mem_singleton.2 rfl) rfl rfl (hasPlainPaths_standardSet _) hpush
    (isUnpinned_importCall _) isUnambiguous_importCall reachable_session
  obtain ⟨ds, ds', -, hds, hds', entries, -⟩ := alike _ _ .refl .refl
  obtain rfl := Except.ok.inj ((outcome_dependencies_importCall _).symm.trans hds)
  obtain ⟨d, rfl, hd⟩ := List.map_eq_singleton_iff.1 entries
  exact ⟨r, key, t, y, hpush, ht, hy, hname, d, hds', hd⟩

end Sample

end ProtoWorkspace
