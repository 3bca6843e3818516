import ProtoWorkspace.Proofs.Registry.Resolve
import ProtoWorkspace.Proofs.Session.Cycles

/-!
# Publishing and resolving

A module that was published in a session can be resolved from its key there at any time later,
whatever was done in between and whatever else was published, and then has the digests that it had
as a local module.
-/

namespace ProtoWorkspace

open Relation Fallible

variable {loads : Nat → Except Error Digest} {σ τ : Session} {s : ModuleSet} {x : Module}

namespace Session

variable {r r' : Registry} {fresh : CommitId} {key : ModuleKey}

/-- Where no path holds a NUL character, publishing has the outcome of looking everything up anew. -/
theorem Reachable.outcome_push (h : Reachable loads σ)
    (hplain : ∀ t ∈ σ.sets, t.HasPlainPaths σ.disk) (hs : s ∈ σ.sets) (hx : x ∈ s.modules) :
    σ.outcome (r.push fresh s access x) = r.push fresh s (σ.directWorld loads).io x :=
  (h.follows_directWorld hplain (.push r fresh hs hx)
    (.push h.isSound_directWorld r hs (h.setsInOrder.number_lt hs) fresh hx)).2

/-- What publishing a module in a session stores is a snapshot in the worlds of all later
sessions. -/
theorem Reachable.exists_snapshot (h : Reachable loads σ) (hs : s ∈ σ.sets) (hx : x ∈ s.modules)
    (hpush : σ.outcome (r.push fresh s access x) = .ok (r', key)) :
    ∃ stored, r' = r.insert fresh stored ∧ key.name = stored.name ∧ key.commit = fresh ∧
      key.origin = .known stored.b5 ∧ ∀ τ, Reaches loads (σ.after (r.push fresh s access x)) τ →
        r.IsSnapshot s (τ.world loads).io x stored := by
  have published := h.query (.push r fresh hs hx)
  have said : ∀ τ, Reaches loads (σ.after (r.push fresh s access x)) τ →
      r.push fresh s (τ.world loads).io x = .ok (r', key) := by
    intro τ hτ
    have fits := (published.of_reaches hτ).fits_world.of_before hτ.before
    rw [← hpush, Registry.push_eq_of_outcome h hs hx fits]
  obtain ⟨stored, -, hr', hname, hcommit, horigin⟩ := Registry.push_eq_ok (said _ .refl)
  refine ⟨stored, hr', hname, hcommit, horigin, fun τ hτ => ?_⟩
  obtain ⟨stored', snapshot, hr'', -⟩ := Registry.push_eq_ok (said τ hτ)
  have same : stored = stored' := by
    have commits := congrArg Registry.commits (hr'.symm.trans hr'')
    exact (Prod.mk.inj (List.cons.inj commits).1).2
  exact same ▸ snapshot

end Session

variable {r r' r'' : Registry} {fresh : CommitId} {key : ModuleKey}

/-- Publishing a local module whose dependencies have no commits, or commits that the registry has,
gives a key that can be resolved at any time later, whatever is done in the session and published in
the registry in between. The set is made of the module, as the target at the commit of the key, and
of its dependencies. From then on the resolved module has the digests of the local one, and the `b5`
digest is that of the key. -/
theorem Registry.push_resolves (hr : Registry.Becomes {} r) (hσ : Session.Reachable loads σ)
    (hs : s ∈ σ.sets) (hx : x ∈ s.modules) (hl : x.isLocal = true) (hfresh : r.commit? fresh = none)
    (hpush : σ.outcome (r.push fresh s Session.access x) = .ok (r', key))
    (hpinned : ∀ ds, (σ.after (r.push fresh s Session.access x)).outcome
      (s.dependencies Session.access x) = .ok ds → ∀ d ∈ ds, r.Has d.module)
    (hr' : Registry.Becomes r' r'')
    (hτ : Session.Reaches loads (σ.after (r.push fresh s Session.access x)) τ) :
    ∃ ds additions t y,
      (σ.after (r.push fresh s Session.access x)).outcome (s.dependencies Session.access x) =
        .ok ds ∧
      r''.provider.additions [key] = .ok additions ∧
      τ.outcome (Session.build .standard additions) = .ok t ∧
      Registry.IsResolution t key x ds y ∧
      ∀ υ, Session.Reaches loads (τ.after (Session.build .standard additions)) υ →
        ∀ type, ∃ digest, υ.outcome (t.digest Session.access y type) = .ok digest ∧
          υ.outcome (s.digest Session.access x type) = .ok digest ∧
          (type = .b5 → υ.outcome (key.digest Session.access) = .ok digest) := by
  have published := hσ.query (.push r fresh hs hx)
  obtain ⟨stored, inserted, hname, hcommit, horigin, snapshots⟩ := hσ.exists_snapshot hs hx hpush
  have kept : σ.Before (σ.after (r.push fresh s Session.access x)) := Cumulative.before σ
  have hs₁ := kept.sets.subset hs
  -- what the snapshot tells of the dependencies
  have found := published.outcome_dependencies_world hs₁ hx
  have asked : Session.Step loads _ _ := .query _ (.dependencies hs₁ hx)
  have snapshot := snapshots _ (.single asked)
  have plain := (published.of_reaches (.single asked)).fits_world.sound.plain
  obtain ⟨ds, hds, -⟩ := snapshot.dependencies
  rw [hds] at found
  -- what the registry has in the end
  have later : Registry.Becomes r r'' := .head (.push hσ hs hx hfresh hpush) hr'
  have hkey : r''.stored? key.name key.commit = some stored := by
    refine hr'.stored?_eq_some (Registry.stored?_eq_some.2 ⟨?_, hname.symm⟩)
    rw [inserted, Registry.commit?_insert, if_pos hcommit]
  obtain ⟨additions, hadditions, known, build⟩ := snapshot.exists_resolution plain hx
    (Registry.isConsistent_of_becomes hr) hds (hpinned ds found) later hname hkey
  obtain ⟨t, y, ht, resolution, inputs⟩ := build τ.sets.length .standard
  obtain ⟨outcome, made⟩ := Session.outcome_build ht
  refine ⟨ds, additions, t, y, found, hadditions, outcome, resolution, fun υ hυ type => ?_⟩
  -- the sessions after that
  have reaches : Session.Reaches loads _ υ := hτ.trans (.head (.of_known known) hυ)
  have reachable := published.of_reaches reaches
  have htυ : t ∈ υ.sets := hυ.before.sets.subset made
  have hsυ : s ∈ υ.sets := reaches.before.sets.subset hs₁
  obtain ⟨rest, modules, -⟩ := resolution.modules
  have hy : y ∈ t.modules := modules ▸ List.mem_cons_self
  refine ⟨stored.digest type, ?_, ?_, ?_⟩
  · have step : Session.Step loads υ _ := .query υ (.digest htυ hy type)
    have plain := (reachable.of_reaches (.single step)).fits_world.sound.plain
    rw [reachable.outcome_digest_world htυ hy type]
    exact (snapshots _ (reaches.tail step)).digest_resolved plain hx hl resolution.isLocal inputs type
  · have step : Session.Step loads υ _ := .query υ (.digest hsυ hx type)
    rw [reachable.outcome_digest_world hsυ hx type]
    exact (snapshots _ (reaches.tail step)).digest_published type
  · rintro rfl
    exact Session.outcome_keyDigest_of_known horigin

namespace Sample

/-- Numerals are digits. -/
instance neZeroSixteen : NeZero 16 := ⟨by decide⟩

def commit (digit : Fin 16) : CommitId :=
  ⟨List.replicate 32 digit, List.length_replicate⟩

theorem isNone_commit_one : (commit 1).isNone = false := rfl

theorem isNone_commit_two : (commit 2).isNone = false := rfl

section Plain

variable {io : Access (Except Error)} {disk : Disk} {sets : List ModuleSet}
variable (h : io.IsPlain disk sets) (reads : set.ReadsImports io disk)

include h

theorem succeeds_supplies (hx : x ∈ set.modules) :
    Succeeds (x.yaml io) ∧ Succeeds (x.lock io) := by
  rw [h.yaml_eq, h.lock_eq]
  rcases mem_modules_set.1 hx with rfl | rfl <;> exact ⟨⟨none, rfl⟩, ⟨none, rfl⟩⟩

include reads

theorem succeeds_digest (hx : x ∈ set.modules) (type : DigestType) :
    Succeeds (set.digest io x type) := by
  cases type with
  | b4 =>
    obtain ⟨⟨yaml, hyaml⟩, ⟨lock, hlock⟩⟩ := succeeds_supplies h hx
    obtain ⟨files, hfiles⟩ := succeeds_contents h hx
    rw [ModuleSet.digest_b4_eq h, hyaml, hlock, hfiles]
    exact succeeds_ok _
  | b5 =>
    have hl : x.isLocal = true := by
      rcases mem_modules_set.1 hx with rfl | rfl <;> rfl
    rcases ModuleSet.digest_cases h hx hl (isSupplied h reads hx) with ⟨-, hok⟩ | ⟨cyclic, -⟩
    · exact hok
    · exact absurd cyclic (not_isCyclic h reads hx)

/-- A module of the sample can be published once its dependencies have keys. -/
theorem succeeds_push {r : Registry} (hx : x ∈ set.modules)
    (hkeys : ∀ y, set.HasDependency io x y → ∀ isDirect,
      Succeeds (r.pinnedKey set io ⟨y, isDirect⟩)) {digit : Fin 16} (hdigit : digit = 1 ∨ digit = 2) :
    Succeeds (r.push (commit digit) set io x) := by
  obtain ⟨ds, hds⟩ := (isSupplied h reads hx).dependencies
  obtain ⟨yaml, lock⟩ := succeeds_supplies h hx
  have name : ∃ name, x.name = some name := by
    rcases mem_modules_set.1 hx with rfl | rfl <;> exact ⟨_, rfl⟩
  obtain ⟨name, hname⟩ := name
  refine Registry.succeeds_push hname (succeeds_contents h hx) hds (fun d hd => ?_) yaml lock
    (succeeds_digest h reads hx) ?_
  · exact hkeys d.module (ModuleSet.hasDependency_of_mem hds hd) d.isDirect
  · rcases hdigit with rfl | rfl <;> decide

/-- The first module can be published after the second, to which its dependency is then pinned. -/
theorem exists_pushes : ∃ stored key r' key',
    ({} : Registry).push (commit 1) set io second = .ok (({} : Registry).insert (commit 1) stored, key) ∧
      (({} : Registry).insert (commit 1) stored).push (commit 2) set io first = .ok (r', key') := by
  obtain ⟨⟨r, key⟩, hpush⟩ := succeeds_push (r := {}) h reads (mem_modules_set.2 (.inr rfl))
    (fun y hy => absurd hy (not_hasDependency_second h reads)) (.inl rfl)
  obtain ⟨stored, snapshot, rfl, -⟩ := Registry.push_eq_ok hpush
  have pinned : ∀ y, set.HasDependency io first y → ∀ isDirect,
      Succeeds ((({} : Registry).insert (commit 1) stored).pinnedKey set io ⟨y, isDirect⟩) := by
    intro y hy isDirect
    obtain rfl := hasDependency_first h reads hy
    refine ⟨⟨stored.name, commit 1, .known stored.b5, by decide⟩,
      Registry.pinnedKey_eq_ok.2 ⟨snapshot.name, stored.b5, snapshot.b5, ?_, rfl⟩⟩
    rw [Registry.pin_eq_ok, Registry.labeled?_insert, Registry.commit?_insert,
      if_pos ⟨rfl, rfl⟩, if_pos rfl]
    exact .inr ⟨rfl, rfl, rfl⟩
  obtain ⟨⟨r', key'⟩, hpush'⟩ := succeeds_push h reads (mem_modules_set.2 (.inl rfl)) pinned
    (.inr rfl)
  exact ⟨stored, key, r', key', hpush, hpush'⟩

end Plain

theorem has_of_mem_dependencies (hσ : Session.Reachable loads σ) (hs : set ∈ σ.sets)
    (hx : x ∈ set.modules) {ds : List Dependency}
    (hds : σ.outcome (set.dependencies Session.access x) = .ok ds) {r : Registry} {d : Dependency}
    (hd : d ∈ ds) : r.Has d.module := by
  have plain := (hσ.query (.dependencies hs hx)).fits_world.sound.plain
  rw [hσ.outcome_dependencies_world hs hx] at hds
  have mem := ModuleSet.mem_modules_of_mem_dependencies plain hx hds hd
  rcases mem_modules_set.1 mem with h | h <;> exact .inl (h ▸ by decide)

end Sample

/-- In the sample, the first module can be published after the second, and resolves to a remote
module with the same digests. -/
theorem Sample.push_first_resolves :
    ∃ (r r' : Registry) (key : ModuleKey) (σ τ : Session) (additions : List Addition)
      (t : ModuleSet) (y : Module), Registry.Becomes {} r ∧
      Session.Reaches Sample.loads Sample.session σ ∧
      σ.outcome (r.push (Sample.commit 2) Sample.set Session.access Sample.first) =
        .ok (r', key) ∧
      τ = σ.after (r.push (Sample.commit 2) Sample.set Session.access Sample.first) ∧
      r'.provider.additions [key] = .ok additions ∧
      τ.outcome (Session.build .standard additions) = .ok t ∧
      y ∈ t.modules ∧ y.name = Sample.first.name ∧ y.isLocal = false ∧
      ∀ type, ∃ digest,
        (τ.after (Session.build .standard additions)).outcome (t.digest Session.access y type) =
          .ok digest ∧
        (τ.after (Session.build .standard additions)).outcome
          (Sample.set.digest Session.access Sample.first type) = .ok digest := by
  have reachable := Sample.reachable_session
  have reads : Sample.set.ReadsImports (Sample.session.directWorld Sample.loads).io _ :=
    ModuleSet.readsImports_direct (Sample.isLoadable_set Sample.session.disk)
  obtain ⟨stored, key₂, r', key, hpush₂, hpush₁⟩ :=
    Sample.exists_pushes reachable.isSound_directWorld.plain reads
  have hs := Sample.set_mem_sets
  have hplain := Sample.hasPlainPaths_sets
  have mem₁ := Sample.mem_modules_set.2 (.inl rfl)
  have mem₂ := Sample.mem_modules_set.2 (.inr rfl)
  rw [← reachable.outcome_push hplain hs mem₂] at hpush₂
  have pushed : Registry.Pushed {} _ := .push reachable hs mem₂ rfl hpush₂
  -- the session after the first of the two pushes
  have step : Session.Step Sample.loads _ _ := .query _ (.push {} (Sample.commit 1) hs mem₂)
  have reachable' := reachable.of_reaches (.single step)
  have before := step.before
  rw [← Session.directWorld_after
    (Registry.push {} (Sample.commit 1) Sample.set Session.access Sample.second)] at hpush₁
  have hplain' := hplain
  rw [← before.disk, ← Cumulative.sets_eq
    (x := Registry.push {} (Sample.commit 1) Sample.set Session.access Sample.second)] at hplain'
  rw [← reachable'.outcome_push hplain' (before.sets.subset hs) mem₁] at hpush₁
  have unused : (({} : Registry).insert (Sample.commit 1) stored).commit? (Sample.commit 2) =
      none := by
    rw [Registry.commit?_insert, if_neg (by decide)]
    rfl
  have step' : Session.Step Sample.loads _ _ := .query _
    (.push (({} : Registry).insert (Sample.commit 1) stored) (Sample.commit 2)
      (before.sets.subset hs) mem₁)
  have hs' := (before.trans step'.before).sets.subset hs
  obtain ⟨ds, additions, t, y, -, delivered, built, resolution, digests⟩ :=
    Registry.push_resolves (.single pushed) reachable' (before.sets.subset hs) mem₁ rfl unused hpush₁
      (fun ds hds d hd => Sample.has_of_mem_dependencies (reachable'.of_reaches (.single step')) hs'
        mem₁ hds hd) .refl .refl
  obtain ⟨rest, modules, -⟩ := resolution.modules
  exact ⟨_, r', key, _, _, additions, t, y, .single pushed, .single step, hpush₁, rfl, delivered,
    built, modules ▸ List.mem_cons_self, resolution.name, resolution.isLocal,
    fun type => (digests _ .refl type).imp fun _ h => ⟨h.1, h.2.1⟩⟩

end ProtoWorkspace
