import ProtoWorkspace.Proofs.Dependencies.Broken
import ProtoWorkspace.Proofs.ModuleSet.Fresh
import ProtoWorkspace.Proofs.Session.Edited
import ProtoWorkspace.Proofs.Session.Resembling

/-!
# One module more whose files cannot be listed

A set is built, and another one of the same additions and one more, whose files cannot be listed, so
that nothing can be imported from it. Yet in the second set the dependencies of the other modules are
found only for those that import nothing, and with them the `b5` digests of local modules. What does not
look at imports is as in the first set.
-/

namespace ProtoWorkspace

open Fallible

namespace Addition

/-- Whether the files of an addition cannot be listed, or there is no Protobuf file among them. -/
def FailsOn (a : Addition) (disk : Disk) (e : Error) : Prop :=
  a.inputs.listingOn disk >>= indexOfListing a.label = .error e

end Addition

namespace ModuleSet

open Addition

section Copies

variable {s t : ModuleSet} {x y : Module} {disk : Disk} {sets : List ModuleSet}

theorem AreCopies.resembles (h : AreCopies x y) (disk : Disk) : x.Resembles disk y := by
  obtain ⟨a, made, made'⟩ := h
  have inputs : x.inputs = y.inputs := made.inputs.trans made'.inputs.symm
  exact {
    identity := made.identity.trans made'.identity.symm
    description := made.description.trans made'.description.symm
    isLocal := made.isLocal.trans made'.isLocal.symm
    bucket := congrArg Inputs.bucket inputs
    yaml := congrArg Inputs.yaml inputs
    lock := congrArg Inputs.lock inputs
    keys := by rw [inputs] }

theorem Alike.importsNothing_iff (h : Alike s t disk disk x y) :
    s.ImportsNothing disk x ↔ t.ImportsNothing disk y := by
  refine forall_congr' fun path => forall_congr' fun imports => ?_
  rw [← h.hasProto path]
  refine forall_congr' fun hp => ?_
  rw [h.imports path hp]

/-- The `b5` digest of a module without dependencies is the same in all sets. -/
theorem digest_alone {io : Access (Except Error)} (h : x.Resembles disk y)
    (plain : io.IsPlain disk sets) (hx : x ∈ s.modules) (hy : y ∈ t.modules)
    (hl : x.isLocal = true) (hds : s.dependencies io x = .ok [])
    (hds' : t.dependencies io y = .ok []) : t.digest io y .b5 = s.digest io x .b5 := by
  have hl' : y.isLocal = true := h.isLocal ▸ hl
  rw [digest_eq_of_isLocal plain hx hl, digest_eq_of_isLocal plain hy hl', hds, hds',
    plain.contents_eq, plain.contents_eq, h.contentsOn]
  rfl

end Copies

theorem digest_eq_error {s : ModuleSet} {x : Module} {io : Access (Except Error)} {disk : Disk}
    {sets : List ModuleSet} {e : Error} (plain : io.IsPlain disk sets) (hx : x ∈ s.modules)
    (hl : x.isLocal = true) (hds : s.dependencies io x = .error e) :
    s.digest io x .b5 = .error e := by
  rw [digest_eq_of_isLocal plain hx hl, hds]
  rfl

section Added

variable {disk : Disk} {sets : List ModuleSet} {number number' : Nat} {parser : ImportParser}
  {a : Addition} {before after : List Addition} {s t : ModuleSet} {x y : Module} {e : Error}
variable (hs : build number parser (before ++ after) = .ok s)
variable (ht : build number' parser (before ++ a :: after) = .ok t)
variable (fresh : ∀ b ∈ before ++ after, b.identity ≠ a.identity)
variable (hfail : a.FailsOn disk e)

include hs ht fresh hfail

/-- Where the files of all others can be listed, only the new module is in the way. -/
theorem isBroken_of_fresh (loadable : s.IsLoadable disk) : t.IsBroken disk e := by
  obtain ⟨z, hz, made, only⟩ := exists_makes fresh hs ht
  have fails : z.indexOn disk = .error e := made.indexOn.trans hfail
  refine ⟨⟨z, hz, fails⟩, fun y hy => ?_⟩
  by_cases hid : y.identity = a.identity
  · exact .inr (only y hy hid ▸ fails)
  · obtain ⟨x, hx, copies⟩ := exists_copy fresh hs ht hy hid
    exact .inl ((copies.resembles disk).isLoadable_iff.1 (loadable x hx))

/-- Dependencies that were found without the new module are found beside it if nothing is imported, and
otherwise the search fails with what is wrong with the new module. -/
theorem dependencies_beside (resembles : x.Resembles disk y)
    (hds : Succeeds (s.dependencies (.direct disk sets) x)) :
    (s.ImportsNothing disk x → s.dependencies (.direct disk sets) x = .ok [] ∧
      t.dependencies (.direct disk sets) y = .ok []) ∧
    (¬ s.ImportsNothing disk x → t.dependencies (.direct disk sets) y = .error e) := by
  have plain := Access.isPlain_direct disk sets
  have alike : Alike s t disk disk x y :=
    resembles.alike ((build_eq_ok hs).2.1.trans (build_eq_ok ht).2.1.symm)
  have files := readsFiles_of_dependencies hds
  have files' : t.ReadsFiles (.direct disk sets) disk y := by
    refine readsFiles_direct (resembles.isLoadable_iff.1 files.loadable) fun path hp => ?_
    have hp := (alike.hasProto path).2 hp
    exact alike.imports path hp ▸ files.succeeds path hp
  constructor
  · intro nothing
    have nothing' := alike.importsNothing_iff.1 nothing
    exact ⟨dependencies_eq_nil plain (importedIdentities_eq_nil plain files nothing),
      dependencies_eq_nil plain (importedIdentities_eq_nil plain files' nothing')⟩
  · intro some
    have some' := fun nothing' => some (alike.importsNothing_iff.2 nothing')
    have broken := isBroken_of_fresh hs ht fresh hfail (isLoadable_of_dependencies hds some)
    exact dependencies_eq_error plain (importedIdentities_eq_error plain files' broken some')

end Added

end ModuleSet

open ModuleSet

section

variable {loads : Nat → Except Error Digest} {σ : Session} {parser : ImportParser} {a : Addition}
  {before after : List Addition} {s t : ModuleSet} {x y : Module} {e : Error}

/-- Two sets in a session without NUL characters in paths, of which the second was built of the same
additions and one with a new identity whose files cannot be listed. For a module whose dependencies are
found in the first set, `b4` digests, and `b5` digests if it is remote, are the same in both. If none of
its files imports anything, so are its dependencies and its `b5` digest. Otherwise the search for its
dependencies in the second set, and for its `b5` digest if it is local, fails with what is wrong with
the new module. -/
theorem Session.Reachable.dependencies_beside_broken (h : Session.Reachable loads σ)
    (hplain : ∀ u ∈ σ.sets, u.HasPlainPaths σ.disk) (hs : s ∈ σ.sets) (ht : t ∈ σ.sets)
    (hbuilt : ModuleSet.build s.number parser (before ++ after) = .ok s)
    (hbuilt' : ModuleSet.build t.number parser (before ++ a :: after) = .ok t)
    (fresh : ∀ b ∈ before ++ after, b.identity ≠ a.identity) (hfail : a.FailsOn σ.disk e)
    (hx : x ∈ s.modules) (hy : y ∈ t.modules) (same : x.identity = y.identity)
    (hds : Succeeds (σ.outcome (s.dependencies Session.access x))) :
    (∀ type, type = .b4 ∨ x.isLocal = false →
      σ.outcome (t.digest Session.access y type) = σ.outcome (s.digest Session.access x type)) ∧
    (s.ImportsNothing σ.disk x →
      σ.outcome (s.dependencies Session.access x) = .ok [] ∧
        σ.outcome (t.dependencies Session.access y) = .ok [] ∧
        σ.outcome (t.digest Session.access y .b5) = σ.outcome (s.digest Session.access x .b5)) ∧
    (¬ s.ImportsNothing σ.disk x →
      σ.outcome (t.dependencies Session.access y) = .error e ∧
        (x.isLocal = true → σ.outcome (t.digest Session.access y .b5) = .error e)) := by
  have sound := h.isSound_directWorld
  have resembles := (areCopies_of_identity fresh hbuilt hbuilt' hx hy same).resembles σ.disk
  have digest : ∀ type, σ.outcome (s.digest Session.access x type) =
      s.digest (σ.directWorld loads).io x type := h.outcome_digest hplain hs hx
  have digest' : ∀ type, σ.outcome (t.digest Session.access y type) =
      t.digest (σ.directWorld loads).io y type := h.outcome_digest hplain ht hy
  have remote : x.isLocal = false →
      t.digest (σ.directWorld loads).io y .b5 = s.digest (σ.directWorld loads).io x .b5 :=
    resembles.digest_remote sound hs ht hx hy
  rw [h.outcome_dependencies hplain hs hx] at hds
  obtain ⟨nothing, some⟩ := dependencies_beside hbuilt hbuilt' fresh hfail resembles hds
  rw [h.outcome_dependencies hplain hs hx, h.outcome_dependencies hplain ht hy, digest', digest]
  refine ⟨fun type htype => ?_, fun hnothing => ?_, fun hsome => ?_⟩
  · rw [digest', digest]
    cases type with
    | b4 => exact resembles.digest_b4 sound.plain
    | b5 => exact remote (htype.resolve_left nofun)
  · obtain ⟨hds, hds'⟩ := nothing hnothing
    refine ⟨hds, hds', ?_⟩
    cases hl : x.isLocal with
    | true => exact digest_alone resembles sound.plain hx hy hl hds hds'
    | false => exact remote hl
  · refine ⟨some hsome, fun hl => ?_⟩
    exact digest_eq_error sound.plain hy (resembles.isLocal ▸ hl) (some hsome)

end

namespace Sample

/-! The set of the sample, and one with a third module, which has no files. -/

def emptyAddition : Addition :=
  .ofLocal (.memory ⟨[]⟩) "c" { name := some (fullName "c" isValid_c) }

def additions : List Addition :=
  [addition "a" isValid_a, addition "b" isValid_b]

def firstBeside : Module := { first with source := ⟨1, 0⟩ }

def secondBeside : Module := { second with source := ⟨1, 1⟩ }

def emptyModule : Module :=
  { module 2 "c" isValid_c with source := ⟨1, 2⟩, inputs := emptyAddition.inputs }

def setBeside : ModuleSet :=
  ⟨1, parser, [firstBeside, secondBeside, emptyModule], by decide, by decide⟩

/-- The session in which both sets were built. -/
def sessionBeside : Session :=
  session.after (Session.build parser (additions ++ [emptyAddition]))

theorem sets_sessionBeside : sessionBeside.sets = [set, setBeside] := rfl

theorem reachable_sessionBeside : Session.Reachable loads sessionBeside := by
  refine reachable_session.of_reaches (.single (.build _ _ _ fun a ha keys hkeys => ?_))
  rcases List.mem_append.1 ha with ha | ha
  · exact isKnown_of_addition a ha keys hkeys
  · rw [List.mem_singleton.1 ha] at hkeys
    cases hkeys

theorem build_additions : ModuleSet.build 0 parser (additions ++ []) = .ok set := rfl

theorem build_beside : ModuleSet.build 1 parser (additions ++ [emptyAddition]) = .ok setBeside := rfl

theorem hasPlainPaths_setBeside (disk : Disk) : setBeside.HasPlainPaths disk :=
  ModuleSet.hasPlainPaths_of_memory <| List.forall_mem_cons.2 ⟨⟨_, rfl, by decide⟩,
    List.forall_mem_cons.2 ⟨⟨_, rfl, by decide⟩, List.forall_mem_singleton.2 ⟨_, rfl, by decide⟩⟩⟩

theorem hasPlainPaths_sessionBeside :
    ∀ u ∈ sessionBeside.sets, u.HasPlainPaths sessionBeside.disk := by
  rw [sets_sessionBeside]
  exact List.forall_mem_cons.2 ⟨hasPlainPaths_set _,
    List.forall_mem_singleton.2 (hasPlainPaths_setBeside _)⟩

theorem identity_ne_empty : ∀ b ∈ additions ++ [], b.identity ≠ emptyAddition.identity := by
  decide

theorem failsOn_empty (disk : Disk) :
    emptyAddition.FailsOn disk (.noProtoFiles emptyAddition.label) := by
  cbv

theorem dependencies_second_direct (disk : Disk) (sets : List ModuleSet) :
    set.dependencies (.direct disk sets) second = .ok [] := by
  cbv

theorem not_importsNothing_first (disk : Disk) : ¬ set.ImportsNothing disk first := fun nothing =>
  absurd (nothing _ _ (hasProtoOn_first.2 rfl) (importsOn_first disk)) (by decide)

theorem importsNothing_second (disk : Disk) : set.ImportsNothing disk second := by
  intro path imports hp himports
  obtain rfl := hasProtoOn_second.1 hp
  exact Except.ok.inj (himports.symm.trans (importsOn_second disk))

theorem dependencies_firstBeside (disk : Disk) (sets : List ModuleSet) :
    setBeside.dependencies (.direct disk sets) firstBeside =
      .error (.noProtoFiles emptyAddition.label) := by
  cbv

theorem set_mem_sessionBeside : set ∈ sessionBeside.sets :=
  sets_sessionBeside ▸ List.mem_cons_self

theorem setBeside_mem_sessionBeside : setBeside ∈ sessionBeside.sets :=
  sets_sessionBeside ▸ List.mem_cons_of_mem _ (List.mem_singleton.2 rfl)

theorem succeeds_dependencies_sessionBeside {x : Module} (hx : x ∈ set.modules) :
    Succeeds (sessionBeside.outcome (set.dependencies Session.access x)) := by
  rw [reachable_sessionBeside.outcome_dependencies hasPlainPaths_sessionBeside set_mem_sessionBeside
    hx]
  rcases mem_modules_set.1 hx with rfl | rfl
  · exact ⟨_, dependencies_first_direct _ _⟩
  · exact ⟨_, dependencies_second_direct _ _⟩

end Sample

/-- In the sample, the dependencies of the first module are not found beside the empty one, while its
`b4` digest is the same, and those of the second module, which imports nothing, are. -/
theorem Sample.dependencies_beside_empty :
    sessionBeside.outcome (setBeside.dependencies Session.access firstBeside) =
        .error (.noProtoFiles emptyAddition.label) ∧
      sessionBeside.outcome (setBeside.digest Session.access firstBeside .b4) =
        sessionBeside.outcome (set.digest Session.access first .b4) ∧
      sessionBeside.outcome (setBeside.dependencies Session.access secondBeside) = .ok [] := by
  have first_mem := mem_modules_set.2 (.inl rfl)
  have second_mem := mem_modules_set.2 (.inr rfl)
  obtain ⟨digests, -, some⟩ := reachable_sessionBeside.dependencies_beside_broken
    hasPlainPaths_sessionBeside set_mem_sessionBeside setBeside_mem_sessionBeside build_additions
    build_beside identity_ne_empty (failsOn_empty _) first_mem (y := firstBeside) (by simp [setBeside])
    rfl (succeeds_dependencies_sessionBeside first_mem)
  obtain ⟨-, nothing, -⟩ := reachable_sessionBeside.dependencies_beside_broken
    hasPlainPaths_sessionBeside set_mem_sessionBeside setBeside_mem_sessionBeside build_additions
    build_beside identity_ne_empty (failsOn_empty _) second_mem (y := secondBeside)
    (by simp [setBeside]) rfl (succeeds_dependencies_sessionBeside second_mem)
  exact ⟨(some (not_importsNothing_first _)).1, digests .b4 (.inl rfl),
    (nothing (importsNothing_second _)).2.1⟩

/-- In the sample, a module without files, which nothing imports, is in the way of the dependencies of
another module. -/
theorem Sample.not_succeeds_beside_empty : ∃ (σ : Session) (parser : ImportParser)
    (additions : List Addition) (a : Addition) (s t : ModuleSet) (x y : Module),
    Session.Reachable loads σ ∧ s ∈ σ.sets ∧ t ∈ σ.sets ∧
      ModuleSet.build s.number parser additions = .ok s ∧
      ModuleSet.build t.number parser (additions ++ [a]) = .ok t ∧
      (∀ b ∈ additions, b.identity ≠ a.identity ∧ b.bucketId ≠ a.bucketId) ∧
      (∃ label, a.FailsOn σ.disk (.noProtoFiles label)) ∧
      x ∈ s.modules ∧ y ∈ t.modules ∧ x.identity = y.identity ∧
      Succeeds (σ.outcome (s.dependencies Session.access x)) ∧
      ¬ Succeeds (σ.outcome (t.dependencies Session.access y)) := by
  have first_mem := mem_modules_set.2 (.inl rfl)
  refine ⟨sessionBeside, Sample.parser, additions, emptyAddition, set, setBeside, first, firstBeside,
    reachable_sessionBeside, set_mem_sessionBeside, setBeside_mem_sessionBeside, rfl, rfl, by decide,
    ⟨_, failsOn_empty _⟩, first_mem, by simp [setBeside], rfl,
    succeeds_dependencies_sessionBeside first_mem, ?_⟩
  rw [reachable_sessionBeside.outcome_dependencies hasPlainPaths_sessionBeside
    setBeside_mem_sessionBeside (by simp [setBeside])]
  exact dependencies_firstBeside _ _ ▸ not_succeeds_error _

end ProtoWorkspace
