import ProtoWorkspace.Proofs.Session.Edited
import ProtoWorkspace.Proofs.Session.Resembling

/-!
# Sets with other targets

A set with other targets has the modules of the set that it came of, each with another mark at most.
Nothing but the marks of target files depends on the marks of modules, so that the imports, the
dependencies and the digests are the same in both sets. Giving targets to a set that was given targets
before is giving them to the first one.
-/

namespace ProtoWorkspace

open Fallible Relation

namespace Module

/-- Whether the includes and excludes of a module let the file at a path be a target file. -/
def Selects (x : Module) (path : String) : Prop :=
  (∀ base ∈ x.excludes, Path.isWithin path base = false) ∧
    (x.includes = [] ∨ ∃ base ∈ x.includes, Path.isWithin path base = true)

instance (x : Module) (path : String) : Decidable (x.Selects path) :=
  inferInstanceAs (Decidable (_ ∧ _))

theorem isTargetPath_iff {x : Module} {path : String} :
    x.isTargetPath path = true ↔ x.isTarget = true ∧ x.Selects path := by
  simp only [isTargetPath, Selects, Bool.and_eq_true, Bool.or_eq_true, Bool.not_eq_true',
    List.any_eq_false, List.any_eq_true, List.isEmpty_iff, Bool.not_eq_true, and_assoc]

/-- A module as it is where the modules of the given identities are the targets. -/
def retargeted (identities : List String) (x : Module) : Module :=
  x.withTarget (decide (x.identity ∈ identities))

theorem resembles_retargeted (disk : Disk) (identities : List String) (x : Module) :
    x.Resembles disk (x.retargeted identities) :=
  ⟨rfl, rfl, rfl, rfl, rfl, rfl, rfl⟩

/-- Under other targets a file has another mark at most. -/
theorem infoOf_retargeted (identities : List String) (x : Module) (entry : FileEntry) :
    (x.retargeted identities).infoOf entry =
      { x.infoOf entry with
        isTarget := decide (x.identity ∈ identities ∧ x.Selects entry.path) } := by
  have mark : (x.retargeted identities).isTargetPath entry.path =
      decide (x.identity ∈ identities ∧ x.Selects entry.path) := by
    rw [Bool.eq_iff_iff, isTargetPath_iff, decide_eq_true_iff, retargeted, withTarget,
      decide_eq_true_iff]
    rfl
  rw [infoOf, infoOf, mark]

end Module

namespace ModuleSet

variable {s t u : ModuleSet} {number : Nat} {identities : List String}

theorem isNone_find?_iff {identity : String} :
    (s.find? identity).isNone = true ↔ identity ∉ s.identities := by
  rw [find?, Option.isNone_iff_eq_none, List.find?_eq_none, ModuleSet.identities, List.mem_map]
  simp only [beq_iff_eq, not_exists, not_and]

theorem find?_unknown_eq_none (known : ∀ identity ∈ identities, identity ∈ s.identities) :
    identities.find? (fun identity => (s.find? identity).isNone) = none :=
  List.find?_eq_none.2 fun identity hidentity =>
    mt isNone_find?_iff.1 (not_not.2 (known identity hidentity))

theorem succeeds_retarget (known : ∀ identity ∈ identities, identity ∈ s.identities) :
    Succeeds (s.retarget number identities) := by
  rw [retarget, find?_unknown_eq_none known]
  exact succeeds_ok _

/-- The first identity that is unknown is reported. -/
theorem retarget_append_cons {before after : List String} {identity : String}
    (known : ∀ identity ∈ before, identity ∈ s.identities) (unknown : identity ∉ s.identities) :
    s.retarget number (before ++ identity :: after) = .error (.unknownModule identity) := by
  have first : (before ++ identity :: after).find? (fun id => (s.find? id).isNone) =
      some identity := by
    rw [List.find?_append, find?_unknown_eq_none known, Option.none_or, List.find?_cons_of_pos]
    exact isNone_find?_iff.2 unknown
  rw [retarget, first]

theorem modules_of_retarget (h : s.retarget number identities = .ok t) :
    t.modules = s.modules.map (Module.retargeted identities) := by
  rw [(retarget_eq_ok h).2]
  refine List.map_congr_left fun x _ => ?_
  rw [Module.retargeted, List.contains_eq_mem]

theorem parser_of_retarget (h : s.retarget number identities = .ok t) : t.parser = s.parser := by
  unfold retarget at h
  split at h
  · cases h
  · cases h
    rfl

theorem identities_of_retarget (h : s.retarget number identities = .ok t) :
    t.identities = s.identities := by
  rw [ModuleSet.identities, ModuleSet.identities, modules_of_retarget h, List.map_map]
  rfl

/-- Targets that were given before do not matter. -/
theorem retarget_of_retarget (h : s.retarget number identities = .ok t) (number' : Nat)
    (identities' : List String) : t.retarget number' identities' = s.retarget number' identities' := by
  have found : ∀ identity, (t.find? identity).isNone = (s.find? identity).isNone := by
    intro identity
    rw [Bool.eq_iff_iff, isNone_find?_iff, isNone_find?_iff, identities_of_retarget h]
  have modules : t.modules.map (fun x => x.withTarget (identities'.contains x.identity)) =
      s.modules.map fun x => x.withTarget (identities'.contains x.identity) := by
    rw [modules_of_retarget h, List.map_map]
    rfl
  simp only [retarget, found, modules, parser_of_retarget h]

/-- Whether a set came of another by giving it other targets any number of times. -/
def CameOf (u s : ModuleSet) : Prop :=
  ReflTransGen (fun s t => ∃ number identities, s.retarget number identities = .ok t) s u

theorem CameOf.retarget_eq (h : u.CameOf s) (number : Nat) (identities : List String) :
    u.retarget number identities = s.retarget number identities := by
  induction h with
  | refl => rfl
  | tail _ step ih =>
    obtain ⟨number', identities', step⟩ := step
    exact (retarget_of_retarget step number identities).trans ih

end ModuleSet

namespace Session

open ModuleSet

variable {loads : Nat → Except Error Digest} {σ : Session} {s t : ModuleSet} {x : Module}
variable {identities : List String}

theorem retarget_of_ok (h : s.retarget σ.sets.length identities = .ok t) :
    σ.outcome (retarget s identities) = .ok t ∧
      σ.after (retarget s identities) = { σ with sets := σ.sets ++ [t] } := by
  rcases addSet_cases (fun number => s.retarget number identities) σ with
    ⟨t', ht', outcome, after⟩ | ⟨e, he, -, -⟩
  · cases ht'.symm.trans h
    exact ⟨outcome, after⟩
  · cases he.symm.trans h

theorem retarget_of_error {e : Error} (h : s.retarget σ.sets.length identities = .error e) :
    σ.outcome (retarget s identities) = .error e := by
  rcases addSet_cases (fun number => s.retarget number identities) σ with
    ⟨t, ht, -, -⟩ | ⟨e', he', outcome, -⟩
  · cases ht.symm.trans h
  · exact outcome.trans (he'.symm.trans h)

/-- Whether a module of `t` is one of `s` where the modules of the given identities are targets, and a
session tells the same of both, apart from the targets. -/
structure IsRetargeted (σ : Session) (s t : ModuleSet) (identities : List String) (x y : Module) :
    Prop where
  module : y = { x with isTarget := decide (x.identity ∈ identities) }
  files : σ.outcome (y.fileInfos access) =
    List.map (fun info =>
      { info with isTarget := decide (x.identity ∈ identities ∧ x.Selects info.path) }) <$>
        σ.outcome (x.fileInfos access)
  dependencies : σ.outcome (t.dependencies access y) =
    List.map (Dependency.image (Module.retargeted identities)) <$>
      σ.outcome (s.dependencies access x)
  digest (type : DigestType) :
    σ.outcome (t.digest access y type) = σ.outcome (s.digest access x type)

theorem Reachable.isRetargeted (h : Reachable loads σ) (hplain : ∀ u ∈ σ.sets, u.HasPlainPaths σ.disk)
    (hs : s ∈ σ.sets) (ht : t ∈ σ.sets) {number : Nat} (came : s.retarget number identities = .ok t)
    (hx : x ∈ s.modules) : σ.IsRetargeted s t identities x (x.retargeted identities) := by
  have sound := h.isSound_directWorld
  have plain := sound.plain
  have modules := modules_of_retarget came
  have hy : x.retargeted identities ∈ t.modules := modules ▸ List.mem_map_of_mem hx
  have resembles := Module.resembles_retargeted σ.disk identities
  have image : IsImage s t (.direct σ.disk σ.sets) (.direct σ.disk σ.sets)
      (Module.retargeted identities) :=
    isImage_of_showsSame (fun y => (resembles y).identity.symm) (fun y => (resembles y).description.symm)
      (fun y _ => (resembles y).areTwins.toShowsSame) modules (parser_of_retarget came).symm
  refine ⟨rfl, ?_, ?_, fun type => ?_⟩
  · rw [h.outcome_fileInfos hs hx, h.outcome_fileInfos ht hy, ← (resembles x).indexOn, ← comp_map]
    refine congrArg (· <$> x.indexOn σ.disk) (funext fun entries => ?_)
    rw [Function.comp_apply, List.map_map]
    exact List.map_congr_left fun entry _ => x.infoOf_retargeted identities entry
  · rw [h.outcome_dependencies hplain hs hx, h.outcome_dependencies hplain ht hy]
    exact image.dependencies plain plain hx
  · rw [h.outcome_digest hplain hs hx, h.outcome_digest hplain ht hy]
    cases type with
    | b4 => exact (resembles x).digest_b4 plain
    | b5 =>
      have covers := coversImage_of_twins sound hs ht (fun y => (resembles y).isLocal.symm)
        (fun y _ => (resembles y).areTwins) modules
      exact image.digest_b5 plain plain covers hx

end Session

open ModuleSet

/-- In a session without NUL characters in paths, giving a set other targets fails with the first
identity that is unknown, and otherwise gives a set of the same modules. Of these the targets are those
of the given identities, and everything else that is told of a module, then and later, is as in the first
set, which itself keeps all its answers. Giving targets to a set that came of another by giving targets
is giving them to that other set. -/
theorem Session.Reachable.retarget_keeps_answers {loads : Nat → Except Error Digest} {σ : Session}
    {s : ModuleSet} (h : Session.Reachable loads σ) (hplain : ∀ u ∈ σ.sets, u.HasPlainPaths σ.disk)
    (hs : s ∈ σ.sets) :
    (∀ identities : List String,
      (∀ before identity after, identities = before ++ identity :: after →
        (∀ known ∈ before, known ∈ s.identities) → identity ∉ s.identities →
          σ.outcome (Session.retarget s identities) = .error (.unknownModule identity)) ∧
      ((∀ identity ∈ identities, identity ∈ s.identities) →
        ∃ t, σ.outcome (Session.retarget s identities) = .ok t ∧
          t ∈ (σ.after (Session.retarget s identities)).sets ∧
          ∀ σ', Session.Reaches loads (σ.after (Session.retarget s identities)) σ' →
            (∀ u ∈ σ'.sets, u.HasPlainPaths σ'.disk) →
            List.Forall₂ (σ'.IsRetargeted s t identities) s.modules t.modules) ∧
      ∀ u : ModuleSet, u.CameOf s → Session.retarget u identities = Session.retarget s identities) ∧
    ∀ σ', Session.Reaches loads σ σ' → ∀ op : Operation, op.IsOn s →
      σ'.outcome (op.run s Session.access) = σ.outcome (op.run s Session.access) := by
  refine ⟨fun identities => ⟨?_, fun known => ?_, fun u came => ?_⟩, fun σ' later op hop => ?_⟩
  · rintro before identity after rfl known unknown
    exact Session.retarget_of_error (retarget_append_cons known unknown)
  · obtain ⟨t, came⟩ : Succeeds (s.retarget σ.sets.length identities) := succeeds_retarget known
    obtain ⟨outcome, after⟩ := Session.retarget_of_ok came
    have mem : t ∈ (σ.after (Session.retarget s identities)).sets :=
      after ▸ List.mem_append_right _ (List.mem_singleton.2 rfl)
    refine ⟨t, outcome, mem, fun σ' later hplain' => ?_⟩
    have step : Session.Reaches loads σ (σ.after (Session.retarget s identities)) :=
      .single (.retarget σ hs identities)
    have hs' := later.before.sets.subset (step.before.sets.subset hs)
    have ht' := later.before.sets.subset mem
    rw [modules_of_retarget came]
    refine List.forall₂_map_right_iff.2 (List.forall₂_same.2 fun x hx => ?_)
    exact (h.of_reaches (step.trans later)).isRetargeted hplain' hs' ht' came hx
  · exact congrArg Session.addSet (funext fun number => came.retarget_eq number identities)
  · exact h.outcome_run_eq (h.of_reaches later) later.before.disk later.before.sets hplain hs hop

namespace Sample

/-- The sample set with the second module as its one target. -/
def retargetedSet : ModuleSet :=
  ⟨1, parser, [first.withTarget false, second.withTarget true], by decide, by decide⟩

def retargetedSession : Session := session.after (Session.retarget set [second.identity])

theorem retarget_set : set.retarget 1 [second.identity] = .ok retargetedSet := by
  cbv

theorem sets_retargetedSession : retargetedSession.sets = [set, retargetedSet] :=
  congrArg Session.sets (Session.retarget_of_ok retarget_set).2

theorem hasPlainPaths_retargetedSet (disk : Disk) : retargetedSet.HasPlainPaths disk :=
  ModuleSet.hasPlainPaths_of_memory <| List.forall_mem_cons.2 ⟨⟨_, rfl, by decide⟩,
    List.forall_mem_singleton.2 ⟨_, rfl, by decide⟩⟩

theorem hasPlainPaths_retargetedSession :
    ∀ u ∈ retargetedSession.sets, u.HasPlainPaths retargetedSession.disk := by
  rw [sets_retargetedSession]
  exact List.forall_mem_cons.2 ⟨hasPlainPaths_set _,
    List.forall_mem_singleton.2 (hasPlainPaths_retargetedSet _)⟩

end Sample

/-- In the sample, the second module alone becomes a target. The first one keeps its dependency, and the
second its digests. A module that is not there cannot become a target. -/
theorem Sample.dependencies_first_retargeted :
    retargetedSession.outcome
        (retargetedSet.dependencies Session.access (first.withTarget false)) =
      .ok [⟨second.withTarget true, true⟩] ∧
    (∀ type, retargetedSession.outcome
        (retargetedSet.digest Session.access (second.withTarget true) type) =
      retargetedSession.outcome (set.digest Session.access second type)) ∧
    session.outcome (Session.retarget set [second.identity, "absent", "missing"]) =
      .error (.unknownModule "absent") := by
  obtain ⟨retargets, -⟩ := reachable_session.retarget_keeps_answers hasPlainPaths_sets set_mem_sets
  obtain ⟨-, succeeds, -⟩ := retargets [second.identity]
  obtain ⟨t, outcome, -, answers⟩ := succeeds (by decide)
  cases outcome.symm.trans (Session.retarget_of_ok retarget_set).1
  cases answers _ .refl hasPlainPaths_retargetedSession with
  | cons ofFirst rest =>
  cases rest with
  | cons ofSecond _ =>
  have later : Session.Reachable loads retargetedSession :=
    reachable_session.of_reaches (.single (.retarget _ set_mem_sets _))
  have kept : retargetedSession.outcome (set.dependencies Session.access first) =
      .ok [⟨second, true⟩] := by
    rw [later.outcome_dependencies hasPlainPaths_retargetedSession
      (sets_retargetedSession ▸ List.mem_cons_self) (mem_modules_set.2 (.inl rfl))]
    exact dependencies_first_direct _ _
  refine ⟨ofFirst.dependencies.trans ?_, ofSecond.digest, ?_⟩
  · exact congrArg (List.map (Dependency.image (Module.retargeted [second.identity])) <$> ·) kept
  · refine (retargets _).1 [second.identity] "absent" ["missing"] rfl ?_ ?_ <;> decide

end ProtoWorkspace
