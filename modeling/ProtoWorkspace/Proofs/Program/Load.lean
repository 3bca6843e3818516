import Mathlib.Tactic
import ProtoWorkspace.Proofs.Program.Lock
import ProtoWorkspace.Proofs.Workspace.Text

/-!
# Loading a workspace

A workspace file that can be read has modules with which a set is built: they are local, they have a
directory, and their commits come with names. What can still go wrong is that two of them clash, or
that a path to which the targets of a module are restricted leaves the module, which nothing has
checked before and which counts as a broken rule of the library.
-/

namespace ProtoWorkspace

open Fallible

namespace WorkspaceModule

/-- The paths to which the targets of a module are restricted. -/
def restrictions (x : WorkspaceModule) : List String :=
  x.includes ++ x.excludes

theorem ne_empty_of_bucketId {x : WorkspaceModule} {id : String} (h : x.bucketId = .ok id) :
    id ≠ "" := by
  unfold bucketId at h
  split at h
  · cases h
    decide
  · next place other _ =>
    cases h
    intro empty
    subst empty
    exact other rfl
  · cases h

end WorkspaceModule

/-- The paths to which the targets of the modules are restricted, in the order of the modules. -/
def Workspace.restrictions (w : Workspace) : List String :=
  w.modules.flatMap WorkspaceModule.restrictions

namespace Addition

/-- Whether an addition is the module of a workspace file. -/
structure IsFor (a : Addition) (x : WorkspaceModule) : Prop where
  isLocal : a.isLocal = true
  isTarget : a.isTarget = true
  directory : x.bucketId = .ok a.bucketId
  name : a.name = x.name
  commit : (·.getD .none) <$> x.commitId = .ok a.commit
  restrictions : a.includes ++ a.excludes = x.restrictions
  /-- It declares no dependencies. -/
  keys (disk : Disk) : ¬ Succeeds (a.inputs.declaredKeys.on disk)

theorem IsFor.named {a : Addition} {x : WorkspaceModule} (h : a.IsFor x) (hx : x.IsValid)
    (unnamed : a.name.isNone) : a.commit.isNone := by
  have without : x.commit = none := by
    cases hc : x.commit with
    | none => rfl
    | some text =>
      have := hx.named (by rw [hc]; rfl)
      rw [← h.name, Option.isNone_iff_eq_none.1 unnamed] at this
      cases this
  have commit := h.commit
  rw [WorkspaceModule.commitId, without] at commit
  rw [← Except.ok.inj commit]
  decide

/-- A module of a workspace is refused only for the paths to which its targets are restricted. -/
theorem toModule_agree {a : Addition} {x : WorkspaceModule} (h : a.IsFor x) (hx : x.IsValid)
    (source : Source) :
    Agree (fun _ _ => True) (a.toModule source) (normalizeAll x.restrictions) := by
  have identified : ¬ (a.bucketId = "" ∧ a.name.isNone) :=
    fun no => WorkspaceModule.ne_empty_of_bucketId h.directory no.1
  have notRemote : ¬ (a.isLocal = false ∧ a.name.isNone) := by simp [h.isLocal]
  have named : ¬ (a.name.isNone ∧ a.commit.isNone = false) := by
    intro no
    rw [h.named hx no.1] at no
    cases no.2
  unfold toModule
  rw [dif_neg identified, dif_neg notRemote, dif_neg named, ← h.restrictions]
  have same (paths : List String) : Agree (· = ·) (normalizeAll paths) (normalizeAll paths) :=
    .of_eq (fun _ => rfl) rfl
  have both : normalizeAll (a.includes ++ a.excludes) = do
      let includes ← normalizeAll a.includes
      let excludes ← normalizeAll a.excludes
      return includes ++ excludes := List.mapM_append
  rw [both]
  exact (same _).bind fun _ _ _ => (same _).bind fun _ _ _ => .ok trivial

theorem normalizeAll_eq_error_iff {paths : List String} {e : Error} :
    normalizeAll paths = .error e ↔ ∃ before path after fault, paths = before ++ path :: after ∧
      (∀ p ∈ before, Succeeds (Path.normalize p)) ∧ Path.normalize path = .error fault ∧
      e = .internal fault.message := by
  rw [normalizeAll, mapM_eq_error_iff]
  simp only [mapError_eq_error, succeeds_mapError]
  constructor
  · rintro ⟨before, path, after, split, pass, fault, fails, rfl⟩
    exact ⟨before, path, after, fault, split, pass, fails, rfl⟩
  · rintro ⟨before, path, after, fault, split, pass, fails, rfl⟩
    exact ⟨before, path, after, split, pass, fault, fails, rfl⟩

end Addition

namespace ModuleSet

open Addition

variable {number : Nat} {parser : ImportParser} {additions : List Addition} {w : Workspace}

theorem build_of_isLocal (hl : ∀ a ∈ additions, a.isLocal = true) :
    build number parser additions =
      (placed number additions).mapM (fun p => p.2.toModule p.1) >>= ofModules number parser := by
  have all : mergeAll (placed number additions) = .ok (placed number additions) :=
    mergeAll_of_isLocal fun p hp => hl p.2 (mem_of_mem_placed hp)
  rw [placed] at all
  rw [build, all]
  rfl

theorem toModules_agree (h : List.Forall₂ IsFor additions w.modules)
    (hw : ∀ x ∈ w.modules, x.IsValid) :
    Agree (fun _ _ => True) ((placed number additions).mapM fun p => p.2.toModule p.1)
      (normalizeAll w.restrictions) := by
  have modules : List.Forall₂ (fun p x => IsFor p.2 x) (placed number additions) w.modules := by
    rw [← map_snd_placed number additions, List.forall₂_map_left_iff] at h
    exact h
  have each : List.Forall₂ (fun p x => Agree (fun _ _ => True) (toModule p.2 p.1)
      (normalizeAll x.restrictions)) (placed number additions) w.modules := by
    have valid : List.Forall₂ (fun (_ : Source × Addition) x => x.IsValid)
        (placed number additions) w.modules := by
      rw [List.forall₂_iff_zip] at modules ⊢
      exact ⟨modules.1, fun member => hw _ (List.of_mem_zip member).2⟩
    exact (forall₂_and modules valid).imp fun p x both => toModule_agree both.1 both.2 p.1
  exact (Agree.mapM each).trans (Agree.mapM_flatMap _ _ _) fun _ _ _ _ _ => trivial

/-- A set of the modules of a workspace can fail to be built in two ways. -/
theorem build_cases_of_isFor (h : List.Forall₂ IsFor additions w.modules)
    (hw : ∀ x ∈ w.modules, x.IsValid) :
    (∃ e, normalizeAll w.restrictions = .error e ∧ build number parser additions = .error e) ∨
    Succeeds (normalizeAll w.restrictions) ∧ (Succeeds (build number parser additions) ∨
      ∃ id, build number parser additions = .error (.duplicateModule id) ∨
        build number parser additions = .error (.duplicateBucket id)) := by
  have isLocal : ∀ a ∈ additions, a.isLocal = true := by
    intro a ha
    obtain ⟨x, -, isFor⟩ := exists_of_mem_right h.flip ha
    exact isFor.isLocal
  have agree : Agree (fun _ _ => True) ((placed number additions).mapM fun p => p.2.toModule p.1)
      (normalizeAll w.restrictions) := toModules_agree h hw
  rw [build_of_isLocal isLocal]
  generalize (placed number additions).mapM (fun p => p.2.toModule p.1) = modules at agree ⊢
  generalize normalizeAll w.restrictions = restrictions at agree ⊢
  cases agree with
  | error e => exact .inl ⟨e, rfl, rfl⟩
  | @ok modules _ _ =>
    refine .inr ⟨succeeds_ok _, ?_⟩
    rw [ok_bind]
    cases made : ofModules number parser modules with
    | ok t => exact .inl (succeeds_ok t)
    | error e =>
      rcases ofModules_eq_error made with ⟨id, rfl⟩ | ⟨id, rfl⟩
      · exact .inr ⟨id, .inl rfl⟩
      · exact .inr ⟨id, .inr rfl⟩

end ModuleSet

namespace Commands

open Addition

variable {σ : Session} {root file : String} {w : Workspace}

theorem isValid_of_readWorkspace {disk : Disk} {path : String} (h : readWorkspace disk path = .ok w) :
    ∀ x ∈ w.modules, x.IsValid := by
  obtain ⟨text, -, parsed⟩ := bind_eq_ok.1 h
  obtain ⟨-, -, -, valid⟩ := Workspace.parse_eq_ok_iff.1 parsed
  exact valid

theorem readWorkspace_of_read {disk : Disk} {path text : String}
    (h : disk.read path = .ok text.toUTF8) (hw : Workspace.parse text = .ok w) :
    readWorkspace disk path = .ok w := by
  rw [readWorkspace, readText_of_read h, ok_bind, hw]

theorem exists_additionOf (root : String) {x : WorkspaceModule} (h : x.IsValid) :
    ∃ a, additionOf root x = .ok a ∧ a.IsFor x := by
  obtain ⟨commit, hc⟩ := (x.succeeds_commitId_iff).2 h.commit
  obtain ⟨directory, hd⟩ := h.bucket
  refine ⟨_, bind_eq_ok.2 ⟨commit, hc, bind_eq_ok.2 ⟨directory, hd, rfl⟩⟩, ?_⟩
  exact {
    isLocal := rfl
    isTarget := rfl
    directory := hd
    name := rfl
    commit := by rw [hc]; rfl
    restrictions := rfl
    keys := fun disk => not_succeeds_error _ }

theorem exists_additions (root : String) {modules : List WorkspaceModule}
    (h : ∀ x ∈ modules, x.IsValid) :
    ∃ additions, modules.mapM (additionOf root) = .ok additions ∧
      List.Forall₂ IsFor additions modules := by
  induction modules with
  | nil => exact ⟨[], rfl, .nil⟩
  | cons x modules ih =>
    rw [List.forall_mem_cons] at h
    obtain ⟨a, first, isFor⟩ := exists_additionOf root h.1
    obtain ⟨additions, rest, all⟩ := ih h.2
    refine ⟨a :: additions, ?_, .cons isFor all⟩
    rw [List.mapM_cons, first, ok_bind, rest]
    rfl

/-- When the workspace file has been read, what is left is to build a set with its modules. -/
theorem loadModules_run (h : readWorkspace σ.disk (Path.under root file) = .ok w) :
    ∃ additions record, w.modules.mapM (additionOf root) = .ok additions ∧
      List.Forall₂ IsFor additions w.modules ∧ loadModules root file σ =
        onModules (Session.build .standard additions) (σ.enter (.told record)) := by
  obtain ⟨additions, hadditions, all⟩ := exists_additions root (isValid_of_readWorkspace h)
  let message := "Loaded workspace with " ++ toString w.modules.length ++ " modules"
  let record : Log.Record := ⟨.debug, "protomodule::cli::command_handlers", message⟩
  refine ⟨additions, record, hadditions, all, ?_⟩
  have here : (get : CommandM Session) σ = (.ok σ, σ) := rfl
  have read : onDocument (readWorkspace σ.disk (Path.under root file)) σ = (.ok w, σ) := by
    rw [h]
    rfl
  have tells : tell .debug message σ = (.ok (), σ.enter (.told record)) := rfl
  have added : onDocument (w.modules.mapM (additionOf root)) (σ.enter (.told record)) =
      (.ok additions, σ.enter (.told record)) := by
    rw [hadditions]
    rfl
  rw [loadModules, CommandM.bind_of_ok here, CommandM.bind_of_ok read, CommandM.bind_of_ok tells,
    CommandM.bind_of_ok added]

/-- When the modules of the workspace make a set, this set is loaded. -/
theorem exists_loadModules (h : readWorkspace σ.disk (Path.under root file) = .ok w)
    {additions : List Addition} (hadditions : w.modules.mapM (additionOf root) = .ok additions)
    {s : ModuleSet} (built : ModuleSet.build σ.sets.length .standard additions = .ok s) :
    ∃ σ', loadModules root file σ = (.ok s, σ') := by
  obtain ⟨additions', record, hadditions', -, run⟩ := loadModules_run h
  obtain rfl := Except.ok.inj (hadditions.symm.trans hadditions')
  have outcome := (Session.outcome_build_eq .standard additions (σ.enter (.told record))).trans built
  refine ⟨_, run.trans (Prod.ext ?_ rfl)⟩
  exact congrArg (Except.mapError CommandError.module) outcome

/-- What comes of loading is what comes of building the set. -/
theorem loadModules_cases (h : readWorkspace σ.disk (Path.under root file) = .ok w) :
    (∃ e, normalizeAll w.restrictions = .error e ∧
      (loadModules root file σ).1 = .error (.module e)) ∨
    Succeeds (normalizeAll w.restrictions) ∧ (Succeeds (loadModules root file σ).1 ∨
      ∃ id, (loadModules root file σ).1 = .error (.module (.duplicateModule id)) ∨
        (loadModules root file σ).1 = .error (.module (.duplicateBucket id))) := by
  obtain ⟨additions, record, -, all, run⟩ := loadModules_run h
  have outcome : (loadModules root file σ).1 =
      (ModuleSet.build σ.sets.length .standard additions).mapError .module := by
    rw [run, onModules_run]
    exact congrArg (Except.mapError _) (Session.outcome_build_eq .standard additions _)
  rw [outcome]
  rcases ModuleSet.build_cases_of_isFor all (isValid_of_readWorkspace h) with
    ⟨e, fails, built⟩ | ⟨pass, ⟨t, built⟩ | ⟨id, built | built⟩⟩
  · rw [built]
    exact .inl ⟨e, fails, rfl⟩
  · rw [built]
    exact .inr ⟨pass, .inl ⟨t, rfl⟩⟩
  · rw [built]
    exact .inr ⟨pass, .inr ⟨id, .inl rfl⟩⟩
  · rw [built]
    exact .inr ⟨pass, .inr ⟨id, .inr rfl⟩⟩

/-- Loading a workspace that was read ends with an error that tells of a broken rule exactly when a
path to which the targets of a module are restricted leaves the module, and the first such path is
reported. Otherwise the set is made, or two of its modules clash. -/
theorem loadModules_internal_iff (h : readWorkspace σ.disk (Path.under root file) = .ok w) :
    (∀ message, (loadModules root file σ).1 = .error (.module (.internal message)) ↔
      ∃ before path after fault, w.restrictions = before ++ path :: after ∧
        (∀ p ∈ before, Succeeds (Path.normalize p)) ∧ Path.normalize path = .error fault ∧
        message = fault.message) ∧
    ((∀ path ∈ w.restrictions, Succeeds (Path.normalize path)) →
      Succeeds (loadModules root file σ).1 ∨
      ∃ id, (loadModules root file σ).1 = .error (.module (.duplicateModule id)) ∨
        (loadModules root file σ).1 = .error (.module (.duplicateBucket id))) := by
  have fault (message : String) : normalizeAll w.restrictions = .error (.internal message) ↔
      ∃ before path after fault, w.restrictions = before ++ path :: after ∧
        (∀ p ∈ before, Succeeds (Path.normalize p)) ∧ Path.normalize path = .error fault ∧
        message = fault.message := by
    rw [normalizeAll_eq_error_iff]
    simp only [Error.internal.injEq]
  rcases loadModules_cases h with ⟨e, fails, outcome⟩ | ⟨pass, others⟩
  · refine ⟨fun message => ?_, fun pass => ?_⟩
    · rw [← fault, fails, outcome]
      simp
    · obtain ⟨_, path, _, _, split, -, leaves, -⟩ := normalizeAll_eq_error_iff.1 fails
      have := pass path (by simp [split])
      rw [leaves] at this
      exact absurd this (not_succeeds_error _)
  · refine ⟨fun message => ?_, fun _ => others⟩
    rw [← fault]
    constructor
    · intro internal
      rw [internal] at others
      simp at others
    · intro fails
      rw [fails] at pass
      exact absurd pass (not_succeeds_error _)

end Commands

namespace Sample

/-- A module whose targets are restricted to a path outside of it. -/
def outward : WorkspaceModule where
  path := .ofText "a"
  name := none
  commit := none
  description := none
  includes := ["/x"]
  excludes := []

def outwardText : String :=
  "[[modules]]\npath = \"a\"\nincludes = [\"/x\"]\n"

/-- A session on a disk that only has the workspace file. -/
def outwardSession : Session where
  disk := Disk.putFile {} ["protomodule.toml"] outwardText.toUTF8

theorem parse_outwardText : Workspace.parse outwardText = .ok ⟨[outward]⟩ := by
  cbv

theorem readWorkspace_outward : Commands.readWorkspace outwardSession.disk
    (Path.under "" "protomodule.toml") = .ok ⟨[outward]⟩ :=
  Commands.readWorkspace_of_read rfl parse_outwardText

/-- A workspace file that is accepted, and a module whose restriction is reported as a broken rule. -/
theorem loadModules_outward : Workspace.parse outwardText = .ok ⟨[outward]⟩ ∧
    (Commands.loadModules "" "protomodule.toml" outwardSession).1 =
      .error (.module (.internal "/x is an absolute path")) := by
  refine ⟨parse_outwardText, ?_⟩
  rcases Commands.loadModules_cases readWorkspace_outward with ⟨e, fails, outcome⟩ | ⟨pass, -⟩
  · rw [outcome]
    cases fails
    rfl
  · obtain ⟨_, pass⟩ := pass
    cases pass

/-- The path that leaves the module is the one that is reported. -/
theorem names_outward : Commands.readWorkspace outwardSession.disk
      (Path.under "" "protomodule.toml") = .ok ⟨[outward]⟩ ∧
    (Commands.loadModules "" "protomodule.toml" outwardSession).1 =
      .error (.module (.internal (Path.Fault.absolute "/x").message)) := by
  have internal := (Commands.loadModules_internal_iff readWorkspace_outward).1
  refine ⟨readWorkspace_outward, (internal _).2 ?_⟩
  exact ⟨[], "/x", [], .absolute "/x", rfl, by simp, rfl, rfl⟩

end Sample

end ProtoWorkspace
