import ProtoWorkspace.Proofs.Path
import ProtoWorkspace.Proofs.Program.Commits

/-!
# One module in each place

The directory of a module of a workspace is identified by the place that its path leads to, however the
path is spelt. Hence a workspace that lists one place twice is not loaded, and of one that is loaded each
module is in a place of its own.
-/

namespace ProtoWorkspace

open Fallible

namespace WorkspaceModule

variable {x y : WorkspaceModule} {id : String} {place place' : List String}

/-- What identifies the directory at a place under the root. -/
def directoryAt (place : List String) : String :=
  if place = [] then "." else Path.join place

theorem directoryAt_inj (h : ∀ name ∈ place, Path.IsName name)
    (h' : ∀ name ∈ place', Path.IsName name) :
    directoryAt place = directoryAt place' ↔ place = place' := by
  -- no name is a dot, so that the root is told from all that is below it
  have below {names : List String} (valid : ∀ name ∈ names, Path.IsName name) (some : names ≠ []) :
      Path.join names ≠ "." := by
    intro dot
    have found := Path.components_join some valid
    rw [dot] at found
    exact (valid "." (found ▸ List.mem_singleton.2 rfl)).ne_dot rfl
  unfold directoryAt
  split
  · next root =>
    subst root
    split
    · next root' => simp [root']
    · next some' => exact iff_of_false (below h' some').symm (Ne.symm some')
  · next some =>
    split
    · next root' =>
      subst root'
      exact iff_of_false (below h some) some
    · exact Path.join_inj h h'

theorem bucketId_of_leadsTo (relative : Path.isAbsolute x.path.shown = false)
    (leads : Path.LeadsTo x.path.shown place) : x.bucketId = .ok (directoryAt place) := by
  have named := Path.normalize_join_parts.2 (Path.normalize_eq_ok.2 ⟨relative, place, leads, rfl⟩)
  rw [bucketId, named, directoryAt]
  by_cases root : place = []
  · rw [if_pos root, root]
    rfl
  · rw [if_neg root]
    split
    · next empty =>
      have none : ∀ name ∈ ([] : List String), Path.IsName name := List.forall_mem_nil _
      have same := (Path.join_inj leads.isName none).1 (Except.ok.inj empty)
      exact absurd same root
    · next text _ same => exact congrArg Except.ok (Except.ok.inj same).symm
    · next fails => cases fails

/-- A module is identified by the place that its path leads to. -/
theorem bucketId_eq_ok : x.bucketId = .ok id ↔
    Path.isAbsolute x.path.shown = false ∧ ∃ place, Path.LeadsTo x.path.shown place ∧ id = directoryAt place := by
  constructor
  · intro h
    obtain ⟨text, named⟩ : Succeeds (Path.normalize (Path.join (Path.parts x.path.shown))) := by
      by_contra fails
      obtain ⟨fault, failed⟩ := exists_error_of_not_succeeds fails
      rw [bucketId, failed] at h
      cases h
    obtain ⟨relative, place, leads, -⟩ := Path.normalize_eq_ok.1 (Path.normalize_join_parts.1 named)
    exact ⟨relative, place, leads, Except.ok.inj (h.symm.trans (bucketId_of_leadsTo relative leads))⟩
  · rintro ⟨relative, place, leads, rfl⟩
    exact bucketId_of_leadsTo relative leads

/-- Two modules have one directory exactly when their paths lead to one place. -/
theorem bucketId_eq_iff (hx : x.IsValid) (hy : y.IsValid) :
    x.bucketId = y.bucketId ↔ Path.SamePlace x.path.shown y.path.shown := by
  obtain ⟨id, hid⟩ := hx.bucket
  obtain ⟨id', hid'⟩ := hy.bucket
  obtain ⟨-, place, leads, rfl⟩ := bucketId_eq_ok.1 hid
  obtain ⟨-, place', leads', rfl⟩ := bucketId_eq_ok.1 hid'
  rw [hid, hid', Except.ok.injEq, directoryAt_inj leads.isName leads'.isName]
  constructor
  · rintro rfl
    exact ⟨place, leads, leads'⟩
  · rintro ⟨both, there, there'⟩
    exact (leads.unique there).trans (there'.unique leads')

end WorkspaceModule

namespace Path.SamePlace

theorem symm {path path' : String} (h : SamePlace path path') : SamePlace path' path := by
  obtain ⟨place, leads, leads'⟩ := h
  exact ⟨place, leads', leads⟩

end Path.SamePlace

namespace Workspace

open Commands

/-- The modules of a loaded set are in different places. -/
theorem pairwise_of_becomes {w : Workspace} (valid : ∀ x ∈ w.modules, x.IsValid) {s : ModuleSet}
    (all : List.Forall₂ WorkspaceModule.Becomes w.modules s.modules) :
    w.modules.Pairwise fun x y => ¬ Path.SamePlace x.path.shown y.path.shown := by
  have directories : w.modules.map WorkspaceModule.bucketId =
      (s.modules.map Module.bucketId).map Except.ok := by
    rw [List.map_map]
    exact map_eq_map_of_forall₂ (all.imp fun x m becomes => becomes.directory)
  have somewhere : ∀ id ∈ s.modules.map Module.bucketId, id ≠ "" := by
    intro id hid
    obtain ⟨m, hm, rfl⟩ := List.mem_map.1 hid
    obtain ⟨x, -, becomes⟩ := exists_of_mem_right all hm
    exact WorkspaceModule.ne_empty_of_bucketId becomes.directory
  have distinct := s.nodup_bucketId
  rw [List.filter_eq_self.2 (by simpa using somewhere)] at distinct
  have different : (w.modules.map WorkspaceModule.bucketId).Nodup :=
    directories ▸ distinct.map fun _ _ => Except.ok.inj
  refine (List.pairwise_map.1 different).imp_of_mem fun hx hy other same => other ?_
  exact (WorkspaceModule.bucketId_eq_iff (valid _ hx) (valid _ hy)).2 same

/-- The modules of a workspace file that is accepted are identified by the places that their paths lead
to. From a disk with the file the workspace is not loaded if two of its modules are in one place. If it
is loaded, then the set has one local target for each module of the file, in the order of the file, all
in different places. -/
theorem places_of_parse {text : String} {w : Workspace} (parsed : Workspace.parse text = .ok w) :
    (∀ x ∈ w.modules, ∃ place, Path.LeadsTo x.path.shown place ∧
      x.bucketId = .ok (WorkspaceModule.directoryAt place)) ∧
    (∀ x ∈ w.modules, ∀ y ∈ w.modules,
      x.bucketId = y.bucketId ↔ Path.SamePlace x.path.shown y.path.shown) ∧
    ∀ (σ : Session) (root file : String), σ.disk.read (Path.under root file) = .ok text.toUTF8 →
      (∀ (i j : Nat) (x y : WorkspaceModule), i ≠ j → w.modules[i]? = some x →
        w.modules[j]? = some y → Path.SamePlace x.path.shown y.path.shown → ¬ Succeeds (loadModules root file σ).1) ∧
      ∀ s, (loadModules root file σ).1 = .ok s →
        List.Forall₂ WorkspaceModule.Becomes w.modules s.modules ∧
        w.modules.Pairwise fun x y => ¬ Path.SamePlace x.path.shown y.path.shown := by
  have valid : ∀ x ∈ w.modules, x.IsValid := by
    obtain ⟨-, -, -, valid⟩ := Workspace.parse_eq_ok_iff.1 parsed
    exact valid
  refine ⟨fun x hx => ?_, fun x hx y hy => ?_, fun σ root file read => ?_⟩
  · obtain ⟨id, named⟩ := (valid x hx).bucket
    obtain ⟨-, place, leads, rfl⟩ := WorkspaceModule.bucketId_eq_ok.1 named
    exact ⟨place, leads, named⟩
  · exact WorkspaceModule.bucketId_eq_iff (valid x hx) (valid y hy)
  · have loads (s : ModuleSet) (h : (loadModules root file σ).1 = .ok s) :
        List.Forall₂ WorkspaceModule.Becomes w.modules s.modules :=
      (loadModules_eq_ok (fun _ => .error (.internal "")) (readWorkspace_of_read read parsed)
        (Prod.ext h rfl)).2.2
    refine ⟨?_, fun s h => ⟨loads s h, pairwise_of_becomes valid (loads s h)⟩⟩
    rintro i j x y different hx hy same ⟨s, h⟩
    have apart := List.pairwise_iff_getElem.1 (pairwise_of_becomes valid (loads s h))
    obtain ⟨hi, rfl⟩ := List.getElem?_eq_some_iff.1 hx
    obtain ⟨hj, rfl⟩ := List.getElem?_eq_some_iff.1 hy
    rcases Nat.lt_or_gt_of_ne different with before | after
    · exact apart i j hi hj before same
    · exact apart j i hj hi after same.symm

end Workspace

namespace Sample

/-- A module of which the file gives the path, and perhaps a name. -/
def placed (path : String) (name : Option FullName) : WorkspaceModule :=
  ⟨.ofText path, name, none, none, [], []⟩

/-- A workspace with two modules, the second one in the directory `a`. -/
def paired (path : String) : Workspace :=
  ⟨[placed path none, placed "./b//../a" (some (fullName "a" isValid_a))]⟩

/-- A session on a disk that only has the workspace file. -/
def pairedSession (path : String) : Session where
  disk := Disk.putFile {} ["protomodule.toml"] (paired path).layout.toUTF8

def placedAddition (path bucketId : String) (name : Option FullName) : Addition :=
  .ofLocal (Bucket.folder path) bucketId {
    name := name
    isTarget := true
    yaml := Commands.objectOf path "buf.yaml"
    lock := Commands.objectOf path "buf.lock" }

theorem leadsTo_a : Path.LeadsTo "a" ["a"] :=
  Path.walk_eq_some.1 (by cbv)

theorem leadsTo_b : Path.LeadsTo "b" ["b"] :=
  Path.walk_eq_some.1 (by cbv)

theorem leadsTo_a_around : Path.LeadsTo "./b//../a" ["a"] :=
  Path.walk_eq_some.1 (by cbv)

section Placed

variable {path : String} {name : Option FullName} {place : List String}
  (relative : Path.isAbsolute path = false) (leads : Path.LeadsTo path place)

include relative leads

theorem bucketId_placed : (placed path name).bucketId = .ok (WorkspaceModule.directoryAt place) := by
  rw [← SystemPath.shown_ofText path] at relative leads
  exact WorkspaceModule.bucketId_of_leadsTo relative leads

theorem additionOf_placed : Commands.additionOf "" (placed path name) =
    .ok (placedAddition path (WorkspaceModule.directoryAt place) name) := by
  have commit : (placed path name).commitId = .ok none := rfl
  have folder : Path.under "" (placed path name).path.shown = path := by
    rw [placed, SystemPath.shown_ofText, Path.under, relative]
    exact String.empty_append
  rw [Commands.additionOf, commit, ok_bind, bucketId_placed relative leads, ok_bind, folder]
  rfl

theorem parse_paired : Workspace.parse (paired path).layout = .ok (paired path) := by
  have texts : ∀ m ∈ (paired path).modules, m.path.IsText :=
    List.forall_mem_cons.2 ⟨SystemPath.isText_ofText path,
      List.forall_mem_singleton.2 (SystemPath.isText_ofText _)⟩
  refine (Workspace.parse_layout_iff texts).2 (List.forall_mem_cons.2 ⟨⟨?_, nofun, nofun⟩,
    List.forall_mem_singleton.2 ⟨?_, nofun, nofun⟩⟩)
  · exact ⟨_, bucketId_placed relative leads⟩
  · exact ⟨_, bucketId_placed (by cbv) leadsTo_a_around⟩

end Placed

theorem exists_loadModules_paired : ∃ s σ,
    Commands.loadModules "" "protomodule.toml" (pairedSession "b") = (.ok s, σ) ∧
      s.modules.map Module.bucketId = ["b", "a"] := by
  let first := placedAddition "b" "b" none
  let second := placedAddition "./b//../a" "a" (some (fullName "a" isValid_a))
  have additions : (paired "b").modules.mapM (Commands.additionOf "") = .ok [first, second] :=
    mapM_eq_ok.2 (.cons (additionOf_placed (by cbv) leadsTo_b)
      (.cons (additionOf_placed (by cbv) leadsTo_a_around) .nil))
  obtain ⟨s, built, places⟩ : ∃ s, ModuleSet.build 0 .standard [first, second] = .ok s ∧
      s.modules.map Module.bucketId = ["b", "a"] := ⟨_, rfl, rfl⟩
  have read : Commands.readWorkspace (pairedSession "b").disk (Path.under "" "protomodule.toml") =
      .ok (paired "b") :=
    Commands.readWorkspace_of_read rfl (parse_paired (by cbv) leadsTo_b)
  obtain ⟨σ, loaded⟩ := Commands.exists_loadModules read additions built
  exact ⟨s, σ, loaded, places⟩

end Sample

/-- Two modules in different directories are loaded in their order. When they are in one directory, in two
spellings, the workspace is accepted as well, but not loaded; that one of them has a name does not help. -/
theorem Sample.loads_apart_not_twice :
    (Workspace.parse (paired "b").layout = .ok (paired "b") ∧
      ∃ s, (Commands.loadModules "" "protomodule.toml" (pairedSession "b")).1 = .ok s ∧
        s.modules.map Module.bucketId = ["b", "a"] ∧
        List.Forall₂ WorkspaceModule.Becomes (paired "b").modules s.modules) ∧
    Workspace.parse (paired "a").layout = .ok (paired "a") ∧
      ¬ Succeeds (Commands.loadModules "" "protomodule.toml" (pairedSession "a")).1 := by
  have apart := parse_paired (by cbv) leadsTo_b
  have twice := parse_paired (by cbv) leadsTo_a
  refine ⟨⟨apart, ?_⟩, twice, ?_⟩
  · obtain ⟨s, σ, loaded, places⟩ := exists_loadModules_paired
    have outcome := congrArg Prod.fst loaded
    obtain ⟨-, -, loads⟩ := Workspace.places_of_parse apart
    exact ⟨s, outcome, places, ((loads (pairedSession "b") "" "protomodule.toml" rfl).2 s outcome).1⟩
  · have same : Path.SamePlace (placed "a" none).path.shown
        (placed "./b//../a" (some (fullName "a" isValid_a))).path.shown := by
      rw [placed, placed, SystemPath.shown_ofText, SystemPath.shown_ofText]
      exact ⟨["a"], leadsTo_a, leadsTo_a_around⟩
    obtain ⟨-, -, loads⟩ := Workspace.places_of_parse twice
    exact (loads (pairedSession "a") "" "protomodule.toml" rfl).1 0 1 _ _ Nat.zero_ne_one rfl rfl same

end ProtoWorkspace
