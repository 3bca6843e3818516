import Mathlib.Tactic
import ProtoWorkspace.Proofs.Disk.Tree
import ProtoWorkspace.Proofs.Program.Load

/-!
# Declared commits and the lock file

The modules of a loaded set stand for those of the workspace file, one by one. The lock file lists
those that declare a commit, at this commit, except for one: the identifier with all digits zero is
accepted as a commit, but in a module it stands for none, and then the module is not listed.
-/

namespace ProtoWorkspace

open Fallible

namespace WorkspaceModule

variable {x : WorkspaceModule} {m : Module} {commit : CommitId}

/-- Whether a module is declared at a commit, in whatever spelling. -/
def Declares (x : WorkspaceModule) (commit : CommitId) : Prop :=
  ∃ text, x.commit = some text ∧ CommitId.parse? text = some commit

/-- Whether a module of a set stands for one of a workspace file. -/
structure Becomes (x : WorkspaceModule) (m : Module) : Prop where
  directory : x.bucketId = .ok m.bucketId
  name : m.name = x.name
  commit : (·.getD .none) <$> x.commitId = .ok m.commit
  isLocal : m.isLocal = true
  isTarget : m.isTarget = true

theorem becomes_of_makes {a : Addition} (h : a.IsFor x) (hm : a.Makes m) : x.Becomes m where
  directory := hm.bucketId ▸ h.directory
  name := hm.name.trans h.name
  commit := hm.commit ▸ h.commit
  isLocal := hm.isLocal.trans h.isLocal
  isTarget := hm.isTarget.trans h.isTarget

theorem Becomes.commit_eq (h : x.Becomes m) (hc : x.Declares commit) : m.commit = commit := by
  obtain ⟨text, declared, parsed⟩ := hc
  have commit := h.commit
  rw [commitId, declared] at commit
  dsimp only at commit
  rw [parsed] at commit
  exact (Except.ok.inj commit).symm

theorem Becomes.declares (h : x.Becomes m) (hc : m.commit.isNone = false) : x.Declares m.commit := by
  have commit := h.commit
  unfold commitId at commit
  split at commit
  · rw [← Except.ok.inj commit] at hc
    cases hc
  · next text declared =>
    cases parsed : CommitId.parse? text with
    | none =>
      rw [parsed] at commit
      cases commit
    | some c =>
      rw [parsed] at commit
      exact ⟨text, declared, parsed.trans (congrArg some (Except.ok.inj commit))⟩

theorem IsValid.exists_declares (h : x.IsValid) (hc : x.commit.isSome) : ∃ c, x.Declares c := by
  obtain ⟨text, declared⟩ := Option.isSome_iff_exists.1 hc
  obtain ⟨c, parsed⟩ := Option.isSome_iff_exists.1 (h.commit text declared)
  exact ⟨c, text, declared, parsed⟩

end WorkspaceModule

namespace Commands

variable {loads : Nat → Except Error Digest} {σ σ₁ σ₂ σ₃ : Session} {root file path : String}
  {w : Workspace} {s : ModuleSet} {type : DigestType} {isLocked : Bool}

/-- A set that was loaded is one of the sets of the session, with a module for each one of the
workspace file. -/
theorem loadModules_eq_ok (loads : Nat → Except Error Digest)
    (hw : readWorkspace σ.disk (Path.under root file) = .ok w)
    (h : loadModules root file σ = (.ok s, σ₁)) :
    Session.Reaches loads σ σ₁ ∧ s ∈ σ₁.sets ∧
      List.Forall₂ WorkspaceModule.Becomes w.modules s.modules := by
  obtain ⟨additions, record, -, all, run⟩ := loadModules_run hw
  have isFor : ∀ a ∈ additions, ∃ x, a.IsFor x := by
    intro a ha
    obtain ⟨x, -, isFor⟩ := exists_of_mem_right all.flip ha
    exact ⟨x, isFor⟩
  rw [run, onModules_run] at h
  obtain ⟨outcome, after⟩ := Prod.mk.inj h
  rcases Session.build_cases .standard additions (σ.enter (.told record)) with
    ⟨t, built, succeeds, -⟩ | ⟨e, -, fails, -⟩
  · rw [show (Session.build .standard additions (σ.enter (.told record))).1 = .ok t from succeeds]
      at outcome
    cases outcome
    subst after
    refine ⟨?_, (Session.outcome_build built).2, ?_⟩
    · refine .tail (.single (.tell σ record)) (.build _ .standard additions ?_)
      intro a ha keys given
      obtain ⟨x, isFor⟩ := isFor a ha
      exact absurd ⟨keys, given⟩ (isFor.keys _)
    · have made := ModuleSet.makes_of_build_isLocal built fun a ha =>
        (isFor a ha).elim fun _ isFor => isFor.isLocal
      refine forall₂_of_common all made ?_
      intro a _ x _ m isFor makes
      exact WorkspaceModule.becomes_of_makes isFor makes
  · rw [show (Session.build .standard additions (σ.enter (.told record))).1 = .error e from fails]
      at outcome
    cases outcome

variable {l : LockFile} {digestOf : Module → Except Error Digest}

/-- The records of a loaded set are those of the declared commits other than the one that stands for
none. -/
theorem mem_iff_declares (all : List.Forall₂ WorkspaceModule.Becomes w.modules s.modules)
    (records : l.Records s digestOf) (r : LockedModule) :
    r ∈ l.modules ↔ ∃ x ∈ w.modules, ∃ m ∈ s.modules, x.Becomes m ∧ x.name = some r.name ∧
      ∃ commit, x.Declares commit ∧ commit.isNone = false ∧ r.commit = commit.plain ∧
        digestOf m = .ok r.digest := by
  rw [records.mem_iff]
  constructor
  · rintro ⟨m, hm, name, hc, commit, digest⟩
    obtain ⟨x, hx, becomes⟩ := exists_of_mem_right all hm
    exact ⟨x, hx, m, hm, becomes, becomes.name ▸ name, m.commit, becomes.declares hc, hc, commit,
      digest⟩
  · rintro ⟨x, hx, m, hm, becomes, name, c, declares, hc, commit, digest⟩
    rw [← becomes.commit_eq declares] at hc commit
    exact ⟨m, hm, becomes.name.trans name, hc, commit, digest⟩

/-- A module at the commit that stands for none is not listed. -/
theorem not_listed_of_declares_none
    (all : List.Forall₂ WorkspaceModule.Becomes w.modules s.modules) (records : l.Records s digestOf)
    {x : WorkspaceModule} (hx : x ∈ w.modules) (declares : x.Declares .none) {r : LockedModule}
    (hr : r ∈ l.modules) : x.name ≠ some r.name := by
  intro name
  obtain ⟨m', hm', name', hc, -⟩ := (records.mem_iff r).1 hr
  obtain ⟨m, hm, becomes⟩ := exists_of_mem_right all.flip hx
  have same : m = m' := by
    apply ModuleSet.eq_of_identity hm hm'
    rw [Module.identity_of_name (becomes.name.trans name), Module.identity_of_name name']
  rw [← same, becomes.commit_eq declares] at hc
  cases hc

theorem all_listed_iff (all : List.Forall₂ WorkspaceModule.Becomes w.modules s.modules)
    (valid : ∀ x ∈ w.modules, x.IsValid) (records : l.Records s digestOf) :
    (∀ x ∈ w.modules, x.commit.isSome → ∃ r ∈ l.modules, x.name = some r.name) ↔
      ∀ x ∈ w.modules, ¬ x.Declares .none := by
  constructor
  · intro complete x hx declares
    obtain ⟨text, declared, -⟩ := id declares
    obtain ⟨r, hr, name⟩ := complete x hx (declared ▸ rfl)
    exact not_listed_of_declares_none all records hx declares hr name
  · intro proper x hx hc
    obtain ⟨c, declares⟩ := (valid x hx).exists_declares hc
    obtain ⟨name, named⟩ := Option.isSome_iff_exists.1 ((valid x hx).named hc)
    obtain ⟨m, hm, becomes⟩ := exists_of_mem_right all.flip hx
    have some : m.commit.isNone = false := by
      apply Bool.eq_false_of_not_eq_true
      intro none
      rw [becomes.commit_eq declares] at none
      rw [eq_of_beq none] at declares
      exact proper x hx declares
    obtain ⟨d, digest⟩ :=
      records.digested m (ModuleSet.mem_pinned_iff.2 ⟨hm, ⟨name, becomes.name.trans named⟩, some⟩)
    refine ⟨⟨name, m.commit.plain, d⟩, ?_, named⟩
    exact (records.mem_iff _).2 ⟨m, hm, becomes.name.trans named, some, rfl, digest⟩

/-- When a workspace was loaded and the digests that are asked for can be had, the lock command goes on
with a lock file that has, sorted by name, exactly one record for each module that declares a commit
other than the one that stands for none: with the name of the module, its commit in plain digits and
its digest. So all declared commits are listed if and only if none of them is that one. -/
theorem lock_of_loadModules (hσ : σ.Reachable loads)
    (hw : readWorkspace σ.disk (Path.under root file) = .ok w)
    (hload : loadModules root file σ = (.ok s, σ₁)) (hkept : σ₁.KeptBy σ₂)
    {result : Except CommandError (LockFile × Bool)}
    (hlock : lock s type path isLocked σ₂ = (result, σ₃))
    (hdigest : ∀ m ∈ s.pinned, Succeeds (σ₃.digestOf s type m)) :
    List.Forall₂ WorkspaceModule.Becomes w.modules s.modules ∧
    ∃ l : LockFile, Settles l σ₂.disk path isLocked result σ₃.disk ∧
      l.modules.Pairwise (fun a b => a.name.text < b.name.text) ∧
      (∀ r, r ∈ l.modules ↔ ∃ x ∈ w.modules, ∃ m ∈ s.modules, x.Becomes m ∧ x.name = some r.name ∧
        ∃ commit, x.Declares commit ∧ commit.isNone = false ∧ r.commit = commit.plain ∧
          σ₃.digestOf s type m = .ok r.digest) ∧
      ((∀ x ∈ w.modules, x.commit.isSome → ∃ r ∈ l.modules, x.name = some r.name) ↔
        ∀ x ∈ w.modules, ¬ x.Declares .none) := by
  obtain ⟨reaches, made, all⟩ := loadModules_eq_ok loads hw hload
  have has := ((hσ.of_reaches reaches).has made).of_keptBy hkept
  rcases lock_cases has hlock with ⟨-, -, m, hm, fails⟩ | ⟨l, records, settles, -⟩
  · exact absurd (hdigest m hm) fails
  · exact ⟨all, l, settles, records.sorted, mem_iff_declares all records,
      all_listed_iff all (isValid_of_readWorkspace hw) records⟩

end Commands

namespace Sample

/-! A workspace file with one module, which is declared at a commit. -/

def declared (commit : CommitId) : WorkspaceModule where
  path := .ofText "a"
  name := some sharedName
  commit := some commit.plain
  description := none
  includes := []
  excludes := []

def declaredAddition (commit : CommitId) : Addition :=
  .ofLocal (Bucket.folder "a") "a" {
    name := some sharedName
    commit := some commit
    isTarget := true
    yaml := Commands.objectOf "a" "buf.yaml"
    lock := Commands.objectOf "a" "buf.lock" }

def declaredModule (commit : CommitId) : Module where
  source := ⟨0, 0⟩
  bucketId := "a"
  description := sharedName.text
  name := some sharedName
  commit := commit
  isTarget := true
  isLocal := true
  includes := []
  excludes := []
  inputs := (declaredAddition commit).inputs
  identified := .inr rfl
  named_of_remote := nofun
  named_of_commit := fun _ => rfl

def declaredSet (commit : CommitId) : ModuleSet :=
  ⟨0, .standard, [declaredModule commit], by simp, by simp [declaredModule]⟩

/-- The disk with the files of the module and a workspace file. -/
def declaredDisk (data : ByteArray) : Disk :=
  (Disk.addFile {} ["a", "a.proto"] ⟨#[]⟩).putFile ["protomodule.toml"] data

def declaredText (commit : CommitId) : String :=
  Workspace.layout ⟨[declared commit]⟩

def declaredStart (commit : CommitId) : Session where
  disk := declaredDisk (declaredText commit).toUTF8

section Declared

variable (commit : CommitId) (data : ByteArray)

theorem bucketId_declared : (declared commit).bucketId = .ok "a" := by
  cbv

theorem commitId_declared : (declared commit).commitId = .ok (some commit) := by
  rw [WorkspaceModule.commitId, declared]
  dsimp only
  rw [CommitId.parse?_plain]

theorem parse_declared : Workspace.parse (declaredText commit) = .ok ⟨[declared commit]⟩ := by
  have texts : ∀ m ∈ [declared commit], m.path.IsText :=
    List.forall_mem_singleton.2 (SystemPath.isText_ofText "a")
  refine (Workspace.parse_layout_iff texts).2 (List.forall_mem_singleton.2 ?_)
  refine ⟨⟨"a", bucketId_declared commit⟩, fun _ => rfl, ?_⟩
  exact (WorkspaceModule.succeeds_commitId_iff _).1 ⟨_, commitId_declared commit⟩

theorem readWorkspace_declared : Commands.readWorkspace (declaredStart commit).disk
    (Path.under "" "protomodule.toml") = .ok ⟨[declared commit]⟩ :=
  Commands.readWorkspace_of_read rfl (parse_declared commit)

theorem additionOf_declared :
    Commands.additionOf "" (declared commit) = .ok (declaredAddition commit) := by
  have folder : Path.under "" (declared commit).path.shown = "a" := by
    cbv
  rw [Commands.additionOf, commitId_declared, ok_bind, bucketId_declared, ok_bind, folder]
  rfl

theorem build_declared :
    ModuleSet.build 0 .standard [declaredAddition commit] = .ok (declaredSet commit) := by
  have made : (declaredAddition commit).toModule ⟨0, 0⟩ = .ok (declaredModule commit) := rfl
  refine bind_eq_ok.2 ⟨[(⟨0, 0⟩, declaredAddition commit)], rfl, ?_⟩
  exact bind_eq_ok.2 ⟨[declaredModule commit], mapM_eq_ok.2 (.cons made .nil), rfl⟩

/-- The session in which the workspace was loaded. -/
theorem exists_loadModules_declared : ∃ σ, Commands.loadModules "" "protomodule.toml"
    (declaredStart commit) = (.ok (declaredSet commit), σ) :=
  Commands.exists_loadModules (readWorkspace_declared commit)
    (mapM_eq_ok.2 (.cons (additionOf_declared commit) .nil)) (build_declared commit)

theorem filesUnder_declared : (declaredDisk data).filesUnder ["a"] = [["a.proto"]] := by
  change [["a.proto"]].mergeSort Disk.isAscending = _
  exact List.mergeSort_singleton _

theorem list_declared : (Bucket.folder "a").list (declaredDisk data) = { paths := ["a.proto"] } := by
  have found : (declaredDisk data).folder? "a" = some ["a"] := rfl
  rw [Bucket.list_folder found, filesUnder_declared]
  rfl

theorem contentsOn_declared :
    (declaredModule commit).contentsOn (declaredDisk data) = .ok [("a.proto", ⟨#[]⟩)] := by
  have index : (declaredModule commit).indexOn (declaredDisk data) = .ok [⟨"a.proto", .proto⟩] := by
    change indexOfListing _ ((Bucket.folder "a").list (declaredDisk data)) = _
    rw [list_declared]
    cbv
  have read : (declaredModule commit).readOn (declaredDisk data) "a.proto" = .ok ⟨#[]⟩ := rfl
  rw [Module.contentsOn, index, ok_bind, List.mapM_cons, read]
  rfl

variable {commit} {σ σ' : Session} {type : DigestType}

theorem reaches_of_loadModules_declared
    (h : Commands.loadModules "" "protomodule.toml" (declaredStart commit) =
      (.ok (declaredSet commit), σ)) :
    Session.Reachable loads σ ∧ declaredSet commit ∈ σ.sets ∧ σ.disk = (declaredStart commit).disk := by
  obtain ⟨reaches, made, -⟩ :=
    Commands.loadModules_eq_ok loads (readWorkspace_declared commit) h
  exact ⟨⟨_, reaches⟩, made, reaches.before.disk⟩

/-- The digest of the module can be had. -/
theorem succeeds_digestOf_declared
    (h : Commands.loadModules "" "protomodule.toml" (declaredStart commit) =
      (.ok (declaredSet commit), σ)) :
    Succeeds (σ.digestOf (declaredSet commit) .b4 (declaredModule commit)) := by
  obtain ⟨reachable, made, disk⟩ := reaches_of_loadModules_declared h
  have member : declaredModule commit ∈ (declaredSet commit).modules := List.mem_singleton.2 rfl
  let asked := (declaredSet commit).digest Session.access (declaredModule commit) .b4
  have fits := (reachable.query (.digest made member .b4)).fits_world
  have same : ((σ.after asked).world loads).disk = (declaredStart commit).disk := by
    have before : σ.Before (σ.after asked) := Cumulative.before σ
    exact before.disk.trans disk
  have plain := fits.sound.plain
  rw [same] at plain
  rw [Session.digestOf, reachable.outcome_digest_world made member .b4]
  have contents := (plain.contents_eq _).trans (contentsOn_declared commit _)
  have yaml := (plain.yaml_eq (declaredModule commit)).trans rfl
  have lock := (plain.lock_eq (declaredModule commit)).trans rfl
  exact ⟨_, (ModuleSet.digest_b4_eq_ok plain).2 ⟨none, none, _, yaml, lock, contents, rfl⟩⟩

/-- Where there is no lock file, one is written. -/
theorem lock_declared (hdisk : σ.disk = (declaredStart commit).disk) {l : LockFile}
    {result : Except CommandError (LockFile × Bool)}
    (h : Commands.Settles l σ.disk "lock" false result σ'.disk) : result = .ok (l, true) := by
  have absent : (declaredStart commit).disk.hasPath "lock" = false := rfl
  have put : (declaredStart commit).disk.write "lock" l.text.toUTF8 =
      .ok ((declaredStart commit).disk.putFile ["lock"] l.text.toUTF8) := rfl
  rw [hdisk] at h
  exact h.eq_of_absent absent put

end Declared

theorem declares_declared (commit : CommitId) : (declared commit).Declares commit :=
  ⟨_, rfl, commit.parse?_plain⟩

/-- A module at a commit is listed at it. -/
theorem lock_shared : ∃ σ₁ σ₂ σ₃ l,
    Commands.loadModules "" "protomodule.toml" (declaredStart (sharedCommit 0)) =
      (.ok (declaredSet (sharedCommit 0)), σ₁) ∧ σ₁.KeptBy σ₂ ∧
    Commands.lock (declaredSet (sharedCommit 0)) .b4 "lock" false σ₂ = (.ok (l, true), σ₃) ∧
    (∀ m ∈ (declaredSet (sharedCommit 0)).pinned,
      Succeeds (σ₃.digestOf (declaredSet (sharedCommit 0)) .b4 m)) ∧
    ∃ r ∈ l.modules, some sharedName = some r.name := by
  let s := declaredSet (sharedCommit 0)
  obtain ⟨σ₁, loaded⟩ := exists_loadModules_declared (sharedCommit 0)
  obtain ⟨reachable, made, disk⟩ := reaches_of_loadModules_declared loaded
  -- the digest has been asked for before, and is kept
  let σ₂ := σ₁.after (s.digest Session.access (declaredModule (sharedCommit 0)) .b4)
  have before : σ₁.Before σ₂ := Cumulative.before σ₁
  obtain ⟨d, digest⟩ := succeeds_digestOf_declared loaded
  have kept := Session.keepsDigest_digest σ₁ s .b4 (declaredModule (sharedCommit 0))
  rcases run : Commands.lock s .b4 "lock" false σ₂ with ⟨result, σ₃⟩
  have digests : ∀ m ∈ s.pinned, Succeeds (σ₃.digestOf s .b4 m) := by
    intro m hm
    obtain rfl := List.mem_singleton.1 (ModuleSet.mem_pinned_iff.1 hm).1
    rw [(kept.of_keptBy (Commands.keptBy_lock run)).digestOf_eq, digest]
    exact succeeds_ok d
  have start : Session.Reachable loads (declaredStart (sharedCommit 0)) := ⟨_, .refl⟩
  obtain ⟨-, l, settles, -, -, complete⟩ := Commands.lock_of_loadModules start
    (readWorkspace_declared (sharedCommit 0)) loaded before.keptBy run digests
  obtain rfl := lock_declared (before.disk.trans disk) settles
  refine ⟨σ₁, σ₂, σ₃, l, loaded, before.keptBy, run, digests, ?_⟩
  refine complete.2 (List.forall_mem_singleton.2 ?_) _ List.mem_cons_self rfl
  rintro ⟨text, ⟨⟩, parsed⟩
  rw [CommitId.parse?_plain] at parsed
  exact absurd (Option.some.inj parsed) (by decide)

/-- A module at the commit that stands for none has a digest, but the lock file is empty. -/
theorem lock_none : Workspace.parse (declaredText .none) = .ok ⟨[declared .none]⟩ ∧
    (declared .none).Declares .none ∧ ∃ s σ₁ σ₂,
    Commands.loadModules "" "protomodule.toml" (declaredStart .none) = (.ok s, σ₁) ∧
    (∀ m ∈ s.modules, Succeeds (σ₁.digestOf s .b4 m)) ∧
    Commands.lock s .b4 "lock" false σ₁ = (.ok (⟨[]⟩, true), σ₂) := by
  obtain ⟨σ₁, loaded⟩ := exists_loadModules_declared .none
  obtain ⟨reachable, made, disk⟩ := reaches_of_loadModules_declared loaded
  refine ⟨parse_declared .none, declares_declared .none, declaredSet .none, σ₁, ?_⟩
  rcases run : Commands.lock (declaredSet .none) .b4 "lock" false σ₁ with ⟨result, σ₂⟩
  refine ⟨σ₂, loaded, List.forall_mem_singleton.2 (succeeds_digestOf_declared loaded), ?_⟩
  have pinned : (declaredSet .none).pinned = [] := by
    decide
  rcases Commands.lock_cases (reachable.has made) run with ⟨-, -, m, hm, -⟩ | ⟨l, records, settles, -⟩
  · rw [pinned] at hm
    cases hm
  · obtain rfl := lock_declared disk settles
    have empty : l.modules = [] := by
      refine List.eq_nil_iff_forall_not_mem.2 fun r hr => ?_
      obtain ⟨m, hm, name, hc, -⟩ := (records.mem_iff r).1 hr
      have listed := ModuleSet.mem_pinned_iff.2 ⟨hm, ⟨_, name⟩, hc⟩
      rw [pinned] at listed
      cases listed
    cases l
    cases empty
    rfl

end Sample

end ProtoWorkspace
