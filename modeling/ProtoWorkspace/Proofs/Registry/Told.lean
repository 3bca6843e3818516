import ProtoWorkspace.Proofs.Registry.Publish
import ProtoWorkspace.Proofs.Session.Operations

/-!
# What is stored, as sessions tell it

What a session stores for a module when it publishes it is what it says of the module afterwards,
whichever question is asked first and however often.
-/

namespace ProtoWorkspace

open Fallible Registry

/-- The module with the name of a kept key is the dependency that is pinned to it. -/
theorem Registry.IsSnapshot.pinnedKey_of_name {r : Registry} {s : ModuleSet} {x y : Module}
    {stored : StoredCommit} {io : Access (Except Error)} {disk : Disk} {sets : List ModuleSet}
    (hsnap : r.IsSnapshot s io x stored) (h : io.IsPlain disk sets) (hx : x ∈ s.modules)
    {key : ModuleKey} (hkey : key ∈ stored.dependencies) (hy : y ∈ s.modules)
    (hname : y.name = some key.name) (isDirect : Bool) :
    r.pinnedKey s io ⟨y, isDirect⟩ = .ok key := by
  obtain ⟨ds, hds, keys⟩ := hsnap.dependencies
  obtain ⟨d, hd, hpin⟩ := exists_of_mem_right keys hkey
  have inside := ModuleSet.mem_modules_of_mem_dependencies h hx hds hd
  have same : d.module = y := by
    apply ModuleSet.eq_of_identity inside hy
    rw [Module.identity_of_name (pinnedKey_eq_ok.1 hpin).1, Module.identity_of_name hname]
  rw [pinnedKey_eq_ok] at hpin ⊢
  exact same ▸ hpin

namespace Session

variable {loads : Nat → Except Error Digest} {σ τ : Session} {s : ModuleSet} {x : Module}

/-- Whether what is stored for a module is what a session says of the module, and its dependencies
are kept under the keys to which a registry pins them. -/
structure Tells (σ : Session) (r : Registry) (s : ModuleSet) (x : Module)
    (stored : StoredCommit) : Prop where
  name : x.name = some stored.name
  files : ∃ files, σ.outcome (x.contents access) = .ok files ∧
    stored.files = FileTable.ofList files
  dependencies : ∃ ds, σ.outcome (s.dependencies access x) = .ok ds ∧
    List.Forall₂ (fun d key => d.module.name = some key.name ∧
      ∃ digest, σ.outcome (s.digest access d.module .b5) = .ok digest ∧
        key.origin = .known digest ∧ r.pin d.module key.name digest = .ok key.commit)
      ds stored.dependencies
  yaml : σ.outcome (x.yaml access) = .ok stored.yaml
  lock : σ.outcome (x.lock access) = .ok stored.lock
  digest (type : DigestType) : σ.outcome (s.digest access x type) = .ok (stored.digest type)

/-- A session tells what is a snapshot in the worlds of all later sessions. -/
theorem Reachable.tells (h : Reachable loads σ) (hs : s ∈ σ.sets) (hx : x ∈ s.modules)
    {r : Registry} {stored : StoredCommit}
    (hsnap : ∀ τ, Reaches loads σ τ → r.IsSnapshot s (τ.world loads).io x stored) :
    σ.Tells r s x stored := by
  -- the world after an operation, in which the operation has the outcome that it has in the session
  have world : ∀ op : Operation, op.IsOn s → ∃ io : Access (Except Error),
      (∃ disk sets, io.IsPlain disk sets) ∧ r.IsSnapshot s io x stored ∧
        σ.outcome (op.run s access) = op.run s io := by
    intro op hop
    have reaches : Reaches loads σ (σ.after (op.run s access)) := reaches_after hs hop
    have fits := (h.of_reaches reaches).fits_world
    exact ⟨_, ⟨_, _, fits.sound.plain⟩, hsnap _ reaches, h.outcome_run_of_fits hs hop fits⟩
  constructor
  · exact (hsnap σ .refl).name
  · obtain ⟨io, -, snapshot, outcome⟩ := world (.contents x) hx
    obtain ⟨files, hfiles, table⟩ := snapshot.files
    exact ⟨files, outcome.trans hfiles, table⟩
  · obtain ⟨io, ⟨disk, sets, plain⟩, snapshot, outcome⟩ := world (.dependencies x) hx
    obtain ⟨ds, hds, keys⟩ := snapshot.dependencies
    rw [List.forall₂_iff_zip] at keys
    refine ⟨ds, outcome.trans hds, List.forall₂_iff_zip.2 ⟨keys.1, fun {d key} member => ?_⟩⟩
    obtain ⟨hd, hkey⟩ := List.of_mem_zip member
    have inside := ModuleSet.mem_modules_of_mem_dependencies plain hx hds hd
    have hname := (pinnedKey_eq_ok.1 (keys.2 member)).1
    obtain ⟨io, ⟨disk, sets, plain⟩, snapshot, outcome⟩ := world (.digest d.module .b5) inside
    have pinned := snapshot.pinnedKey_of_name plain hx hkey inside hname d.isDirect
    obtain ⟨-, digest, hdigest, hpin, horigin⟩ := pinnedKey_eq_ok.1 pinned
    exact ⟨hname, digest, outcome.trans hdigest, horigin, hpin⟩
  · obtain ⟨io, -, snapshot, outcome⟩ := world (.yaml x) hx
    exact outcome.trans snapshot.yaml
  · obtain ⟨io, -, snapshot, outcome⟩ := world (.lock x) hx
    exact outcome.trans snapshot.lock
  · intro type
    obtain ⟨io, -, snapshot, outcome⟩ := world (.digest x type) hx
    exact outcome.trans (snapshot.digest_published type)

end Session

end ProtoWorkspace
