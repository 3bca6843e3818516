import ProtoWorkspace.Proofs.Dependencies.Image
import ProtoWorkspace.Proofs.ModuleDigest.Cycles

/-!
# Digests in sets whose modules are those of another one

Where the counterparts have the same files and remote modules the same digests, the check for cycles and
the search for a digest end in the same way. The induction is on the number of dependencies: once the
check has passed, every local dependency has fewer of them.
-/

namespace ProtoWorkspace.ModuleSet

open Fallible

/-- Whether the digests of counterparts cover the same apart from the dependencies of local modules. -/
structure CoversImage (s t : ModuleSet) (io io' : Access (Except Error)) (f : Module → Module) :
    Prop where
  isLocal (x : Module) : (f x).isLocal = x.isLocal
  contents : ∀ x ∈ s.modules, (f x).contents io' = x.contents io
  remote : ∀ x ∈ s.modules, x.isLocal = false → t.digest io' (f x) .b5 = s.digest io x .b5

namespace IsImage

variable {s t : ModuleSet} {io io' : Access (Except Error)} {f : Module → Module} {x : Module}
variable {disk disk' : Disk} {sets sets' : List ModuleSet}
variable (h : IsImage s t io io' f) (plain : io.IsPlain disk sets) (plain' : io'.IsPlain disk' sets')
variable (covers : CoversImage s t io io' f)

include h plain plain' covers

theorem checkNoCycle {ds : List Dependency} (inSet : ∀ d ∈ ds, d.module ∈ s.modules) :
    t.checkNoCycle io' (f x) (ds.map (Dependency.image f)) = s.checkNoCycle io x ds := by
  induction ds with
  | nil => rfl
  | cons d rest ih =>
    obtain ⟨hd, hrest⟩ := List.forall_mem_cons.1 inSet
    have found : ∀ back : List Dependency,
        (back.map (Dependency.image f)).any (·.module.identity == (f x).identity) =
          back.any (·.module.identity == x.identity) := by
      intro back
      rw [List.any_map, h.identity]
      exact congrArg back.any (funext fun b => congrArg (· == x.identity) (h.identity b.module))
    rw [List.map_cons, ModuleSet.checkNoCycle, ModuleSet.checkNoCycle, ih hrest, Dependency.image,
      covers.isLocal, h.dependencies plain plain' hd, h.description, h.description]
    cases s.dependencies io d.module with
    | error e => rfl
    | ok back => simp only [map_ok, ok_bind, found]

/-- The digest of a counterpart is the digest, or the same failure. -/
theorem digest_b5 (hx : x ∈ s.modules) : t.digest io' (f x) .b5 = s.digest io x .b5 := by
  cases hl : x.isLocal with
  | false => exact covers.remote x hx hl
  | true =>
    cases hds : s.dependencies io x with
    | error e =>
      rw [digest_eq_of_isLocal plain' (h.mem_modules hx) ((covers.isLocal x).trans hl),
        digest_eq_of_isLocal plain hx hl, h.dependencies plain plain' hx, hds]
      rfl
    | ok ds =>
      induction hn : ds.length using Nat.strong_induction_on generalizing x ds with
      | _ n ih =>
      subst hn
      have inSet : ∀ d ∈ ds, d.module ∈ s.modules :=
        fun d hd => mem_modules_of_mem_dependencies plain hx hds hd
      rw [digest_eq_of_isLocal plain' (h.mem_modules hx) ((covers.isLocal x).trans hl),
        digest_eq_of_isLocal plain hx hl, h.dependencies plain plain' hx, hds, map_ok, ok_bind, ok_bind,
        h.checkNoCycle plain plain' covers inSet, covers.contents x hx]
      refine bind_congr fun _ hcheck => ?_
      have noReturn := (checkNoCycle_eq_ok_iff plain hx hds).1 hcheck
      have digests : (ds.map (Dependency.image f)).mapM (fun d => t.digest io' d.module .b5) =
          ds.mapM fun d => s.digest io d.module .b5 := by
        refine mapM_eq_mapM (List.forall₂_map_left_iff.2 (List.forall₂_same.2 fun d hd => ?_))
        cases hdl : d.module.isLocal with
        | false => exact covers.remote d.module (inSet d hd) hdl
        | true =>
          have hxd := hasDependency_of_mem hds hd
          obtain ⟨es, hes⟩ := hxd.succeeds plain hx
          have fewer := length_dependencies_lt plain hx hxd (noReturn d hd hdl) hds hes
          exact ih es.length fewer (inSet d hd) hdl es hes rfl
      rw [digests]

end IsImage

end ProtoWorkspace.ModuleSet
