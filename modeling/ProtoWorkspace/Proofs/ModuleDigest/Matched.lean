import ProtoWorkspace.Proofs.Dependencies.Matched
import ProtoWorkspace.Proofs.ModuleDigest.Cycles

/-!
# Digests of matched modules

Matched modules have the same digest when the files of the module and of all its dependencies are the
same, and remote modules among them have the same digests. The induction is on the number of
dependencies, of which every local dependency has fewer.
-/

namespace ProtoWorkspace.ModuleSet

/-- Whether the `b5` digests of two modules cover the same apart from the dependencies of local
modules. -/
structure SameCover (s s' : ModuleSet) (io io' : Access (Except Error)) (x x' : Module) : Prop where
  isLocal : x.isLocal = x'.isLocal
  contents : x.contents io = x'.contents io'
  remote : x.isLocal = false → SameValue (s.digest io x .b5) (s'.digest io' x' .b5)

variable {s s' : ModuleSet} {io io' : Access (Except Error)} {disk disk' : Disk}
variable {sets sets' : List ModuleSet} {x x' : Module}

theorem SameCover.symm (h : SameCover s s' io io' x x') : SameCover s' s io' io x' x where
  isLocal := h.isLocal.symm
  contents := h.contents.symm
  remote hl := (h.remote (h.isLocal.trans hl)).symm

namespace IsMatched

variable (h : io.IsPlain disk sets) (h' : io'.IsPlain disk' sets')

include h

theorem dependency (m : IsMatched s s' io io' x) (hx : x ∈ s.modules) {y : Module}
    (hxy : s.HasDependency io x y) : IsMatched s s' io io' y :=
  m.of_path ((hasDependency_iff h hx).1 hxy).2.2.to_reflTransGen

include h'

/-- A dependency whose counterpart depends on the counterpart of the module depends on the module. -/
theorem hasDependency_back (m : IsMatched s s' io io' x) (hx : x ∈ s.modules)
    (same : x.identity = x'.identity) {y y' : Module} (hxy : s.HasDependency io x y)
    (hy' : y' ∈ s'.modules) (sameY : y.identity = y'.identity)
    (back : s'.HasDependency io' y' x') : s.HasDependency io y x := by
  have hy := hxy.mem_modules h hx
  have matched := (m.dependency h hx hxy).symm hy' sameY h hy
  exact matched.hasDependency hy sameY.symm h' h hy' hx same.symm back

theorem digest_b5_eq_ok (m : IsMatched s s' io io' x) (hx : x ∈ s.modules) (hx' : x' ∈ s'.modules)
    (same : x.identity = x'.identity)
    (cover : ∀ y ∈ s.modules, ∀ y' ∈ s'.modules, y.identity = y'.identity →
      y = x ∨ s.HasDependency io x y → SameCover s s' io io' y y')
    {g : Digest} (hg : s.digest io x .b5 = .ok g) : s'.digest io' x' .b5 = .ok g := by
  have coverX := cover x hx x' hx' same (.inl rfl)
  cases hl : x.isLocal with
  | false => exact (coverX.remote hl g).1 hg
  | true =>
    obtain ⟨ds, -, -, hds, -⟩ := (ModuleSet.digest_b5_eq_ok h hx hl).1 hg
    induction hn : ds.length using Nat.strong_induction_on generalizing x x' ds g with
    | _ n ih =>
    subst hn
    obtain ⟨ds₀, digests, files, hds₀, noBack, hdigests, hfiles, rfl⟩ :=
      (ModuleSet.digest_b5_eq_ok h hx hl).1 hg
    obtain rfl : ds = ds₀ := Except.ok.inj (hds.symm.trans hds₀)
    obtain ⟨ds', hds'⟩ := m.succeeds_dependencies hx' same h h' hx ⟨ds, hds⟩
    have identities := m.forall₂_dependencies hx' same h h' hx hds hds'
    have coverOf : ∀ d ∈ ds, ∀ d' ∈ ds', d.module.identity = d'.module.identity →
        SameCover s s' io io' d.module d'.module := by
      intro d hd d' hd' sameD
      exact cover _ (mem_modules_of_mem_dependencies h hx hds hd) _
        (mem_modules_of_mem_dependencies h' hx' hds' hd') sameD (.inr (hasDependency_of_mem hds hd))
    have hdigests' : List.Forall₂ (fun d' g => s'.digest io' d'.module .b5 = .ok g) ds' digests := by
      refine Fallible.forall₂_of_common identities hdigests ?_
      intro d hd d' hd' g sameD hg
      have coverD := coverOf d hd d' hd' sameD
      cases hdl : d.module.isLocal with
      | false => exact (coverD.remote hdl g).1 hg
      | true =>
        have hxd := hasDependency_of_mem hds hd
        have noReturn := noBack d hd hdl
        obtain ⟨es, hes⟩ := hxd.succeeds h hx
        refine ih es.length (length_dependencies_lt h hx hxd noReturn hds hes) (m.dependency h hx hxd)
          (hxd.mem_modules h hx) (mem_modules_of_mem_dependencies h' hx' hds' hd') sameD ?_ hg coverD
          hdl es hes rfl
        intro y hy y' hy' sameY covered
        apply cover y hy y' hy' sameY
        rcases covered with rfl | hdy
        · exact .inr hxd
        · exact .inr (hxd.trans h hx hdy fun hyx => noReturn (hyx ▸ hdy))
    refine (ModuleSet.digest_b5_eq_ok h' hx' (coverX.isLocal ▸ hl)).2
      ⟨ds', digests, files, hds', ?_, hdigests', coverX.contents ▸ hfiles, rfl⟩
    intro d' hd' hdl' back'
    obtain ⟨d, hd, sameD⟩ := Fallible.exists_of_mem_right identities hd'
    have hxd := hasDependency_of_mem hds hd
    have hdmem' := mem_modules_of_mem_dependencies h' hx' hds' hd'
    have back := m.hasDependency_back h h' hx same hxd hdmem' sameD back'
    exact noBack d hd ((coverOf d hd d' hd' sameD).isLocal.trans hdl') back

/-- Matched modules have the same `b5` digests, where all modules of one identity cover the same. -/
theorem sameValue_digest_b5 (m : IsMatched s s' io io' x) (hx : x ∈ s.modules)
    (hx' : x' ∈ s'.modules) (same : x.identity = x'.identity)
    (cover : ∀ y ∈ s.modules, ∀ y' ∈ s'.modules, y.identity = y'.identity →
      SameCover s s' io io' y y') :
    SameValue (s.digest io x .b5) (s'.digest io' x' .b5) := by
  intro g
  constructor
  · exact m.digest_b5_eq_ok h h' hx hx' same fun y hy y' hy' sameY _ => cover y hy y' hy' sameY
  · exact (m.symm hx' same h hx).digest_b5_eq_ok h' h hx' hx same.symm fun y' hy' y hy sameY _ =>
      (cover y hy y' hy' sameY.symm).symm

end IsMatched

end ProtoWorkspace.ModuleSet
