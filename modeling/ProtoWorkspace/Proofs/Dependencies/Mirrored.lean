import ProtoWorkspace.Proofs.Dependencies.Matched

/-!
# Sets with the same imports

Dependencies are a matter of which paths modules have and of what is imported, not of the bytes in
files. Two sets, perhaps on two disks, agree when each module of one has a module of the other under
its identity that has Protobuf files at the same paths with the same imports. Then modules under one
identity have the same dependencies.
-/

namespace ProtoWorkspace

/-- Whether a plain way leads to the files and the imports of all modules of a set. -/
structure Access.Sees (io : Access (Except Error)) (s : ModuleSet) (disk : Disk)
    (sets : List ModuleSet) : Prop where
  plain : io.IsPlain disk sets
  loadable : s.IsLoadable disk
  reads : s.ReadsImports io disk

namespace ModuleSet

/-- Whether each module of one set is like one of the other. -/
structure Agrees (s s' : ModuleSet) (disk disk' : Disk) : Prop where
  right : ∀ x ∈ s.modules, ∃ x' ∈ s'.modules, Alike s s' disk disk' x x'
  left : ∀ x' ∈ s'.modules, ∃ x ∈ s.modules, Alike s s' disk disk' x x'

variable {s s' : ModuleSet} {disk disk' : Disk} {x x' : Module}

namespace Agrees

theorem refl (s : ModuleSet) (disk : Disk) : s.Agrees s disk disk where
  right x hx := ⟨x, hx, rfl, fun _ => Iff.rfl, fun _ _ => rfl⟩
  left x hx := ⟨x, hx, rfl, fun _ => Iff.rfl, fun _ _ => rfl⟩

variable (h : s.Agrees s' disk disk')

include h

/-- Sets that agree share all paths. -/
theorem sharesPath (loadable : s.IsLoadable disk ↔ s'.IsLoadable disk') (path : String) :
    SharesPath s s' disk disk' path where
  loadable := loadable
  right y hy hp := by
    obtain ⟨y', hy', alike⟩ := h.right y hy
    exact ⟨y', hy', alike.identity, (alike.hasProto path).1 hp⟩
  left y' hy' hp' := by
    obtain ⟨y, hy, alike⟩ := h.left y' hy'
    exact ⟨y, hy, alike.identity.symm, (alike.hasProto path).2 hp'⟩

end Agrees

section Seen

variable {io io' : Access (Except Error)} {sets sets' : List ModuleSet}
variable (v : io.Sees s disk sets) (v' : io'.Sees s' disk' sets') (h : s.Agrees s' disk disk')
variable (hx : x ∈ s.modules)

include v v' h hx

/-- In sets that agree all modules are matched. -/
theorem Agrees.isMatched : IsMatched s s' io io' x := by
  intro y path
  have hy := mem_modules_of_leads_path hx path
  obtain ⟨y', hy', alike⟩ := h.right y hy
  have loadable := iff_of_true v.loadable v'.loadable
  refine ⟨y', hy', .of_alike v.plain v'.plain alike ?_ ?_ ?_ ?_⟩
  · exact iff_of_true (v.loadable y hy) (v'.loadable y' hy')
  · exact fun _ => v.reads y hy
  · exact fun _ => v'.reads y' hy'
  · exact fun _ _ _ _ imported _ => h.sharesPath loadable imported

variable (hx' : x' ∈ s'.modules) (same : x.identity = x'.identity)

include hx' same

/-- Modules under one identity have dependencies under the same identities. -/
theorem Agrees.forall₂_dependencies {ds ds' : List Dependency}
    (hds : s.dependencies io x = .ok ds) (hds' : s'.dependencies io' x' = .ok ds') :
    List.Forall₂ (fun d d' => d.module.identity = d'.module.identity) ds ds' :=
  (h.isMatched v v' hx).forall₂_dependencies hx' same v.plain v'.plain hx hds hds'

end Seen

/-- Two plain ways to one set give the same dependencies. -/
theorem dependencies_eq_of_sees {io io' : Access (Except Error)} {sets sets' : List ModuleSet}
    (v : io.Sees s disk sets) (v' : io'.Sees s disk sets') (hx : x ∈ s.modules)
    {ds : List Dependency} (hds : s.dependencies io x = .ok ds) : s.dependencies io' x = .ok ds := by
  have matched := (Agrees.refl s disk).isMatched v v' hx
  obtain ⟨ds', hds'⟩ := matched.succeeds_dependencies hx rfl v.plain v'.plain hx ⟨ds, hds⟩
  have antisymm : Std.Antisymm fun a b : Dependency => a.module.identity < b.module.identity :=
    ⟨fun a b hab hba => absurd hab (not_lt_of_gt hba)⟩
  have irrefl : Std.Irrefl fun a b : Dependency => a.module.identity < b.module.identity :=
    ⟨fun a => lt_irrefl a.module.identity⟩
  have sorted := pairwise_dependencies v.plain hx hds
  have sorted' := pairwise_dependencies v'.plain hx hds'
  rw [hds', sorted'.eq_of_mem_iff sorted fun d => ?_]
  rw [mem_dependencies_iff_importsFrom v.plain v.loadable v.reads hx hds,
    mem_dependencies_iff_importsFrom v'.plain v'.loadable v'.reads hx hds']

end ModuleSet

end ProtoWorkspace
