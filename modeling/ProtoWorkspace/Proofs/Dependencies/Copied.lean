import ProtoWorkspace.Proofs.Access.Table
import ProtoWorkspace.Proofs.Dependencies.Matched

/-!
# Copies of a module and of its dependencies

A set that is made of copies of a module and of its dependencies, and of nothing else, is enough for
the module: in it the copy has the same dependencies. All other modules of the first set may be left out,
since an import that can be resolved has one provider at most, and that is a dependency.
-/

namespace ProtoWorkspace

open Relation Fallible

/-- Whether a module has the identity and the files of another one, perhaps on another disk. -/
structure Module.IsCopied (disk disk' : Disk) (x z : Module) : Prop where
  identity : x.identity = z.identity
  contents : ∃ files, x.contentsOn disk = .ok files ∧ z.contentsOn disk' = .ok files

namespace Module.IsCopied

variable {disk disk' : Disk} {x z : Module} {path : String} (h : x.IsCopied disk disk' z)

include h

theorem isLoadable : x.IsLoadable disk := by
  obtain ⟨files, hx, -⟩ := h.contents
  exact isLoadable_of_contentsOn hx

theorem isLoadable' : z.IsLoadable disk' := by
  obtain ⟨files, -, hz⟩ := h.contents
  exact isLoadable_of_contentsOn hz

theorem hasProtoOn_iff : x.HasProtoOn disk path ↔ z.HasProtoOn disk' path := by
  obtain ⟨files, hx, hz⟩ := h.contents
  rw [hasProtoOn_iff_of_contentsOn hx, hasProtoOn_iff_of_contentsOn hz]

theorem readOn (hp : x.HasProtoOn disk path) : x.readOn disk path = z.readOn disk' path := by
  obtain ⟨files, hx, hz⟩ := h.contents
  obtain ⟨hpath, -⟩ := (hasProtoOn_iff_of_contentsOn hx).1 hp
  obtain ⟨file, hfile, rfl⟩ := List.mem_map.1 hpath
  rw [readOn_of_contentsOn hx hfile, readOn_of_contentsOn hz hfile]

theorem alike {s t : ModuleSet} (parser : s.parser = t.parser) :
    ModuleSet.Alike s t disk disk' x z where
  identity := h.identity
  hasProto _ := h.hasProtoOn_iff
  imports path hp := by
    rw [ModuleSet.importsOn, ModuleSet.importsOn, h.readOn hp, parser]

end Module.IsCopied

namespace ModuleSet

variable {s t : ModuleSet} {io : Access (Except Error)} {disk disk' : Disk}
variable {sets sets' : List ModuleSet} {x y : Module}

/-- A module and what it depends on. -/
def Needs (s : ModuleSet) (io : Access (Except Error)) (x y : Module) : Prop :=
  y = x ∨ s.HasDependency io x y

theorem Needs.mem_modules (h : io.IsPlain disk sets) (hx : x ∈ s.modules) (needs : s.Needs io x y) :
    y ∈ s.modules := by
  rcases needs with rfl | hxy
  · exact hx
  · exact hxy.mem_modules h hx

/-- Where the dependencies of a module are known, imports lead from it to nothing else. -/
theorem needs_of_path (h : io.IsPlain disk sets) (hx : x ∈ s.modules)
    (hs : Succeeds (s.dependencies io x)) (path : ReflTransGen (s.Leads io) x y) :
    s.Needs io x y := by
  by_cases same : y = x
  · exact .inl same
  · right
    rcases reflTransGen_iff_eq_or_transGen.1 path with same' | path
    · exact absurd same' same
    · exact (hasDependency_iff h hx).2 ⟨hs, same, path⟩

/-- An import of a file is resolved only in a set whose files can be listed. -/
theorem isLoadable_of_imported {path imported : String} {imports : List String}
    (hs : Succeeds (s.importedIdentities (.direct disk sets) x)) (hp : x.HasProtoOn disk path)
    (himports : s.importsOn disk x path = .ok imports) (himported : imported ∈ imports) :
    s.IsLoadable disk := by
  have plain := Access.isPlain_direct disk sets
  obtain ⟨found, hfound⟩ := hs
  obtain ⟨paths, hpaths, hfound⟩ := bind_eq_ok.1 hfound
  obtain ⟨perFile, hfiles, -⟩ := bind_eq_ok.1 hfound
  have hl : x.IsLoadable disk := plain.succeeds_protoPaths.1 ⟨paths, hpaths⟩
  obtain ⟨file, -, hfile⟩ := exists_mem_of_mapM hfiles ((plain.mem_protoPaths hpaths).2 hp)
  obtain ⟨imports', himports', hfile⟩ := bind_eq_ok.1 hfile
  have read : s.importsOf (.direct disk sets) x path = s.importsOn disk x path :=
    readImports_eq plain hl hp
  obtain rfl : imports = imports' := Except.ok.inj (himports.symm.trans (read.symm.trans himports'))
  obtain ⟨targets, htargets, -⟩ := bind_eq_ok.1 hfile
  obtain ⟨target, -, htarget⟩ := exists_mem_of_mapM htargets himported
  exact ((importTarget_eq_ok plain).1 htarget).1

section Copies

variable (hx : x ∈ s.modules) (hs : Succeeds (s.dependencies (.direct disk sets) x))
variable (copied : ∀ y, s.Needs (.direct disk sets) x y → ∃ z ∈ t.modules, y.IsCopied disk disk' z)
variable (copies : ∀ z ∈ t.modules,
  ∃ y, s.Needs (.direct disk sets) x y ∧ y.IsCopied disk disk' z)

include hx hs copied copies

/-- The providers of what is imported on the way are copied too. -/
theorem sharesPath_of_copies (path : ReflTransGen (s.Leads (.direct disk sets)) x y)
    {file imported : String} {imports : List String} (hp : y.HasProtoOn disk file)
    (himports : s.importsOn disk y file = .ok imports) (himported : imported ∈ imports) :
    SharesPath s t disk disk' imported := by
  have plain := Access.isPlain_direct disk sets
  have hy := mem_modules_of_leads_path hx path
  have follows := (succeeds_dependencies_iff plain hx).1 hs y path
  have loadable := isLoadable_of_imported follows hp himports himported
  have reads : s.ReadsImports (.direct disk sets) disk := readsImports_direct loadable
  refine ⟨iff_of_true loadable fun z hz => ?_, fun w hw hpw => ?_, fun z hz hpz => ?_⟩
  · obtain ⟨_, -, copy⟩ := copies z hz
    exact copy.isLoadable'
  · -- the provider is the importing module, or imports lead to it
    obtain ⟨imports', himports', resolved⟩ :=
      (succeeds_importedIdentities plain loadable reads hy).1 follows file hp
    obtain rfl : imports = imports' := Except.ok.inj (himports.symm.trans himports')
    rcases resolved imported himported with ⟨v, only⟩ | ⟨none, -⟩
    · obtain rfl := only.2.2 w hw hpw
      have reached : ReflTransGen (s.Leads (.direct disk sets)) x w := by
        by_cases same : y = w
        · exact same ▸ path
        · refine path.tail ((leads_iff plain loadable reads hy follows).2 ?_)
          exact ⟨same, file, imports, imported, hp, himports, himported, only⟩
      obtain ⟨z, hz, copy⟩ := copied w (needs_of_path plain hx hs reached)
      exact ⟨z, hz, copy.identity, copy.hasProtoOn_iff.1 hpw⟩
    · exact absurd ⟨w, hw, hpw⟩ none
  · obtain ⟨w, needs, copy⟩ := copies z hz
    exact ⟨w, needs.mem_modules plain hx, copy.identity.symm, copy.hasProtoOn_iff.2 hpz⟩

/-- In a set of copies of a module and of its dependencies the module is matched. -/
theorem isMatched_of_copies (parser : s.parser = t.parser) :
    IsMatched s t (.direct disk sets) (.direct disk' sets') x := by
  have plain := Access.isPlain_direct disk sets
  have plain' := Access.isPlain_direct disk' sets'
  intro y path
  obtain ⟨z, hz, copy⟩ := copied y (needs_of_path plain hx hs path)
  refine ⟨z, hz, .of_alike plain plain' (copy.alike parser)
    (iff_of_true copy.isLoadable copy.isLoadable') ?_ ?_ ?_⟩
  · exact fun hl file hp => readImports_eq plain hl hp
  · exact fun hl file hp => readImports_eq plain' hl hp
  · intro file imports hp himports imported himported
    exact sharesPath_of_copies hx hs copied copies path hp himports himported

end Copies

end ModuleSet

end ProtoWorkspace
