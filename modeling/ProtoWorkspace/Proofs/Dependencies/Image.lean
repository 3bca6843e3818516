import ProtoWorkspace.Proofs.Dependencies.Matched

/-!
# Sets whose modules are those of another one

The modules of a set are given by a function of those of another set, in the same order, which keeps
what identifies a module, its label and its files. Through ways that give the files the same imports,
every search in the one set then is the search in the other one, step by step, and ends with the
counterpart of its result or with the same error.
-/

namespace ProtoWorkspace

open Fallible

/-- The dependency on the counterpart of a module. -/
def Dependency.image (f : Module → Module) (d : Dependency) : Dependency :=
  ⟨f d.module, d.isDirect⟩

namespace ModuleSet

/-- Whether the modules of `t` are those of `s` under `f`, with the same files and the same imports. -/
structure IsImage (s t : ModuleSet) (io io' : Access (Except Error)) (f : Module → Module) : Prop where
  modules : t.modules = s.modules.map f
  identity (x : Module) : (f x).identity = x.identity
  description (x : Module) : (f x).description = x.description
  fileIndex : ∀ x ∈ s.modules, (f x).fileIndex io' = x.fileIndex io
  imports : ∀ x ∈ s.modules, ∀ paths, x.protoPaths io = .ok paths → ∀ path ∈ paths,
    t.importsOf io' (f x) path = s.importsOf io x path

variable {s t : ModuleSet} {io io' : Access (Except Error)} {f : Module → Module} {x y : Module}
variable {disk disk' : Disk} {sets sets' : List ModuleSet} {path : String}
variable (h : IsImage s t io io' f)

namespace IsImage

include h

theorem mem_modules (hx : x ∈ s.modules) : f x ∈ t.modules :=
  h.modules ▸ List.mem_map_of_mem hx

theorem map_description (modules : List Module) :
    (modules.map f).map Module.description = modules.map Module.description := by
  rw [List.map_map]
  exact List.map_congr_left fun x _ => h.description x

theorem filter_identity (test : String → Bool) (modules : List Module) :
    (modules.map f).filter (fun x => test x.identity) =
      (modules.filter fun x => test x.identity).map f := by
  rw [List.filter_map]
  refine congrArg _ (List.filter_congr fun x _ => ?_)
  exact congrArg test (h.identity x)

theorem hasProto (hx : x ∈ s.modules) : (f x).hasProto io' path = x.hasProto io path := by
  rw [Module.hasProto, Module.hasProto, h.fileIndex x hx]

theorem protoPaths (hx : x ∈ s.modules) : (f x).protoPaths io' = x.protoPaths io := by
  rw [Module.protoPaths, Module.protoPaths, h.fileIndex x hx]

theorem providersAmong {modules : List Module} (inSet : ∀ y ∈ modules, y ∈ s.modules) :
    providersAmong io' path (modules.map f) = List.map f <$> providersAmong io path modules := by
  induction modules with
  | nil => rfl
  | cons y rest ih =>
    obtain ⟨hy, hrest⟩ := List.forall_mem_cons.1 inSet
    rw [List.map_cons, ModuleSet.providersAmong, ModuleSet.providersAmong, h.hasProto hy, ih hrest]
    cases y.hasProto io path with
    | error e => rfl
    | ok hasIt =>
      cases ModuleSet.providersAmong io path rest with
      | error e => rfl
      | ok others => cases hasIt <;> rfl

theorem soleProvider (modules : List Module) :
    (soleProvider path (modules.map f) : Except Error (Option Module)) =
      Option.map f <$> soleProvider path modules := by
  rcases modules with _ | ⟨y, _ | ⟨z, rest⟩⟩
  · rfl
  · rfl
  · have descriptions := h.map_description (y :: z :: rest)
    exact congrArg (fun l => Except.error (Error.multipleModules path l)) descriptions

variable (plain : io.IsPlain disk sets) (plain' : io'.IsPlain disk' sets')

include plain plain'

theorem provider : t.provider io' path = Option.map f <$> s.provider io path := by
  rw [provider_eq, provider_eq, plain.remember_eq _ _ rfl, plain'.remember_eq _ _ rfl, h.modules,
    h.providersAmong fun _ => id]
  cases ModuleSet.providersAmong io path s.modules with
  | error e => rfl
  | ok providers => exact h.soleProvider providers

theorem importTarget (imported : String) :
    t.importTarget io' (f x) path imported = Option.map f <$> s.importTarget io x path imported := by
  rw [importTarget_eq, importTarget_eq, h.provider plain plain']
  cases s.provider io imported with
  | error e => rfl
  | ok found =>
    rw [map_ok, ok_bind, ok_bind]
    cases found with
    | some y =>
      rw [Option.map_some, targetOf, targetOf, h.identity, h.identity]
      split <;> rfl
    | none =>
      rw [Option.map_none, targetOf, targetOf, h.description, plain.note_eq, plain'.note_eq]
      split <;> rfl

theorem importedByFile (reads : t.importsOf io' (f x) path = s.importsOf io x path) :
    t.importedByFile io' (f x) path = s.importedByFile io x path := by
  have targets : ∀ imported, Option.map Module.identity <$> t.importTarget io' (f x) path imported =
      Option.map Module.identity <$> s.importTarget io x path imported := by
    intro imported
    rw [h.importTarget plain plain', ← comp_map, Option.map_comp_map]
    exact congrArg (fun g => Option.map g <$> s.importTarget io x path imported) (funext h.identity)
  rw [importedByFile_eq, importedByFile_eq, reads]
  simp only [targets]

theorem importedIdentities (hx : x ∈ s.modules) :
    t.importedIdentities io' (f x) = s.importedIdentities io x := by
  rw [ModuleSet.importedIdentities, ModuleSet.importedIdentities, h.protoPaths hx]
  refine bind_congr fun paths hpaths => ?_
  rw [mapM_congr fun path hpath =>
    h.importedByFile plain plain' (h.imports x hx paths hpaths path hpath)]

omit plain plain' in
theorem divide (modules : List Module) (found : List String) :
    divide (modules.map f) found =
      ((divide modules found).1.map f, (divide modules found).2.map f) := by
  rw [ModuleSet.divide, ModuleSet.divide, List.partition_eq_filter_filter,
    List.partition_eq_filter_filter]
  exact Prod.ext (h.filter_identity found.contains modules)
    (h.filter_identity (fun identity => !found.contains identity) modules)

/-- The search in the image goes the same way. -/
theorem reach {queue unvisited reached : List Module} (hq : ∀ y ∈ queue, y ∈ s.modules)
    (hu : ∀ y ∈ unvisited, y ∈ s.modules) :
    t.reach io' (queue.map f) (unvisited.map f) (reached.map f) =
      List.map f <$> s.reach io queue unvisited reached := by
  induction queue, unvisited, reached using reach.induct with
  | case1 unvisited reached =>
    rw [List.map_nil, reach_nil, reach_nil, map_ok]
  | case2 unvisited reached y queue ih =>
    obtain ⟨hy, hqueue⟩ := List.forall_mem_cons.1 hq
    rw [List.map_cons, reach_cons, reach_cons, h.importedIdentities plain plain' hy]
    cases s.importedIdentities io y with
    | error e => rfl
    | ok found =>
      rw [ok_bind, ok_bind, h.divide, ← List.map_append, ← List.map_append]
      refine ih found ?_ fun z hz => hu z (mem_divide_right.1 hz).1
      intro z hz
      rcases List.mem_append.1 hz with hz | hz
      · exact hqueue z hz
      · exact hu z (mem_divide_left.1 hz).1

omit plain plain'

theorem isAmong (modules : List Module) :
    isAmong (f x) (modules.map f) = isAmong x modules := by
  rw [ModuleSet.isAmong, ModuleSet.isAmong, List.any_map, h.identity]
  exact congrArg modules.any (funext fun y => congrArg (· == x.identity) (h.identity y))

theorem restrict (found : List String) : t.restrict found = (s.restrict found).map f := by
  rw [ModuleSet.restrict, ModuleSet.restrict, h.modules]
  exact h.filter_identity found.contains s.modules

theorem unvisited (found : List String) :
    t.unvisited (f x) found = (s.unvisited x found).map f := by
  rw [ModuleSet.unvisited, ModuleSet.unvisited, h.modules, h.restrict, List.filter_map]
  refine congrArg _ (List.filter_congr fun y _ => ?_)
  exact congrArg not (h.isAmong (x :: s.restrict found))

theorem sorted (modules : List Module) :
    (modules.map f).mergeSort (fun a b => decide (a.identity ≤ b.identity)) =
      (modules.mergeSort fun a b => decide (a.identity ≤ b.identity)).map f := by
  refine (List.map_mergeSort fun a _ b _ => ?_).symm
  rw [h.identity, h.identity]

include plain plain'

/-- The dependencies of a counterpart are the counterparts of the dependencies. -/
theorem dependencies (hx : x ∈ s.modules) : t.dependencies io' (f x) =
    List.map (Dependency.image f) <$> s.dependencies io x := by
  rw [dependencies_eq plain', dependencies_eq plain, h.importedIdentities plain plain' hx]
  cases s.importedIdentities io x with
  | error e => rfl
  | ok found =>
    rw [ok_bind, ok_bind, h.restrict, h.unvisited, h.reach plain plain'
      (fun y hy => (mem_restrict.1 hy).1) fun y hy => (mem_unvisited hy).1]
    cases s.reach io (s.restrict found) (s.unvisited x found) (s.restrict found) with
    | error e => rfl
    | ok reached =>
      refine congrArg Except.ok ?_
      rw [h.sorted, List.map_map, List.map_map]
      refine List.map_congr_left fun y _ => ?_
      exact congrArg (Dependency.mk (f y)) (h.isAmong (s.restrict found))

end IsImage

end ModuleSet

end ProtoWorkspace
