import ProtoWorkspace.Proofs.Dependencies.Walk

/-!
# What dependencies mean on a disk

The modules to which imports lead, said without any search: a file imports a path, and exactly one
module of the set has a Protobuf file there. The search through a plain way that reads the imports
of files truly succeeds, and leads on, as this says.
-/

namespace ProtoWorkspace.ModuleSet

open Relation

/-- The imports that the parser of a set finds in the file of a module at a path. -/
def importsOn (s : ModuleSet) (disk : Disk) (x : Module) (path : String) :
    Except Error (List String) := do
  let data ← x.readOn disk path
  s.parser.parse path data

/-- Whether a module of the set has a Protobuf file at a path. -/
def IsProvided (s : ModuleSet) (disk : Disk) (path : String) : Prop :=
  ∃ y ∈ s.modules, y.HasProtoOn disk path

/-- Whether `y` is the only module of the set with a Protobuf file at a path. -/
def IsOnlyProvider (s : ModuleSet) (disk : Disk) (path : String) (y : Module) : Prop :=
  y ∈ s.modules ∧ y.HasProtoOn disk path ∧ ∀ z ∈ s.modules, z.HasProtoOn disk path → z = y

/-- Whether an import can be resolved: one module has the file, or none has and it is a file that
every compiler brings along. -/
def CanImport (s : ModuleSet) (disk : Disk) (imported : String) : Prop :=
  (∃ y, s.IsOnlyProvider disk imported y) ∨
    ¬ s.IsProvided disk imported ∧ imported ∈ Imports.wellKnown

/-- Whether all Protobuf files of a module can be read and parsed, and their imports resolved. -/
def IsResolved (s : ModuleSet) (disk : Disk) (x : Module) : Prop :=
  ∀ path, x.HasProtoOn disk path →
    ∃ imports, s.importsOn disk x path = .ok imports ∧ ∀ imported ∈ imports, s.CanImport disk imported

/-- Whether a Protobuf file of `x` imports a path whose only provider is another module `y`. -/
def ImportsFrom (s : ModuleSet) (disk : Disk) (x y : Module) : Prop :=
  x ≠ y ∧ ∃ path imports imported, x.HasProtoOn disk path ∧
    s.importsOn disk x path = .ok imports ∧ imported ∈ imports ∧ s.IsOnlyProvider disk imported y

/-- Whether the files of all modules of the set can be listed. -/
def IsLoadable (s : ModuleSet) (disk : Disk) : Prop :=
  ∀ y ∈ s.modules, y.IsLoadable disk

/-- Whether a way gives the imports of files as they are on a disk. -/
def ReadsImports (s : ModuleSet) (io : Access (Except Error)) (disk : Disk) : Prop :=
  ∀ x ∈ s.modules, ∀ path, x.HasProtoOn disk path →
    s.importsOf io x path = s.importsOn disk x path

section Read

variable {m : Type → Type} [Monad m] [MonadExcept Error m]

/-- The imports of a file with the given bytes. -/
def parseImports (s : ModuleSet) (io : Access m) (path : String) (data : ByteArray) :
    m (List String) := do
  if let some parser := s.parser.number then io.note (.parsedFile parser path)
  MonadExcept.ofExcept (s.parser.parse path data)

def readImports (s : ModuleSet) (io : Access m) (x : Module) (path : String) :
    m (List String) := do
  let data ← x.read io path
  s.parseImports io path data

theorem importsOf_eq (s : ModuleSet) (io : Access m) (x : Module) (path : String) :
    s.importsOf io x path =
      io.remember (.imports s.number (fileMark x path)) (s.readImports io x path) := rfl

/-- The one module among those that have a file. -/
def soleProvider (path : String) : List Module → m (Option Module)
  | [] => return none
  | [x] => return some x
  | several => throw (.multipleModules path (several.map Module.description))

theorem provider_eq (s : ModuleSet) (io : Access m) (path : String) :
    s.provider io path = io.remember (.provider s.number path)
      (providersAmong io path s.modules >>= soleProvider path) := rfl

/-- The other module to which an import leads, where the module with the imported file is given. -/
def targetOf (io : Access m) (x : Module) (path imported : String) :
    Option Module → m (Option Module)
  | some y => return if y.identity = x.identity then none else some y
  | none =>
    if imported ∈ Imports.wellKnown then do
      io.note (.metWellKnown path imported)
      return none
    else throw (.importNotFound x.description path imported)

theorem importTarget_eq (s : ModuleSet) (io : Access m) (x : Module) (path imported : String) :
    s.importTarget io x path imported =
      s.provider io imported >>= targetOf io x path imported := rfl

end Read

variable {s : ModuleSet} {io : Access (Except Error)} {disk : Disk} {sets : List ModuleSet}
variable {x : Module}

theorem parseImports_eq (h : io.IsPlain disk sets) (path : String) (data : ByteArray) :
    s.parseImports io path data = s.parser.parse path data := by
  unfold parseImports
  rw [Fallible.ofExcept_eq]
  cases s.parser.number with
  | none => rfl
  | some parser =>
    dsimp only
    rw [h.note_eq]
    rfl

theorem readImports_eq (h : io.IsPlain disk sets) (hl : x.IsLoadable disk) {path : String}
    (hp : x.HasProtoOn disk path) : s.readImports io x path = s.importsOn disk x path := by
  obtain ⟨entries, he⟩ := Module.succeeds_indexOn.2 hl
  have listed : path ∈ entries.map FileEntry.path :=
    List.mem_map.2 ⟨⟨path, .proto⟩, (Module.mem_indexOn_proto he).2 hp, rfl⟩
  rw [readImports, h.read_eq he listed, importsOn]
  exact congrArg _ (funext (parseImports_eq h path))

theorem readsImports_direct (hl : s.IsLoadable disk) :
    s.ReadsImports (.direct disk sets) disk :=
  fun x hx _ hp => readImports_eq (Access.isPlain_direct disk sets) (hl x hx) hp

/-- The providers of a path are found among any modules whose files can be listed. -/
theorem providersAmong_eq_ok (h : io.IsPlain disk sets) (path : String) {modules : List Module}
    (hl : ∀ y ∈ modules, y.IsLoadable disk) :
    ∃ ys, providersAmong io path modules = .ok ys ∧ ys.Sublist modules ∧
      ∀ y, y ∈ ys ↔ y ∈ modules ∧ y.HasProtoOn disk path := by
  induction modules with
  | nil => exact ⟨[], rfl, .slnil, by simp⟩
  | cons x rest ih =>
    obtain ⟨ys, hys, hsub, hmem⟩ := ih fun y hy => hl y (List.mem_cons_of_mem _ hy)
    obtain ⟨b, hb, hb'⟩ := h.hasProto_eq (hl x List.mem_cons_self) path
    cases b with
    | true =>
      refine ⟨x :: ys, by simp [providersAmong, hb, hys], hsub.cons_cons x, fun y => ?_⟩
      rw [List.mem_cons, List.mem_cons, hmem]
      constructor
      · rintro (rfl | ⟨hy, hp⟩)
        · exact ⟨.inl rfl, hb'.1 rfl⟩
        · exact ⟨.inr hy, hp⟩
      · rintro ⟨rfl | hy, hp⟩
        · exact .inl rfl
        · exact .inr ⟨hy, hp⟩
    | false =>
      refine ⟨ys, by simp [providersAmong, hb, hys], hsub.cons x, fun y => ?_⟩
      rw [hmem, List.mem_cons]
      constructor
      · exact fun ⟨hy, hp⟩ => ⟨.inr hy, hp⟩
      · rintro ⟨rfl | hy, hp⟩
        · exact absurd (hb'.2 hp) (by decide)
        · exact ⟨hy, hp⟩

/-- The module with the file at a path is found if it is the only one, and if there are several the
search fails. -/
theorem provider_cases (h : io.IsPlain disk sets) (hl : s.IsLoadable disk) (path : String) :
    (s.provider io path = .ok none ∧ ¬ s.IsProvided disk path) ∨
      (∃ y, s.provider io path = .ok (some y) ∧ s.IsOnlyProvider disk path y) ∨
      ((∃ e, s.provider io path = .error e) ∧ s.IsProvided disk path ∧
        ∀ y, ¬ s.IsOnlyProvider disk path y) := by
  obtain ⟨ys, hys, hsub, hmem⟩ := providersAmong_eq_ok h path hl
  rcases ys with _ | ⟨y, _ | ⟨z, rest⟩⟩
  · refine .inl ⟨(h.remember_eq _ _ rfl).trans (by rw [hys]; rfl), ?_⟩
    rintro ⟨y, hy, hp⟩
    exact absurd ((hmem y).2 ⟨hy, hp⟩) List.not_mem_nil
  · obtain ⟨hy, hp⟩ := (hmem y).1 List.mem_cons_self
    refine .inr (.inl ⟨y, (h.remember_eq _ _ rfl).trans (by rw [hys]; rfl), hy, hp, ?_⟩)
    intro z hz hpz
    exact List.mem_singleton.1 ((hmem z).2 ⟨hz, hpz⟩)
  · have hn : (y :: z :: rest).Nodup := hsub.nodup s.nodup_identity.of_map
    obtain ⟨hy, hpy⟩ := (hmem y).1 List.mem_cons_self
    obtain ⟨hz, hpz⟩ := (hmem z).1 (List.mem_cons_of_mem _ List.mem_cons_self)
    refine .inr (.inr ⟨⟨_, (h.remember_eq _ _ rfl).trans (by rw [hys]; rfl)⟩, ⟨y, hy, hpy⟩, ?_⟩)
    intro w ⟨_, _, only⟩
    have same : y = z := (only y hy hpy).trans (only z hz hpz).symm
    exact (List.nodup_cons.1 hn).1 (same ▸ List.mem_cons_self)

theorem succeeds_importTarget (h : io.IsPlain disk sets) (hl : s.IsLoadable disk)
    (path imported : String) :
    Succeeds (s.importTarget io x path imported) ↔ s.CanImport disk imported := by
  unfold importTarget CanImport
  rcases provider_cases h hl imported with ⟨hp, hnone⟩ | ⟨y, hp, honly⟩ | ⟨⟨e, hp⟩, hsome, hnot⟩
  · rw [hp, Fallible.ok_bind]
    have no : ¬ ∃ y, s.IsOnlyProvider disk imported y := fun ⟨y, hy, hpy, _⟩ =>
      hnone ⟨y, hy, hpy⟩
    by_cases hw : imported ∈ Imports.wellKnown
    · simp [hw, hnone, h.note_eq]
    · simp [hw, no]
  · rw [hp, Fallible.ok_bind]
    by_cases hid : y.identity = x.identity
    · simp [hid, (⟨y, honly⟩ : ∃ y, s.IsOnlyProvider disk imported y)]
    · simp [hid, (⟨y, honly⟩ : ∃ y, s.IsOnlyProvider disk imported y)]
  · rw [hp, Fallible.error_bind]
    refine iff_of_false (Fallible.not_succeeds_error e) ?_
    rintro (⟨y, hy⟩ | ⟨hn, -⟩)
    · exact hnot y hy
    · exact hn hsome

/-- An import leads to the only module with its file, unless that is the importing module. -/
theorem importTarget_eq_some (h : io.IsPlain disk sets) (hl : s.IsLoadable disk)
    {path imported : String} {y : Module} :
    s.importTarget io x path imported = .ok (some y) ↔
      s.IsOnlyProvider disk imported y ∧ y.identity ≠ x.identity := by
  unfold importTarget
  rcases provider_cases h hl imported with ⟨hp, hnone⟩ | ⟨z, hp, honly⟩ | ⟨⟨e, hp⟩, -, hnot⟩
  · rw [hp, Fallible.ok_bind]
    refine iff_of_false ?_ fun ⟨⟨hy, hpy, _⟩, _⟩ => hnone ⟨y, hy, hpy⟩
    by_cases hw : imported ∈ Imports.wellKnown
    · simp [hw, h.note_eq]
    · simp [hw]
  · rw [hp, Fallible.ok_bind]
    have unique : s.IsOnlyProvider disk imported y ↔ z = y :=
      ⟨fun ⟨hy, hpy, _⟩ => (honly.2.2 y hy hpy).symm, fun same => same ▸ honly⟩
    rw [unique]
    by_cases hid : z.identity = x.identity
    · simp only [hid, if_true, Fallible.pure_eq_ok, Except.ok.injEq, reduceCtorEq, false_iff]
      rintro ⟨rfl, hne⟩
      exact hne hid
    · simp only [hid, if_false, Fallible.pure_eq_ok, Except.ok.injEq, Option.some.injEq]
      exact ⟨fun same => ⟨same, same ▸ hid⟩, And.left⟩
  · rw [hp, Fallible.error_bind]
    exact iff_of_false (by simp) fun ⟨hy, _⟩ => hnot y hy

section Files

variable (h : io.IsPlain disk sets) (hl : s.IsLoadable disk) (hr : s.ReadsImports io disk)
variable (hx : x ∈ s.modules)

include h hl hr hx

theorem succeeds_importedByFile {path : String} (hp : x.HasProtoOn disk path) :
    Succeeds (s.importedByFile io x path) ↔
      ∃ imports, s.importsOn disk x path = .ok imports ∧
        ∀ imported ∈ imports, s.CanImport disk imported := by
  rw [importedByFile, hr x hx path hp, Fallible.succeeds_bind]
  refine exists_congr fun imports => and_congr_right fun _ => ?_
  rw [Fallible.succeeds_bind]
  constructor
  · rintro ⟨targets, htargets, -⟩ imported himported
    exact (succeeds_importTarget h hl path imported).1
      (Fallible.succeeds_mapM.1 ⟨targets, htargets⟩ imported himported)
  · intro all
    obtain ⟨targets, htargets⟩ := Fallible.succeeds_mapM.2 fun imported himported =>
      (succeeds_importTarget h hl path imported).2 (all imported himported)
    exact ⟨targets, htargets, Fallible.succeeds_ok _⟩

theorem mem_importedByFile {path : String} (hp : x.HasProtoOn disk path) {found : List String}
    (hfound : s.importedByFile io x path = .ok found) {identity : String} :
    identity ∈ found ↔ ∃ imports imported y, s.importsOn disk x path = .ok imports ∧
      imported ∈ imports ∧ s.IsOnlyProvider disk imported y ∧ y.identity ≠ x.identity ∧
        y.identity = identity := by
  rw [importedByFile, hr x hx path hp] at hfound
  obtain ⟨imports, himports, hfound⟩ := Fallible.bind_eq_ok.1 hfound
  obtain ⟨targets, htargets, hfound⟩ := Fallible.bind_eq_ok.1 hfound
  cases hfound
  rw [List.mem_map]
  constructor
  · rintro ⟨y, hy, rfl⟩
    obtain ⟨target, htarget, rfl⟩ := List.mem_filterMap.1 hy
    obtain ⟨imported, himported, hto⟩ := Fallible.exists_of_mem_mapM htargets htarget
    obtain ⟨honly, hne⟩ := (importTarget_eq_some h hl).1 hto
    exact ⟨imports, imported, y, himports, himported, honly, hne, rfl⟩
  · rintro ⟨imports', imported, y, himports', himported, honly, hne, rfl⟩
    rw [himports] at himports'
    cases himports'
    obtain ⟨target, htarget, hto⟩ := Fallible.exists_mem_of_mapM htargets himported
    rw [(importTarget_eq_some h hl).2 ⟨honly, hne⟩] at hto
    cases hto
    exact ⟨y, List.mem_filterMap.2 ⟨some y, htarget, rfl⟩, rfl⟩

theorem succeeds_importedIdentities :
    Succeeds (s.importedIdentities io x) ↔ s.IsResolved disk x := by
  obtain ⟨paths, hpaths⟩ := h.succeeds_protoPaths.2 (hl x hx)
  rw [importedIdentities, hpaths, Fallible.ok_bind]
  have listed : ∀ path, path ∈ paths ↔ x.HasProtoOn disk path := fun path =>
    h.mem_protoPaths hpaths
  constructor
  · intro hs path hp
    obtain ⟨found, hfound, -⟩ := Fallible.succeeds_bind.1 hs
    exact (succeeds_importedByFile h hl hr hx hp).1
      (Fallible.succeeds_mapM.1 ⟨found, hfound⟩ path ((listed path).2 hp))
  · intro all
    obtain ⟨found, hfound⟩ := Fallible.succeeds_mapM.2 fun path hpath =>
      (succeeds_importedByFile h hl hr hx ((listed path).1 hpath)).2 (all path ((listed path).1 hpath))
    rw [hfound]
    exact Fallible.succeeds_ok _

/-- Imports that can be followed lead to the other modules that alone have the imported files. -/
theorem leads_iff (hs : Succeeds (s.importedIdentities io x)) {y : Module} :
    s.Leads io x y ↔ s.ImportsFrom disk x y := by
  obtain ⟨found, hfound⟩ := hs
  have following := hfound
  obtain ⟨paths, hpaths, hfound⟩ := Fallible.bind_eq_ok.1 hfound
  obtain ⟨perFile, hfiles, hfound⟩ := Fallible.bind_eq_ok.1 hfound
  cases hfound
  have listed : ∀ path, path ∈ paths ↔ x.HasProtoOn disk path := fun path =>
    h.mem_protoPaths hpaths
  constructor
  · rintro ⟨hy, found, hfound, hid⟩
    rw [following] at hfound
    cases hfound
    obtain ⟨file, hfile, hid⟩ := List.mem_flatten.1 hid
    obtain ⟨path, hpath, hfile⟩ := Fallible.exists_of_mem_mapM hfiles hfile
    have hp := (listed path).1 hpath
    obtain ⟨imports, imported, z, himports, himported, honly, hne, hz⟩ :=
      (mem_importedByFile h hl hr hx hp hfile).1 hid
    have same : z = y := eq_of_identity honly.1 hy hz
    subst same
    exact ⟨fun he => hne (by rw [he]), path, imports, imported, hp, himports, himported, honly⟩
  · rintro ⟨hne, path, imports, imported, hp, himports, himported, honly⟩
    refine ⟨honly.1, _, following, ?_⟩
    obtain ⟨file, hmem, hfile⟩ := Fallible.exists_mem_of_mapM hfiles ((listed path).2 hp)
    refine List.mem_flatten.2 ⟨file, hmem, (mem_importedByFile h hl hr hx hp hfile).2 ?_⟩
    refine ⟨imports, imported, y, himports, himported, honly, fun hid => ?_, rfl⟩
    exact hne (eq_of_identity hx honly.1 hid.symm)

end Files

theorem mem_modules_of_path (hx : x ∈ s.modules) {y : Module}
    (path : ReflTransGen (s.ImportsFrom disk) x y) : y ∈ s.modules := by
  cases path with
  | refl => exact hx
  | tail _ step =>
    obtain ⟨_, _, _, _, _, _, _, only⟩ := step
    exact only.1

section Paths

variable (h : io.IsPlain disk sets) (hl : s.IsLoadable disk) (hr : s.ReadsImports io disk)
variable (hx : x ∈ s.modules)

include h hl hr hx

theorem reflTransGen_leads_iff
    (all : ∀ y, ReflTransGen (s.ImportsFrom disk) x y → s.IsResolved disk y) {y : Module} :
    ReflTransGen (s.Leads io) x y ↔ ReflTransGen (s.ImportsFrom disk) x y := by
  have step : ∀ z w, ReflTransGen (s.ImportsFrom disk) x z →
      (s.Leads io z w ↔ s.ImportsFrom disk z w) := by
    intro z w path
    have hz := mem_modules_of_path hx path
    exact leads_iff h hl hr hz ((succeeds_importedIdentities h hl hr hz).2 (all z path))
  constructor
  · intro path
    induction path with
    | refl => exact .refl
    | tail _ lead ih => exact ih.tail ((step _ _ ih).1 lead)
  · intro path
    induction path with
    | refl => exact .refl
    | tail before lead ih => exact ih.tail ((step _ _ before).2 lead)

/-- The dependencies of a module are known exactly when all imports of the module, and of the
modules on paths from it, can be resolved. -/
theorem succeeds_dependencies_iff_isResolved :
    Succeeds (s.dependencies io x) ↔
      ∀ y, ReflTransGen (s.ImportsFrom disk) x y → s.IsResolved disk y := by
  rw [succeeds_dependencies_iff h hx]
  constructor
  · intro all y path
    have reached : ReflTransGen (s.Leads io) x y := by
      induction path with
      | refl => exact .refl
      | tail before lead ih =>
        have hz := mem_modules_of_path hx before
        exact ih.tail ((leads_iff h hl hr hz (all _ ih)).2 lead)
    exact (succeeds_importedIdentities h hl hr (mem_modules_of_path hx path)).1 (all y reached)
  · intro all y path
    have path := (reflTransGen_leads_iff h hl hr hx all).1 path
    exact (succeeds_importedIdentities h hl hr (mem_modules_of_path hx path)).2 (all y path)

/-- The dependencies of a module are the other modules on paths from it along imports. Those that
it imports itself are direct. -/
theorem mem_dependencies_iff_importsFrom {ds : List Dependency}
    (hds : s.dependencies io x = .ok ds) (d : Dependency) :
    d ∈ ds ↔ d.module ≠ x ∧ TransGen (s.ImportsFrom disk) x d.module ∧
      (d.isDirect = true ↔ s.ImportsFrom disk x d.module) := by
  have all := (succeeds_dependencies_iff_isResolved h hl hr hx).1 ⟨ds, hds⟩
  have step : ∀ z, ReflTransGen (s.ImportsFrom disk) x z →
      (s.Leads io z d.module ↔ s.ImportsFrom disk z d.module) := by
    intro z path
    have hz := mem_modules_of_path hx path
    exact leads_iff h hl hr hz ((succeeds_importedIdentities h hl hr hz).2 (all z path))
  have paths : TransGen (s.Leads io) x d.module ↔ TransGen (s.ImportsFrom disk) x d.module := by
    rw [TransGen.tail'_iff, TransGen.tail'_iff]
    refine exists_congr fun z => ?_
    rw [reflTransGen_leads_iff h hl hr hx all]
    exact and_congr_right (step z)
  rw [mem_dependencies_iff h hx hds, paths, step x .refl]

end Paths

end ProtoWorkspace.ModuleSet
