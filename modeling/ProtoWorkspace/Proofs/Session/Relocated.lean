import ProtoWorkspace.Proofs.Session.InStep

/-!
# Answers in step

What becomes of a module when its files are moved has dependencies that are what becomes of those of the
module, and the same digests. This is so for every question in sessions that are in step, and so for
whatever is asked one after the other in two sessions that start with the same sets, of which the files of
one were moved.
-/

namespace ProtoWorkspace

open Fallible

/-- The operation on other modules. -/
def Operation.moved (f : Module → Module) : Operation → Operation
  | .digest x type => .digest (f x) type
  | .dependencies x => .dependencies (f x)
  | .directDependencies x => .directDependencies (f x)
  | .provider path => .provider path
  | .fileInfos x => .fileInfos (f x)
  | .targetFileInfos x => .targetFileInfos (f x)
  | .filePaths x => .filePaths (f x)
  | .protoPaths x => .protoPaths (f x)
  | .visitFiles x visit => .visitFiles (f x) visit
  | .stat x path => .stat (f x) path
  | .hasProto x path => .hasProto (f x) path
  | .read x path => .read (f x) path
  | .contents x => .contents (f x)
  | .yaml x => .yaml (f x)
  | .lock x => .lock (f x)
  | .declaredKeys x => .declaredKeys (f x)

namespace Relocation

variable {r : Relocation} {σ τ : Session}

/-! ## Lists of modules -/

section Modules

variable {x y : Module} {s t : ModuleSet} {xs ys : List Module}

theorem OfModule.isMoved (h : r.OfModule x y) : x.IsMoved r.disk y := by
  obtain ⟨-, bucket, rfl, same⟩ := h
  exact ⟨rfl, rfl, same⟩

theorem OfModule.refl (mem : ∃ s ∈ r.sets, x ∈ s.modules) : r.OfModule x x :=
  ⟨mem, x.inputs.bucket, rfl, .of_eq (Bucket.ShowsSame.refl r.disk) rfl⟩

theorem OfModule.identity (h : r.OfModule x y) : y.identity = x.identity := by
  obtain ⟨-, bucket, rfl, -⟩ := h
  rfl

theorem OfModule.description (h : r.OfModule x y) : y.description = x.description := by
  obtain ⟨-, bucket, rfl, -⟩ := h
  rfl

theorem OfModule.isLocal (h : r.OfModule x y) : y.isLocal = x.isLocal := by
  obtain ⟨-, bucket, rfl, -⟩ := h
  rfl

variable (h : List.Forall₂ r.OfModule xs ys)

include h

theorem map_identity : ys.map Module.identity = xs.map Module.identity :=
  (map_eq_map_of_forall₂ (h.imp fun _ _ same => same.identity.symm)).symm

theorem map_description : ys.map Module.description = xs.map Module.description :=
  (map_eq_map_of_forall₂ (h.imp fun _ _ same => same.description.symm)).symm

/-- What is chosen by identity is chosen alike. -/
theorem filter_identity (p : String → Bool) :
    List.Forall₂ r.OfModule (xs.filter (p ·.identity)) (ys.filter (p ·.identity)) :=
  List.rel_filter (fun _ _ same => by dsimp only; rw [same.identity]) h

theorem divide_identity (identities : List String) :
    List.Forall₂ r.OfModule (ModuleSet.divide xs identities).1 (ModuleSet.divide ys identities).1 ∧
      List.Forall₂ r.OfModule (ModuleSet.divide xs identities).2 (ModuleSet.divide ys identities).2 := by
  rw [ModuleSet.divide, ModuleSet.divide, List.partition_eq_filter_filter,
    List.partition_eq_filter_filter]
  exact ⟨filter_identity h identities.contains,
    filter_identity h fun identity => !identities.contains identity⟩

theorem isAmong_eq (same : r.OfModule x y) : ModuleSet.isAmong y ys = ModuleSet.isAmong x xs := by
  rw [ModuleSet.isAmong, ModuleSet.isAmong, same.identity]
  induction h with
  | nil => rfl
  | cons first _ ih => rw [List.any_cons, List.any_cons, ih, first.identity]

theorem mergeSort_identity : List.Forall₂ r.OfModule
    (xs.mergeSort fun a b => decide (a.identity ≤ b.identity))
    (ys.mergeSort fun a b => decide (a.identity ≤ b.identity)) := by
  obtain ⟨pairs, rfl, rfl⟩ : ∃ pairs : List {p : Module × Module // r.OfModule p.1 p.2},
      pairs.map (·.1.1) = xs ∧ pairs.map (·.1.2) = ys := by
    induction h with
    | nil => exact ⟨[], rfl, rfl⟩
    | @cons x y _ _ first _ ih =>
      obtain ⟨pairs, rfl, rfl⟩ := ih
      exact ⟨⟨(x, y), first⟩ :: pairs, rfl, rfl⟩
  rw [← List.map_mergeSort (r := fun a b => decide (a.1.1.identity ≤ b.1.1.identity)) fun _ _ _ _ => rfl,
    ← List.map_mergeSort (r := fun a b => decide (a.1.1.identity ≤ b.1.1.identity)) fun a _ b _ => by
      rw [a.2.identity, b.2.identity],
    List.forall₂_map_left_iff, List.forall₂_map_right_iff]
  exact List.forall₂_same.2 fun a _ => a.2

end Modules

/-- What is found by a property that is the same for related elements is related. -/
theorem rel_find? {α β : Type} {R : α → β → Prop} {p : α → Bool} {q : β → Bool} {as : List α}
    {bs : List β} (h : List.Forall₂ R as bs) (same : ∀ a b, R a b → p a = q b) :
    Option.Rel R (as.find? p) (bs.find? q) := by
  induction h with
  | nil => exact .none
  | @cons a b _ _ first _ ih =>
    rw [List.find?_cons, List.find?_cons, ← same a b first]
    cases p a with
    | true => exact .some first
    | false => exact ih

variable {s t : ModuleSet} {x : Module}

theorem OfSet.counterpart (h : r.OfSet s t) (hx : x ∈ s.modules) :
    r.OfModule x (t.counterpart x) ∧ t.counterpart x ∈ t.modules := by
  obtain ⟨y, hy, same⟩ := exists_of_mem_right h.modules.flip hx
  rw [ModuleSet.counterpart_eq same.isMoved hy]
  exact ⟨same, hy⟩

theorem OfSet.identities (h : r.OfSet s t) : t.identities = s.identities :=
  map_identity h.modules

theorem OfSet.find? (h : r.OfSet s t) (identity : String) :
    Option.Rel r.OfModule (s.find? identity) (t.find? identity) :=
  rel_find? h.modules fun _ _ same => by rw [same.identity]

theorem OfSet.refl (hs : s ∈ r.sets) : r.OfSet s s :=
  ⟨rfl, rfl, List.forall₂_same.2 fun _ hx => .refl ⟨s, hs, hx⟩⟩

namespace InStep

section Sets

variable (hr : r.IsSound) {s t : ModuleSet} (hst : r.OfSet s t) {x y : Module} (h : r.OfModule x y)

include hr

theorem providersAmong (path : String) {xs ys : List Module} (modules : List.Forall₂ r.OfModule xs ys) :
    r.InStep (List.Forall₂ r.OfModule) (ModuleSet.providersAmong Session.access path xs)
      (ModuleSet.providersAmong Session.access path ys) := by
  induction modules with
  | nil => exact pure .nil
  | cons first _ ih =>
    refine (hasProto hr first path).bind fun _ _ same => ih.bind fun _ _ others => pure ?_
    subst same
    split
    · exact .cons first others
    · exact others

include hst

theorem provider (path : String) : r.InStep (Option.Rel r.OfModule) (s.provider Session.access path)
    (t.provider Session.access path) := by
  rw [ModuleSet.provider_eq, ModuleSet.provider_eq, hst.number]
  refine @remember r (.provider s.number path) _ _ ?_ fun _ _ _ => trivial
  refine (providersAmong hr path hst.modules).bind fun xs ys same => ?_
  have described := map_description same
  cases same with
  | nil => exact pure .none
  | cons first rest =>
    cases rest with
    | nil => exact pure (.some first)
    | cons second rest =>
      rw [ModuleSet.soleProvider, ModuleSet.soleProvider, described]
      · exact throw _
      all_goals simp

include h

theorem importTarget (path imported : String) :
    r.InStep (Option.Rel r.OfModule) (s.importTarget Session.access x path imported)
      (t.importTarget Session.access y path imported) := by
  rw [ModuleSet.importTarget_eq, ModuleSet.importTarget_eq]
  refine (provider hr hst imported).bind fun _ _ found => ?_
  cases found with
  | some same =>
    rw [ModuleSet.targetOf, ModuleSet.targetOf, same.identity, h.identity]
    refine pure ?_
    split
    · exact .none
    · exact .some same
  | none =>
    rw [ModuleSet.targetOf, ModuleSet.targetOf, h.description]
    exact ite Iff.rfl (fun _ => (note _ _).bind fun _ _ _ => pure .none) fun _ => throw _

/-- The imports that are kept for a mark are kept in step, whichever file they were read from. -/
theorem importsOf (path : String) : r.InStep (· = ·) (s.importsOf Session.access x path)
    (t.importsOf Session.access y path) := by
  have mark : ModuleSet.fileMark y path = ModuleSet.fileMark x path := by
    rw [ModuleSet.fileMark, ModuleSet.fileMark, h.identity]
  rw [ModuleSet.importsOf_eq, ModuleSet.importsOf_eq, hst.number, mark]
  refine @remember r (.imports s.number (ModuleSet.fileMark x path)) _ _ ?_ fun _ _ _ => trivial
  refine (read hr h path).bind fun data data' same => ?_
  subst same
  rw [ModuleSet.parseImports, ModuleSet.parseImports, hst.parser]
  cases s.parser.number with
  | none => exact ofExcept (.of_eq (fun _ => rfl) rfl)
  | some parser => exact (note _ _).bind fun _ _ _ => ofExcept (.of_eq (fun _ => rfl) rfl)

theorem importedByFile (path : String) : r.InStep (· = ·) (s.importedByFile Session.access x path)
    (t.importedByFile Session.access y path) := by
  refine (importsOf hr hst h path).bind fun imports _ same => ?_
  subst same
  have targets : r.InStep (List.Forall₂ (Option.Rel r.OfModule))
      (imports.mapM (s.importTarget Session.access x path))
      (imports.mapM (t.importTarget Session.access y path)) :=
    mapM (List.forall₂_same.2 fun imported _ => importTarget hr hst h path imported)
  refine targets.bind fun _ _ found => pure ?_
  exact (map_identity (List.rel_filterMap (fun _ _ same => same) found)).symm

theorem importedIdentities : r.InStep (· = ·) (s.importedIdentities Session.access x)
    (t.importedIdentities Session.access y) := by
  refine (protoPaths hr h).bind fun paths _ same => ?_
  subst same
  refine (mapM_eq (List.forall₂_same.2 fun path _ => importedByFile hr hst h path)).bind ?_
  exact fun _ _ same => pure (by rw [same])

theorem imported : r.InStep (List.Forall₂ r.OfModule) (s.imported Session.access x)
    (t.imported Session.access y) := by
  refine (importedIdentities hr hst h).bind fun identities _ same => pure ?_
  subst same
  exact filter_identity hst.modules identities.contains

omit h

theorem reach {queue queue' unvisited unvisited' reached reached' : List Module}
    (hqueue : List.Forall₂ r.OfModule queue queue')
    (hunvisited : List.Forall₂ r.OfModule unvisited unvisited')
    (hreached : List.Forall₂ r.OfModule reached reached') :
    r.InStep (List.Forall₂ r.OfModule) (s.reach Session.access queue unvisited reached)
      (t.reach Session.access queue' unvisited' reached') := by
  induction queue, unvisited, reached using ModuleSet.reach.induct generalizing queue' unvisited'
    reached' with
  | case1 unvisited reached =>
    cases hqueue
    rw [ModuleSet.reach, ModuleSet.reach]
    exact pure hreached
  | case2 unvisited reached y queue ih =>
    cases hqueue with
    | cons first rest =>
    rw [ModuleSet.reach, ModuleSet.reach]
    refine (importedIdentities hr hst first).bind fun found _ same => ?_
    subst same
    obtain ⟨chosen, left⟩ := divide_identity hunvisited found
    exact ih found (List.rel_append rest chosen) left (List.rel_append hreached chosen)

include h

theorem dependencies : r.InStep (List.Forall₂ r.OfDependency) (s.dependencies Session.access x)
    (t.dependencies Session.access y) := by
  unfold ModuleSet.dependencies
  rw [hst.number, h.identity]
  refine @remember r (.dependencies s.number x.identity) _ _ ?_ fun _ _ _ => trivial
  refine (imported hr hst h).bind fun direct direct' same => ?_
  have unvisited : List.Forall₂ r.OfModule
      (s.modules.filter (!ModuleSet.isAmong · (x :: direct)))
      (t.modules.filter (!ModuleSet.isAmong · (y :: direct'))) :=
    List.rel_filter (fun _ _ here => by dsimp only; rw [isAmong_eq (.cons h same) here]) hst.modules
  refine (reach hr hst same unvisited same).bind fun _ _ reached => pure ?_
  refine List.rel_map (fun _ _ here => ?_) (mergeSort_identity reached)
  exact ⟨here, isAmong_eq same here⟩

omit h

theorem checkNoCycle (h : r.OfModule x y) {ds ds' : List Dependency}
    (same : List.Forall₂ r.OfDependency ds ds') :
    r.InStep (· = ·) (s.checkNoCycle Session.access x ds) (t.checkNoCycle Session.access y ds') := by
  induction same with
  | nil => exact pure rfl
  | @cons d d' _ _ first _ ih =>
    rw [ModuleSet.checkNoCycle, ModuleSet.checkNoCycle]
    refine ite (by rw [first.module.isLocal]) (fun _ => ?_) fun _ => ih
    refine (dependencies hr hst first.module).bind fun back back' same => ?_
    have modules : List.Forall₂ r.OfModule (back.map (·.module)) (back'.map (·.module)) :=
      List.rel_map (fun _ _ same => same.module) same
    have known := isAmong_eq modules h
    rw [ModuleSet.isAmong, ModuleSet.isAmong, List.any_map, List.any_map] at known
    refine ite (Bool.eq_iff_iff.1 known.symm) (fun _ => ?_) fun _ => ih
    rw [h.description, first.module.description]
    exact throw _

end Sets

/-! ## Digests -/

section Digests

variable {s t : ModuleSet} {x y : Module}

theorem digestBy (key : ModuleKey) {ofModule ofModule' : Nat → String → DigestType → SessionM Digest}
    (h : ∀ number identity type,
      r.InStep (· = ·) (ofModule number identity type) (ofModule' number identity type)) :
    r.InStep (· = ·) (key.digestBy Session.access ofModule)
      (key.digestBy Session.access ofModule') := by
  unfold ModuleKey.digestBy
  cases key.origin with
  | known digest => exact pure rfl
  | supplied number supply =>
    exact @remember r (.keyDigest number) _ _ (load (.of_eq (fun _ => rfl) rfl) _ _)
      fun _ _ _ => trivial
  | ofModule number identity type => exact h number identity type

variable (hr : r.IsSound)

include hr

theorem findSet (number : Nat) : r.InStep (Option.Rel r.OfSet) (Session.access.findSet number)
    (Session.access.findSet number) := by
  intro σ τ h
  refine ⟨.ok ?_, h⟩
  rw [h.sets, h.sets']
  exact rel_find? hr.sets fun _ _ same => by rw [same.number]

theorem flatDigest (h : r.OfModule x y) : r.InStep (· = ·) (ModuleSet.flatDigest Session.access x)
    (ModuleSet.flatDigest Session.access y) := by
  refine (yaml h).bind fun _ _ yaml => (lock h).bind fun _ _ lock =>
    (contents hr h).bind fun _ _ files => pure ?_
  rw [yaml, lock, files]

theorem keyDigest (hst : r.OfSet s t) (key : ModuleKey)
    (earlier : ∀ u v, r.OfSet u v → u.number < s.number → ∀ x y, r.OfModule x y →
      ∀ identity type, r.InStep (· = ·)
        (u.digestWithin Session.access (ModuleSet.others u.identities identity) x type)
        (v.digestWithin Session.access (ModuleSet.others u.identities identity) y type)) :
    r.InStep (· = ·) (s.keyDigest Session.access key) (t.keyDigest Session.access key) := by
  refine digestBy key fun number identity type => (findSet hr number).bind fun _ _ found => ?_
  cases found with
  | none => exact throw _
  | @some u v same =>
    rw [ModuleSet.earlierDigest, ModuleSet.earlierDigest, same.identities]
    refine ite (by rw [same.number, hst.number]) (fun before => ?_) fun _ => throw _
    have found := same.find? identity
    generalize u.find? identity = x at found
    generalize v.find? identity = y at found
    cases found with
    | none => exact throw _
    | some here => exact earlier u v same before _ _ here identity type

theorem digestWithin (hst : r.OfSet s t) (h : r.OfModule x y) (idle : List String)
    (type : DigestType) : r.InStep (· = ·) (s.digestWithin Session.access idle x type)
      (t.digestWithin Session.access idle y type) := by
  induction s, idle, x, type using ModuleSet.digestWithin.induct generalizing t y with
  | case1 s idle x type ih ih' =>
    rw [ModuleSet.digestWithin_eq, ModuleSet.digestWithin_eq, hst.number, h.identity]
    refine @remember r (.digest s.number x.identity type) _ _ ?_ fun _ _ _ => trivial
    cases type with
    | b4 => exact flatDigest hr h
    | b5 =>
      refine ite (by rw [h.isLocal]) (fun _ => ?_) fun _ => ?_
      · refine (dependencies hr hst h).bind fun ds ds' same => ?_
        refine (checkNoCycle hr hst h same).bind fun _ _ _ => ?_
        refine (mapM_eq (same.imp fun d d' here => ?_)).bind fun _ _ digests => ?_
        · rw [ModuleSet.dependencyDigest, ModuleSet.dependencyDigest, here.module.identity]
          exact ite Iff.rfl (fun hidle => ih d hidle hst here.module) fun _ => throw _
        · refine (contents hr h).bind fun _ _ files => ofExcept (.of_eq (fun _ => rfl) ?_)
          rw [digests, files]
      · refine (declaredKeys h).bind fun keys _ same => ?_
        subst same
        refine (mapM_eq (List.forall₂_same.2 fun key _ => ?_)).bind fun _ _ digests => ?_
        · refine keyDigest hr hst key fun u v same before x y here identity type => ?_
          exact ih' identity type u before x same here
        · refine (contents hr h).bind fun _ _ files => ofExcept (.of_eq (fun _ => rfl) ?_)
          rw [digests, files]

theorem digest (hst : r.OfSet s t) (h : r.OfModule x y) (type : DigestType) :
    r.InStep (· = ·) (s.digest Session.access x type) (t.digest Session.access y type) := by
  rw [ModuleSet.digest, ModuleSet.digest, hst.identities, h.identity]
  exact digestWithin hr hst h _ type

theorem digestOfKey (key : ModuleKey) : r.InStep (· = ·) (key.digest Session.access)
    (key.digest Session.access) := by
  rw [ModuleKey.digest_eq]
  refine digestBy key fun number identity type => (findSet hr number).bind fun _ _ found => ?_
  cases found with
  | none => exact throw _
  | @some u v same =>
    rw [ModuleSet.digestOfFound, ModuleSet.digestOfFound]
    have found := same.find? identity
    generalize u.find? identity = x at found
    generalize v.find? identity = y at found
    cases found with
    | none => exact throw _
    | some here => exact digest hr same here type

end Digests

/-! ## Publishing -/

section Push

variable (hr : r.IsSound) {s t : ModuleSet} (hst : r.OfSet s t) (g : Registry)

include hr hst

theorem pinnedKey {d d' : Dependency} (same : r.OfDependency d d') :
    r.InStep (· = ·) (g.pinnedKey s Session.access d) (g.pinnedKey t Session.access d') := by
  have here := same.module
  obtain ⟨-, bucket, eq, -⟩ := same.module
  have name : Registry.requiredName d.module = Registry.requiredName d'.module := by
    rw [eq]
    rfl
  have pin : ∀ name digest, g.pin d.module name digest = g.pin d'.module name digest := by
    intro name digest
    rw [eq]
    rfl
  unfold Registry.pinnedKey
  refine (ofExcept (.of_eq (fun _ => rfl) name)).bind fun name _ same => ?_
  subst same
  refine (digest hr hst here .b5).bind fun digest _ same => ?_
  subst same
  refine (ofExcept (.of_eq (fun _ => rfl) (pin name digest))).bind fun commit _ same => ?_
  subst same
  exact ofExcept (.of_eq (fun _ => rfl) rfl)

theorem snapshot {x y : Module} (h : r.OfModule x y) :
    r.InStep (· = ·) (g.snapshot s Session.access x) (g.snapshot t Session.access y) := by
  have name : Registry.requiredName x = Registry.requiredName y := by
    obtain ⟨-, bucket, rfl, -⟩ := h
    rfl
  unfold Registry.snapshot
  refine (ofExcept (.of_eq (fun _ => rfl) name)).bind fun _ _ name => ?_
  refine (contents hr h).bind fun _ _ files => (dependencies hr hst h).bind fun _ _ same => ?_
  refine (mapM_eq (same.imp fun _ _ => pinnedKey hr hst g)).bind fun _ _ keys => ?_
  refine (yaml h).bind fun _ _ yaml => (lock h).bind fun _ _ lock => ?_
  refine (digest hr hst h .b4).bind fun _ _ b4 => (digest hr hst h .b5).bind fun _ _ b5 => pure ?_
  rw [name, files, keys, yaml, lock, b4, b5]

theorem push (fresh : CommitId) {x y : Module} (h : r.OfModule x y) :
    r.InStep (· = ·) (g.push fresh s Session.access x) (g.push fresh t Session.access y) := by
  refine (snapshot hr hst g h).bind fun stored _ same => ?_
  subst same
  refine (ofExcept (.of_eq (fun _ => rfl) rfl)).bind fun key _ same => pure ?_
  subst same
  rfl

end Push

/-! ## Everything that can be asked -/

section Asked

variable (hr : r.IsSound) {s t : ModuleSet} {f : Module → Module}

include hr

theorem query {loads : Nat → Except Error Digest} {α : Type} {x : SessionM α}
    (hx : Query r.disk loads r.sets x) : r.InStep (fun _ _ => True) x x := by
  cases hx with
  | openBucket hs hx => exact (openBucket hr (.refl ⟨_, hs, hx⟩)).mono fun _ _ _ => trivial
  | fileIndex hs hx => exact (fileIndex hr (.refl ⟨_, hs, hx⟩)).mono fun _ _ _ => trivial
  | read hs hx path => exact (read hr (.refl ⟨_, hs, hx⟩) path).mono fun _ _ _ => trivial
  | contents hs hx => exact (contents hr (.refl ⟨_, hs, hx⟩)).mono fun _ _ _ => trivial
  | yaml hs hx => exact (yaml (.refl ⟨_, hs, hx⟩)).mono fun _ _ _ => trivial
  | lock hs hx => exact (lock (.refl ⟨_, hs, hx⟩)).mono fun _ _ _ => trivial
  | declaredKeys hs hx => exact (declaredKeys (.refl ⟨_, hs, hx⟩)).mono fun _ _ _ => trivial
  | provider hs path => exact (provider hr (.refl hs) path).mono fun _ _ _ => trivial
  | dependencies hs hx =>
    exact (dependencies hr (.refl hs) (.refl ⟨_, hs, hx⟩)).mono fun _ _ _ => trivial
  | digest hs hx type =>
    exact (digest hr (.refl hs) (.refl ⟨_, hs, hx⟩) type).mono fun _ _ _ => trivial
  | keyDigest => exact (digestOfKey hr _).mono fun _ _ _ => trivial
  | push g fresh hs hx =>
    exact (push hr (.refl hs) g fresh (.refl ⟨_, hs, hx⟩)).mono fun _ _ _ => trivial

/-- An operation on a set and the same operation on what becomes of the set are done in step. -/
theorem run (hst : r.OfSet s t) (hf : ∀ x ∈ s.modules, r.OfModule x (f x)) {op : Operation}
    (hop : op.IsOn s) :
    r.InStep (fun _ _ => True) (op.run s Session.access) ((op.moved f).run t Session.access) := by
  cases op with
  | digest x type => exact (digest hr hst (hf x hop) type).mono fun _ _ _ => trivial
  | dependencies x => exact (dependencies hr hst (hf x hop)).mono fun _ _ _ => trivial
  | directDependencies x => exact (dependencies hr hst (hf x hop)).map fun _ _ _ => trivial
  | provider path => exact (provider hr hst path).mono fun _ _ _ => trivial
  | fileInfos x => exact (fileInfos hr (hf x hop)).mono fun _ _ _ => trivial
  | targetFileInfos x => exact (fileInfos hr (hf x hop)).map fun _ _ _ => trivial
  | filePaths x => exact (filePaths hr (hf x hop)).mono fun _ _ _ => trivial
  | protoPaths x => exact (protoPaths hr (hf x hop)).mono fun _ _ _ => trivial
  | visitFiles x visit => exact (fileInfos hr (hf x hop)).map fun _ _ _ => trivial
  | stat x path =>
    refine (fileIndex hr (hf x hop)).bind fun es _ same => ?_
    obtain ⟨rfl, -⟩ := same
    cases es.find? (·.path == path) with
    | some entry => exact pure trivial
    | none => exact throw _
  | hasProto x path => exact (hasProto hr (hf x hop) path).mono fun _ _ _ => trivial
  | read x path => exact (read hr (hf x hop) path).mono fun _ _ _ => trivial
  | contents x => exact (contents hr (hf x hop)).mono fun _ _ _ => trivial
  | yaml x => exact (yaml (hf x hop)).mono fun _ _ _ => trivial
  | lock x => exact (lock (hf x hop)).mono fun _ _ _ => trivial
  | declaredKeys x => exact (declaredKeys (hf x hop)).mono fun _ _ _ => trivial

end Asked

end InStep

/-- Sessions stay in step through whatever is asked of a set. -/
theorem OfSession.afterAll (hr : r.IsSound) {s t : ModuleSet} (hst : r.OfSet s t) {f : Module → Module}
    (hf : ∀ x ∈ s.modules, r.OfModule x (f x)) (h : r.OfSession σ τ) {ops : List Operation}
    (hops : ∀ op ∈ ops, op.IsOn s) :
    r.OfSession (σ.afterAll s ops) (τ.afterAll t (ops.map (Operation.moved f))) := by
  induction ops generalizing σ τ with
  | nil => exact h
  | cons op rest ih =>
    obtain ⟨hop, hrest⟩ := List.forall_mem_cons.1 hops
    exact ih (InStep.run hr hst hf hop σ τ h).2 hrest

/-! ## Sessions that start alike -/

section Mono

variable {r' : Relocation} (hd : r'.disk = r.disk) (hsets : r.sets ⊆ r'.sets)

include hd hsets

theorem OfModule.mono {x y : Module} (h : r.OfModule x y) : r'.OfModule x y := by
  obtain ⟨⟨s, hs, hx⟩, bucket, eq, same⟩ := h
  exact ⟨⟨s, hsets hs, hx⟩, bucket, eq, hd ▸ same⟩

theorem OfDependency.mono {d d' : Dependency} (h : r.OfDependency d d') : r'.OfDependency d d' :=
  ⟨h.module.mono hd hsets, h.isDirect⟩

theorem ofAnswer_mono {q : Question} {a b : q.Answer} (h : r.OfAnswer q a b) : r'.OfAnswer q a b := by
  cases q with
  | bucket source =>
    change Bucket.ShowsSame r'.disk a b
    rw [hd]
    exact h
  | provider number path =>
    cases h with
    | none => exact .none
    | some same => exact .some (same.mono hd hsets)
  | dependencies number identity => exact List.Forall₂.imp (fun _ _ same => same.mono hd hsets) h
  | _ => exact h

end Mono

end Relocation

namespace Session

open Relocation

variable {loads : Nat → Except Error Digest} {σ σ' : Session}

/-- The sets of a session, of which nothing was moved. -/
def still (σ : Session) : Relocation :=
  ⟨σ.disk, σ.sets, σ.sets⟩

theorem Reachable.isTrue (h : Reachable loads σ) {moved : List ModuleSet} {q : Question}
    {a : Except Error q.Answer} (ha : σ.memo.find? q = some a) :
    (⟨σ.disk, σ.sets, moved⟩ : Relocation).IsTrue q a := by
  have described := h.describes h.fits_world
  have plain := h.fits_world.sound.plain
  cases q with
  | bucket source =>
    intro s hs x hx same
    exact (described.answers _ a ha _ ⟨s, hs, x, hx, same, rfl⟩).trans (plain.openBucket_eq x)
  | fileIndex source =>
    intro s hs x hx same
    exact (described.answers _ a ha _ ⟨s, hs, x, hx, same, rfl⟩).trans (plain.fileIndex_eq x)
  | _ => trivial

theorem Reachable.isSound_still (h : Reachable loads σ) : σ.still.IsSound :=
  ⟨List.forall₂_same.2 fun _ hs => .refl hs, h.setsInOrder.source⟩

theorem Step.ofSession_still (step : Step loads σ σ') (hσ : Reachable loads σ)
    (h : σ.still.OfSession σ σ) : σ'.still.OfSession σ' σ' := by
  have later : Reachable loads σ' := hσ.of_reaches (.single step)
  have before := step.before
  have grown : ∀ q, Option.Rel (Agree (σ'.still.OfAnswer q)) (σ.memo.find? q) (σ.memo.find? q) := by
    intro q
    have kept := h.answers q
    generalize σ.memo.find? q = answer at kept ⊢
    cases kept with
    | none => exact .none
    | some same => exact .some (same.mono fun _ _ => ofAnswer_mono before.disk before.sets.subset)
  have kept : σ'.memo = σ.memo → σ'.still.OfSession σ' σ' := fun same =>
    ⟨rfl, rfl, rfl, rfl, same ▸ grown, fun _ _ => later.isTrue⟩
  cases step with
  | build parser additions hk =>
    rcases build_cases parser additions σ with ⟨t, -, -, after⟩ | ⟨e, -, -, after⟩
    · exact kept (by rw [after]; rfl)
    · exact kept (by rw [after])
  | retarget hs identities =>
    rcases retarget_cases _ identities σ with ⟨t, -, after⟩ | after
    · exact kept (by rw [after])
    · exact kept (by rw [after])
  | @query _ x hx =>
    have sets : (σ.after x).sets = σ.sets := hx.cumulative.sets_eq σ
    rw [still, before.disk, sets]
    exact (InStep.query hσ.isSound_still hx σ σ h).2
  | number => exact kept rfl
  | tell record => exact kept rfl

/-- Every session is in step with itself. -/
theorem Reachable.ofSession_still (h : Reachable loads σ) : σ.still.OfSession σ σ := by
  obtain ⟨disk, h⟩ := h
  induction h with
  | refl => exact ⟨rfl, rfl, rfl, rfl, fun q => by simp, by simp⟩
  | tail earlier step ih => exact step.ofSession_still ⟨disk, earlier⟩ ih

theorem build_of_outcome {parser : ImportParser} {additions : List Addition} {s : ModuleSet}
    (h : σ.outcome (Session.build parser additions) = .ok s) :
    ModuleSet.build σ.sets.length parser additions = .ok s ∧
      σ.after (Session.build parser additions) =
        { σ with sets := σ.sets ++ [s] }.enter (.built s.modules.length) := by
  rcases build_cases parser additions σ with ⟨t, built, outcome, after⟩ | ⟨e, -, outcome, -⟩
  · obtain rfl := Except.ok.inj (outcome.symm.trans h)
    exact ⟨built, after⟩
  · cases outcome.symm.trans h

section Build

variable {parser : ImportParser} {additions additions' : List Addition} {s t : ModuleSet}
variable (moved : List.Forall₂ (Addition.IsMoved σ.disk) additions additions')
variable (hs : σ.outcome (Session.build parser additions) = .ok s)
variable (ht : σ.outcome (Session.build parser additions') = .ok t)

include moved hs ht

/-- A set of moved additions, built in place of another one, is what becomes of it. -/
theorem ofSet_of_outcome :
    (⟨σ.disk, σ.sets ++ [s], σ.sets ++ [t]⟩ : Relocation).OfSet s t := by
  obtain ⟨hs, -⟩ := build_of_outcome hs
  obtain ⟨ht, -⟩ := build_of_outcome ht
  obtain ⟨number, hparser, -⟩ := ModuleSet.build_eq_ok hs
  obtain ⟨number', hparser', -⟩ := ModuleSet.build_eq_ok ht
  have modules : Agree (fun s t : ModuleSet => List.Forall₂ (Module.IsMoved σ.disk) s.modules t.modules)
      (ModuleSet.build σ.sets.length parser additions)
      (ModuleSet.build σ.sets.length parser additions') := ModuleSet.agree_build moved
  rw [hs, ht] at modules
  cases modules with
  | ok related =>
    refine ⟨number'.trans number.symm, hparser'.trans hparser.symm, ?_⟩
    obtain ⟨length, related⟩ := List.forall₂_iff_zip.1 related
    refine List.forall₂_iff_zip.2 ⟨length, fun {x y} member => ?_⟩
    obtain ⟨hx, hy⟩ := List.of_mem_zip member
    obtain ⟨eq, position, bucket⟩ := related member
    obtain ⟨set, -⟩ := ModuleSet.exists_addition_of_mem_build hs hx
    obtain ⟨set', -⟩ := ModuleSet.exists_addition_of_mem_build ht hy
    have source : y.source = x.source := by
      have ext : ∀ a b : Source, a.set = b.set → a.position = b.position → a = b := by
        rintro ⟨⟩ ⟨⟩ rfl rfl
        rfl
      exact ext _ _ (set'.trans set.symm) position
    exact ⟨⟨s, List.mem_append_right _ (List.mem_singleton.2 rfl), hx⟩, y.inputs.bucket,
      source ▸ eq, bucket⟩

/-- Two sessions that start alike, but build sets of which the files of one are moved, are in step. -/
theorem Reachable.ofSession_build (h : Reachable loads σ)
    (known : ∀ a ∈ additions, ∀ keys, a.inputs.declaredKeys.on σ.disk = .ok keys →
      ∀ key ∈ keys, key.IsKnown σ.disk loads σ.sets.length) :
    (⟨σ.disk, σ.sets ++ [s], σ.sets ++ [t]⟩ : Relocation).IsSound ∧
      (⟨σ.disk, σ.sets ++ [s], σ.sets ++ [t]⟩ : Relocation).OfSession
        (σ.after (Session.build parser additions)) (σ.after (Session.build parser additions')) := by
  have related := ofSet_of_outcome moved hs ht
  have grown : σ.sets ⊆ σ.sets ++ [s] := List.subset_append_left _ _
  have later : Reachable loads (σ.after (Session.build parser additions)) :=
    h.of_reaches (.single (.build σ parser additions known))
  obtain ⟨-, after⟩ := build_of_outcome hs
  obtain ⟨-, after'⟩ := build_of_outcome ht
  rw [after] at later ⊢
  rw [after']
  refine ⟨⟨?_, later.setsInOrder.source⟩, ⟨rfl, rfl, rfl, rfl, fun q => ?_, fun _ _ => later.isTrue⟩⟩
  · exact List.rel_append (List.forall₂_same.2 fun _ hu => .refl (grown hu)) (.cons related .nil)
  · have here : (⟨σ.disk, σ.sets ++ [s], σ.sets ++ [t]⟩ : Relocation).disk = σ.still.disk := rfl
    have kept := h.ofSession_still.answers q
    change Option.Rel _ (σ.memo.find? q) (σ.memo.find? q)
    generalize σ.memo.find? q = answer at kept ⊢
    cases kept with
    | none => exact .none
    | some same => exact .some (same.mono fun _ _ => ofAnswer_mono here grown)

end Build

end Session

end ProtoWorkspace
