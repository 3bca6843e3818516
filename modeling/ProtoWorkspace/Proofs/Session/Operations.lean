import ProtoWorkspace.Proofs.Session.Dependencies

/-!
# Kept answers do not show

All that can be asked of a set and its modules are operations. In whatever order they are asked, as
often as one likes and whether they succeed or fail, each gives what it would have given first of all
right after the set was built.
-/

namespace ProtoWorkspace

/-- What can be asked of a set and its modules. -/
inductive Operation where
  | digest (x : Module) (type : DigestType)
  | dependencies (x : Module)
  | directDependencies (x : Module)
  | provider (path : String)
  | fileInfos (x : Module)
  | targetFileInfos (x : Module)
  | filePaths (x : Module)
  | protoPaths (x : Module)
  | visitFiles (x : Module) (visit : FileInfo → Except Error Unit)
  | stat (x : Module) (path : String)
  | hasProto (x : Module) (path : String)
  | read (x : Module) (path : String)
  | contents (x : Module)
  | yaml (x : Module)
  | lock (x : Module)
  | declaredKeys (x : Module)

namespace Operation

@[reducible] def Answer : Operation → Type
  | .digest _ _ => Digest
  | .dependencies _ | .directDependencies _ => List Dependency
  | .provider _ => Option Module
  | .fileInfos _ | .targetFileInfos _ => List FileInfo
  | .filePaths _ | .protoPaths _ => List String
  | .visitFiles _ _ => List FileInfo × Except Error Unit
  | .stat _ _ => FileInfo
  | .hasProto _ _ => Bool
  | .read _ _ => ByteArray
  | .contents _ => List (String × ByteArray)
  | .yaml _ | .lock _ => Option ObjectData
  | .declaredKeys _ => List ModuleKey

/-- The operation on a set. -/
def run {m : Type → Type} [Monad m] [MonadExcept Error m] (s : ModuleSet) (io : Access m) :
    (op : Operation) → m op.Answer
  | .digest x type => s.digest io x type
  | .dependencies x => s.dependencies io x
  | .directDependencies x => s.directDependencies io x
  | .provider path => s.provider io path
  | .fileInfos x => x.fileInfos io
  | .targetFileInfos x => x.targetFileInfos io
  | .filePaths x => x.filePaths io
  | .protoPaths x => x.protoPaths io
  | .visitFiles x visit => x.visitFiles io visit
  | .stat x path => x.stat io path
  | .hasProto x path => x.hasProto io path
  | .read x path => x.read io path
  | .contents x => x.contents io
  | .yaml x => x.yaml io
  | .lock x => x.lock io
  | .declaredKeys x => x.declaredKeys io

/-- Whether an operation is about a module of the set, if it is about one. -/
def IsOn (s : ModuleSet) : Operation → Prop
  | .provider _ => True
  | .digest x _ | .dependencies x | .directDependencies x | .fileInfos x | .targetFileInfos x
  | .filePaths x | .protoPaths x | .visitFiles x _ | .stat x _ | .hasProto x _ | .read x _
  | .contents x | .yaml x | .lock x | .declaredKeys x => x ∈ s.modules

end Operation

instance Cumulative.instStat (x : Module) (path : String) :
    Cumulative (x.stat Session.access path) := by
  unfold Module.stat
  refine Cumulative.bind inferInstance fun entries => ?_
  split <;> infer_instance

instance Cumulative.instRun (s : ModuleSet) (op : Operation) :
    Cumulative (op.run s Session.access) := by
  cases op with
  | fileInfos x => exact Cumulative.instMap _ _
  | targetFileInfos x => exact @Cumulative.instMap _ _ _ _ (Cumulative.instMap _ _)
  | visitFiles x visit => exact @Cumulative.instMap _ _ _ _ (Cumulative.instMap _ _)
  | directDependencies x => exact Cumulative.instMap _ _
  | _ =>
    unfold Operation.run
    infer_instance

namespace Follows

variable {w : World} {asking : List Question}

theorem stat (hw : w.IsSound) {s : ModuleSet} (hs : s ∈ w.sets) {x : Module} (hx : x ∈ s.modules)
    (hr : Above 1 asking) (path : String) :
    Follows w asking (x.stat Session.access path) (x.stat w.io path) := by
  refine @bind _ _ _ _ _ _ _ _ (fun entries => ?_) (fileIndex hw hs hx hr) fun entries _ => ?_
  · split <;> infer_instance
  · cases entries.find? (·.path == path) with
    | some entry => exact pure _
    | none => exact throw _

/-- An operation in a session has the answer of the world. -/
theorem run (hw : w.IsSound) {s : ModuleSet} (hs : s ∈ w.sets) (hm : s.number < w.made)
    {op : Operation} (hop : op.IsOn s) :
    Follows w [] (op.run s Session.access) (op.run s w.io) := by
  have any : ∀ {n}, Above n [] := by simp [Above]
  cases op with
  | digest x type => exact digest hw hs hm hop
  | dependencies x => exact dependencies hw hs hop any
  | directDependencies x => exact (dependencies hw hs hop any).map _
  | provider path => exact provider hw hs any path
  | fileInfos x => exact (fileIndex hw hs hop any).map _
  | targetFileInfos x => exact ((fileIndex hw hs hop any).map _).map _
  | filePaths x => exact filePaths hw hs hop any
  | protoPaths x => exact protoPaths hw hs hop any
  | visitFiles x visit => exact ((fileIndex hw hs hop any).map _).map _
  | stat x path => exact stat hw hs hop any path
  | hasProto x path => exact hasProto hw hs hop any path
  | read x path => exact read hw hs hop any path
  | contents x => exact contents hw hs hop any
  | yaml x => exact yaml hw hs hop any
  | lock x => exact lock hw hs hop any
  | declaredKeys x => exact declaredKeys hw hs hop any

end Follows

namespace Session

variable {loads : Nat → Except Error Digest} {σ σ' : Session}

/-- What only works on an answer leaves the session as the answer does. -/
theorem after_bind {α β : Type} (x : SessionM α) {f : α → SessionM β}
    (hf : ∀ a σ, after σ (f a) = σ) : σ.after (x >>= f) = σ.after x := by
  rcases h : x σ with ⟨_ | a, σ'⟩
  · rw [after, after, SessionM.bind_of_error h, h]
  · rw [after, after, SessionM.bind_of_ok h, h]
    exact hf a σ'

theorem after_map {α β : Type} (x : SessionM α) (f : α → β) : σ.after (f <$> x) = σ.after x := by
  rw [map_eq_pure_bind]
  exact after_bind x fun _ _ => rfl

theorem reaches_after_mapM {α β : Type} {f : α → SessionM β} {xs : List α}
    (hf : ∀ τ, Reaches loads σ τ → ∀ a ∈ xs, Reaches loads τ (τ.after (f a))) :
    Reaches loads σ (σ.after (xs.mapM f)) := by
  induction xs generalizing σ with
  | nil => exact .refl
  | cons a xs ih =>
    have first := hf σ .refl a List.mem_cons_self
    rw [List.mapM_cons]
    rcases h : f a σ with ⟨_ | b, τ⟩
    · rw [after, SessionM.bind_of_error h]
      rwa [after, h] at first
    · rw [after, SessionM.bind_of_ok h]
      rw [after, h] at first
      refine first.trans ?_
      have rest := ih fun υ hυ a ha => hf υ (first.trans hυ) a (List.mem_cons_of_mem _ ha)
      rwa [← after_bind (xs.mapM f) (f := fun bs => pure (b :: bs)) fun _ _ => rfl] at rest

/-- Every operation leaves the session as some question does. -/
theorem exists_query {s : ModuleSet} (hs : s ∈ σ.sets) {op : Operation} (hop : op.IsOn s) :
    ∃ (α : Type) (x : SessionM α), Query σ.disk loads σ.sets x ∧
      σ.after (op.run s access) = σ.after x := by
  cases op with
  | digest x type => exact ⟨_, _, .digest hs hop type, rfl⟩
  | dependencies x => exact ⟨_, _, .dependencies hs hop, rfl⟩
  | directDependencies x => exact ⟨_, _, .dependencies hs hop, after_map _ _⟩
  | provider path => exact ⟨_, _, .provider hs path, rfl⟩
  | fileInfos x => exact ⟨_, _, .fileIndex hs hop, after_map _ _⟩
  | targetFileInfos x => exact ⟨_, _, .fileIndex hs hop, (after_map _ _).trans (after_map _ _)⟩
  | filePaths x => exact ⟨_, _, .fileIndex hs hop, after_map _ _⟩
  | protoPaths x => exact ⟨_, _, .fileIndex hs hop, after_bind _ fun _ _ => rfl⟩
  | visitFiles x visit => exact ⟨_, _, .fileIndex hs hop, (after_map _ _).trans (after_map _ _)⟩
  | stat x path =>
    refine ⟨_, _, .fileIndex hs hop, after_bind _ fun entries _ => ?_⟩
    cases entries.find? (·.path == path) <;> rfl
  | hasProto x path => exact ⟨_, _, .fileIndex hs hop, after_bind _ fun _ _ => rfl⟩
  | read x path => exact ⟨_, _, .read hs hop path, rfl⟩
  | contents x => exact ⟨_, _, .contents hs hop, rfl⟩
  | yaml x => exact ⟨_, _, .yaml hs hop, rfl⟩
  | lock x => exact ⟨_, _, .lock hs hop, rfl⟩
  | declaredKeys x => exact ⟨_, _, .declaredKeys hs hop, rfl⟩

theorem reaches_after {s : ModuleSet} (hs : s ∈ σ.sets) {op : Operation} (hop : op.IsOn s) :
    Reaches loads σ (σ.after (op.run s access)) := by
  obtain ⟨α, x, hx, same⟩ : ∃ (α : Type) (x : SessionM α), Query σ.disk loads σ.sets x ∧
      σ.after (op.run s access) = σ.after x := exists_query hs hop
  rw [same]
  exact .single (.query σ hx)

/-- The session after several operations on a set. -/
def afterAll (σ : Session) (s : ModuleSet) (ops : List Operation) : Session :=
  ops.foldl (fun σ op => σ.after (op.run s access)) σ

theorem reaches_afterAll {s : ModuleSet} (hs : s ∈ σ.sets) {ops : List Operation}
    (hops : ∀ op ∈ ops, op.IsOn s) : Reaches loads σ (σ.afterAll s ops) := by
  induction ops generalizing σ with
  | nil => exact .refl
  | cons op rest ih =>
    obtain ⟨hop, hrest⟩ := List.forall_mem_cons.1 hops
    have step : Reaches loads σ (σ.after (op.run s access)) := reaches_after hs hop
    exact step.trans (ih (step.before.sets.subset hs) hrest)

/-- The world of a session, with fewer sets made, fits another session on the same disk that made only
sets without NUL characters in paths. -/
theorem Reachable.fits_world_of_prefix (h : Reachable loads σ) (h' : Reachable loads σ')
    (hd : σ'.disk = σ.disk) (hsets : σ.sets <+: σ'.sets)
    (hplain : ∀ t ∈ σ.sets, t.HasPlainPaths σ.disk) :
    { σ'.world loads with made := σ.sets.length }.Fits loads σ where
  sound := ⟨h'.fits_world.sound.plain, h'.fits_world.sound.inOrder⟩
  disk := hd.symm
  sets := List.prefix_iff_eq_take.1 hsets
  loads_eq := rfl
  allows := by
    rintro number mark a ha b ⟨s, hs, rfl, x, hx, hl, path, hp, rfl, rfl⟩
    replace hl : x.IsLoadable σ.disk := hd ▸ hl
    replace hp : x.HasProtoOn σ.disk path := hd ▸ hp
    have read := (h.describes h.fits_world).read _ a ha
    obtain ⟨t, ht, same, -⟩ := id read
    obtain rfl := h'.setsInOrder.eq_of_number (hsets.subset ht) hs same
    rw [read.eq_importsOn h.setsInOrder ht (hplain t ht).hasTrueMarks hx hp]
    have kept := h'.importsKept_eq hs (hd ▸ (hplain t ht).hasTrueMarks) hx (hd ▸ hl) (hd ▸ hp)
    rw [hd] at kept
    exact kept.symm

/-- An operation has the outcome of every world that fits the session after it. -/
theorem Reachable.outcome_run_of_fits (h : Reachable loads σ) {s : ModuleSet} (hs : s ∈ σ.sets)
    {op : Operation} (hop : op.IsOn s) {w : World}
    (fits : w.Fits loads (σ.after (op.run s access))) :
    σ.outcome (op.run s access) = op.run s w.io := by
  have before : σ.Before (σ.after (op.run s access)) := Cumulative.before σ
  obtain ⟨hsw, hmade⟩ := fits.sound.inOrder.of_mem_take (fits.sets ▸ before.sets.subset hs)
  exact (h.follows fits (.run fits.sound hsw hmade hop)).2

/-- What was asked in one of two sessions does not show in an answer about a set of both. -/
theorem Reachable.outcome_run_eq (h : Reachable loads σ) (h' : Reachable loads σ')
    (hd : σ'.disk = σ.disk) (hsets : σ.sets <+: σ'.sets)
    (hplain : ∀ t ∈ σ.sets, t.HasPlainPaths σ.disk) {s : ModuleSet} (hs : s ∈ σ.sets)
    {op : Operation} (hop : op.IsOn s) :
    σ'.outcome (op.run s access) = σ.outcome (op.run s access) := by
  have after : Reachable loads (σ.after (op.run s access)) :=
    h.of_reaches (reaches_after hs hop)
  have after' : Reachable loads (σ'.after (op.run s access)) :=
    h'.of_reaches (reaches_after (hsets.subset hs) hop)
  have before : σ.Before (σ.after (op.run s access)) := Cumulative.before σ
  have before' : σ'.Before (σ'.after (op.run s access)) := Cumulative.before σ'
  have sets : (σ.after (op.run s access)).sets = σ.sets := Cumulative.sets_eq σ
  have sets' : (σ'.after (op.run s access)).sets = σ'.sets := Cumulative.sets_eq σ'
  -- one world fits what comes after the operation in either session
  have fits := after.fits_world_of_prefix after' (by rw [before.disk, before'.disk, hd])
    (by rwa [sets, sets']) (by rwa [sets, before.disk])
  calc σ'.outcome (op.run s access)
    _ = op.run s ((σ'.after (op.run s access)).world loads).io :=
        h'.outcome_run_of_fits (hsets.subset hs) hop after'.fits_world
    _ = σ.outcome (op.run s access) := (h.outcome_run_of_fits hs hop fits).symm

/-- An operation has the outcome of a plain way, which gives the true imports if no path in the set
holds a NUL character. -/
theorem Reachable.exists_plain_run (h : Reachable loads σ) {s : ModuleSet} (hs : s ∈ σ.sets)
    (op : Operation) (hop : op.IsOn s) :
    ∃ io : Access (Except Error), io.IsPlain σ.disk σ.sets ∧
      (s.IsLoadable σ.disk → s.HasPlainPaths σ.disk → s.ReadsImports io σ.disk) ∧
      σ.outcome (op.run s access) = op.run s io := by
  have before : σ.Before (σ.after (op.run s access)) := Cumulative.before σ
  have sets : (σ.after (op.run s access)).sets = σ.sets := Cumulative.sets_eq σ
  have later : Reachable loads (σ.after (op.run s access)) := h.of_reaches (reaches_after hs hop)
  have fits := later.fits_world
  refine ⟨_, ?_, ?_, h.outcome_run_of_fits hs hop fits⟩
  · rw [← before.disk, ← sets]
    exact fits.sound.plain
  · rw [← before.disk]
    exact later.readsImports_world (before.sets.subset hs)

/-- What every plain way answers from the disk alone, the session answers. -/
theorem Reachable.outcome_run_of_plain (h : Reachable loads σ) {s : ModuleSet} (hs : s ∈ σ.sets)
    (op : Operation) (hop : op.IsOn s) {answer : Except Error op.Answer}
    (fromDisk : ∀ io : Access (Except Error), io.IsPlain σ.disk σ.sets → op.run s io = answer) :
    σ.outcome (op.run s access) = answer := by
  obtain ⟨io, plain, -, outcome⟩ := h.exists_plain_run hs op hop
  exact outcome.trans (fromDisk io plain)

theorem Reachable.outcome_contentsOn (h : Reachable loads σ) {s : ModuleSet} (hs : s ∈ σ.sets)
    {x : Module} (hx : x ∈ s.modules) : σ.outcome (x.contents access) = x.contentsOn σ.disk :=
  h.outcome_run_of_plain hs (.contents x) hx fun _ plain => plain.contents_eq x

theorem Reachable.mem_modules_of_dependencies (h : Reachable loads σ) {s : ModuleSet} (hs : s ∈ σ.sets)
    {x : Module} (hx : x ∈ s.modules) {ds : List Dependency}
    (hds : σ.outcome (s.dependencies access x) = .ok ds) {d : Dependency} (hd : d ∈ ds) :
    d.module ∈ s.modules := by
  obtain ⟨io, plain, -, outcome⟩ := h.exists_plain_run hs (.dependencies x) hx
  exact ModuleSet.mem_modules_of_mem_dependencies plain hx (outcome.symm.trans hds) hd

theorem Reachable.outcome_fileInfos (h : Reachable loads σ) {s : ModuleSet} (hs : s ∈ σ.sets)
    {x : Module} (hx : x ∈ s.modules) :
    σ.outcome (x.fileInfos access) = List.map x.infoOf <$> x.indexOn σ.disk :=
  h.outcome_run_of_plain hs (.fileInfos x) hx fun _ plain =>
    congrArg (List.map x.infoOf <$> ·) (plain.fileIndex_eq x)

end Session

variable {loads : Nat → Except Error Digest} {σ σ' : Session}

/-- An operation on a set has the outcome that it would have had first of all after the set was built,
whatever was done before it in a session with the same sets. No path in them holds a NUL
character. -/
theorem Session.Reachable.operation_eq_first (h : Session.Reachable loads σ) {parser : ImportParser}
    {additions : List Addition}
    (hk : ∀ a ∈ additions, ∀ keys, a.inputs.declaredKeys.on σ.disk = .ok keys →
      ∀ key ∈ keys, key.IsKnown σ.disk loads σ.sets.length)
    {s : ModuleSet} (built : σ.outcome (Session.build parser additions) = .ok s)
    (hplain : ∀ t ∈ (σ.after (Session.build parser additions)).sets, t.HasPlainPaths σ.disk)
    (h' : Session.Reachable loads σ') (hd : σ'.disk = σ.disk)
    (hsets : (σ.after (Session.build parser additions)).sets <+: σ'.sets) {ops : List Operation}
    (hops : ∀ op ∈ ops, op.IsOn s) {op : Operation} (hop : op.IsOn s) :
    (σ'.afterAll s ops).outcome (op.run s Session.access) =
      (σ.after (Session.build parser additions)).outcome (op.run s Session.access) := by
  have step : Session.Step loads σ (σ.after (Session.build parser additions)) :=
    .build σ parser additions hk
  have hs : s ∈ (σ.after (Session.build parser additions)).sets := by
    rcases Session.build_cases parser additions σ with ⟨t, ht, outcome, -⟩ | ⟨e, -, outcome, -⟩
    · rw [outcome] at built
      cases built
      exact (Session.outcome_build ht).2
    · rw [outcome] at built
      cases built
  have later : Session.Reaches loads σ' (σ'.afterAll s ops) :=
    Session.reaches_afterAll (hsets.subset hs) hops
  refine (h.of_reaches (.single step)).outcome_run_eq (h'.of_reaches later) ?_ ?_ ?_ hs hop
  · rw [later.before.disk, hd, step.before.disk]
  · exact hsets.trans later.before.sets
  · rwa [step.before.disk]

/-- In the sample, the dependencies of the first module are found after other operations as they are
found first of all. -/
theorem Sample.dependencies_eq_first :
    (Sample.session.afterAll Sample.set
        [.digest Sample.first .b5, .read Sample.second "c.proto", .dependencies Sample.second]).outcome
      ((Operation.dependencies Sample.first).run Sample.set Session.access) =
    Sample.session.outcome ((Operation.dependencies Sample.first).run Sample.set Session.access) := by
  have reachable : Session.Reachable Sample.loads {} := ⟨{}, .refl⟩
  have first := Sample.mem_modules_set.2 (.inl rfl)
  have second := Sample.mem_modules_set.2 (.inr rfl)
  refine reachable.operation_eq_first Sample.isKnown_of_addition rfl Sample.hasPlainPaths_sets
    Sample.reachable_session rfl (List.prefix_refl _) ?_ first
  intro op hop
  simp only [List.mem_cons, List.not_mem_nil, or_false] at hop
  rcases hop with rfl | rfl | rfl
  · exact first
  · exact second
  · exact second

end ProtoWorkspace
