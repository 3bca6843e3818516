import ProtoWorkspace.Proofs.ModuleSet.Moved
import ProtoWorkspace.Proofs.Session.Operations

/-!
# Sessions in step

Two sessions have the same sets, but in the second one the files of some modules come from other buckets,
which show the same. As long as the same is asked in both of them, they stay in step: what is asked is
answered alike, and answers to the same questions are kept. In either session the imports of files that
share a mark are those of the file that was asked for first, and this is the same file in both. So nothing
needs to be known of marks.
-/

namespace ProtoWorkspace

open Fallible

/-- Sets on a disk, and what becomes of them when the files of their modules are moved. -/
structure Relocation where
  disk : Disk
  sets : List ModuleSet
  moved : List ModuleSet

namespace Relocation

/-- Whether a module of the sets becomes another one. -/
structure OfModule (r : Relocation) (x y : Module) : Prop where
  mem : ∃ s ∈ r.sets, x ∈ s.modules
  moved : ∃ bucket, y = x.movedTo x.source bucket ∧
    Agree (Bucket.ShowsSame r.disk) (x.inputs.bucket.on r.disk) (bucket.on r.disk)

structure OfDependency (r : Relocation) (d d' : Dependency) : Prop where
  module : r.OfModule d.module d'.module
  isDirect : d'.isDirect = d.isDirect

structure OfSet (r : Relocation) (s t : ModuleSet) : Prop where
  number : t.number = s.number
  parser : t.parser = s.parser
  modules : List.Forall₂ r.OfModule s.modules t.modules

/-- Whether an answer is what becomes of another one to the same question. -/
def OfAnswer (r : Relocation) : (q : Question) → q.Answer → q.Answer → Prop
  | .bucket _, b, b' => b.ShowsSame r.disk b'
  | .provider _ _, x, y => Option.Rel r.OfModule x y
  | .dependencies _ _, ds, ds' => List.Forall₂ r.OfDependency ds ds'
  | .fileIndex _, a, a' => a = a'
  | .yaml _, a, a' => a = a'
  | .lock _, a, a' => a = a'
  | .declaredKeys _, a, a' => a = a'
  | .imports _ _, a, a' => a = a'
  | .digest _ _ _, a, a' => a = a'
  | .keyDigest _, a, a' => a = a'

/-- Whether an answer about the files of the modules with a source is what looking them up anew gives. -/
def IsTrue (r : Relocation) : (q : Question) → Except Error q.Answer → Prop
  | .bucket source, a => ∀ s ∈ r.sets, ∀ x ∈ s.modules, x.source = source →
    a = x.inputs.bucket.on r.disk
  | .fileIndex source, a => ∀ s ∈ r.sets, ∀ x ∈ s.modules, x.source = source → a = x.indexOn r.disk
  | _, _ => True

/-- Whether a session with the sets is in step with one in which they were moved. -/
structure OfSession (r : Relocation) (σ τ : Session) : Prop where
  disk : σ.disk = r.disk
  disk' : τ.disk = r.disk
  sets : σ.sets = r.sets
  sets' : τ.sets = r.moved
  answers (q : Question) :
    Option.Rel (Agree (r.OfAnswer q)) (σ.memo.find? q) (τ.memo.find? q)
  isTrue (q : Question) (a : Except Error q.Answer) : σ.memo.find? q = some a → r.IsTrue q a

structure IsSound (r : Relocation) : Prop where
  sets : List.Forall₂ r.OfSet r.sets r.moved
  source {s t : ModuleSet} {x y : Module} : s ∈ r.sets → t ∈ r.sets → x ∈ s.modules →
    y ∈ t.modules → x.source = y.source → x.inputs = y.inputs ∧ x.description = y.description

/-- Whether two things done in sessions that are in step have the same outcome, where values are the same
if they are related, and leave the sessions in step. -/
def InStep {α β : Type} (r : Relocation) (R : α → β → Prop) (x : SessionM α) (y : SessionM β) : Prop :=
  ∀ σ τ, r.OfSession σ τ → Agree R (x σ).1 (y τ).1 ∧ r.OfSession (x σ).2 (y τ).2

variable {r : Relocation} {σ τ : Session}

theorem OfSession.enter (h : r.OfSession σ τ) (e e' : Happening) :
    r.OfSession (σ.enter e) (τ.enter e') :=
  ⟨h.disk, h.disk', h.sets, h.sets', h.answers, h.isTrue⟩

theorem OfSession.store (h : r.OfSession σ τ) {q : Question} {a b : Except Error q.Answer}
    (same : Agree (r.OfAnswer q) a b) (isTrue : r.IsTrue q a) (e e' : Happening) :
    r.OfSession { σ.enter e with memo := σ.memo.store q a }
      { τ.enter e' with memo := τ.memo.store q b } where
  disk := h.disk
  disk' := h.disk'
  sets := h.sets
  sets' := h.sets'
  answers q' := by
    by_cases same' : q = q'
    · subst same'
      rw [Memo.find?_store_self, Memo.find?_store_self]
      exact .some same
    · rw [Memo.find?_store_of_ne same', Memo.find?_store_of_ne same']
      exact h.answers q'
  isTrue q' a' h' := by
    by_cases same' : q = q'
    · subst same'
      rw [Memo.find?_store_self] at h'
      exact Option.some.inj h' ▸ isTrue
    · rw [Memo.find?_store_of_ne same'] at h'
      exact h.isTrue q' a' h'

namespace InStep

variable {α β γ δ : Type} {R : α → β → Prop} {S : γ → δ → Prop}

/-! ## Putting things together -/

theorem pure {a : α} {b : β} (related : R a b) : r.InStep R (Pure.pure a) (Pure.pure b) :=
  fun _ _ h => ⟨.ok related, h⟩

theorem throw (e : Error) : r.InStep R (MonadExcept.throw e) (MonadExcept.throw e) :=
  fun _ _ h => ⟨.error e, h⟩

theorem ofExcept {x : Except Error α} {y : Except Error β} (same : Agree R x y) :
    r.InStep R (MonadExcept.ofExcept x) (MonadExcept.ofExcept y) := by
  cases same with
  | ok related => exact pure related
  | error e => exact throw e

theorem bind {x : SessionM α} {y : SessionM β} {f : α → SessionM γ} {g : β → SessionM δ}
    (hx : r.InStep R x y) (hf : ∀ a b, R a b → r.InStep S (f a) (g b)) :
    r.InStep S (x >>= f) (y >>= g) := by
  intro σ τ h
  obtain ⟨same, inStep⟩ := hx σ τ h
  rcases hσ : x σ with ⟨outcome, σ'⟩
  rcases hτ : y τ with ⟨outcome', τ'⟩
  rw [hσ, hτ] at same inStep
  dsimp only at same inStep
  cases same with
  | @ok a b related =>
    rw [SessionM.bind_of_ok hσ, SessionM.bind_of_ok hτ]
    exact hf a b related σ' τ' inStep
  | error e =>
    rw [SessionM.bind_of_error hσ, SessionM.bind_of_error hτ]
    exact ⟨.error e, inStep⟩

theorem mono {T : α → β → Prop} {x : SessionM α} {y : SessionM β} (h : r.InStep R x y)
    (hRT : ∀ a b, R a b → T a b) : r.InStep T x y :=
  fun σ τ inStep => ⟨(h σ τ inStep).1.mono hRT, (h σ τ inStep).2⟩

theorem map {x : SessionM α} {y : SessionM β} {f : α → γ} {g : β → δ} (h : r.InStep R x y)
    (hf : ∀ a b, R a b → S (f a) (g b)) : r.InStep S (f <$> x) (g <$> y) := by
  rw [map_eq_pure_bind, map_eq_pure_bind]
  exact h.bind fun a b related => pure (hf a b related)

theorem ite {p p' : Prop} [Decidable p] [Decidable p'] (same : p ↔ p') {x x' : SessionM α}
    {y y' : SessionM β} (hp : p → r.InStep R x y) (hn : ¬ p → r.InStep R x' y') :
    r.InStep R (if p then x else x') (if p' then y else y') := by
  by_cases h : p
  · rw [if_pos h, if_pos (same.1 h)]
    exact hp h
  · rw [if_neg h, if_neg (mt same.2 h)]
    exact hn h

theorem mapM {f : γ → SessionM α} {g : δ → SessionM β} {xs : List γ} {ys : List δ}
    (h : List.Forall₂ (fun c d => r.InStep R (f c) (g d)) xs ys) :
    r.InStep (List.Forall₂ R) (xs.mapM f) (ys.mapM g) := by
  induction h with
  | nil => exact pure .nil
  | cons first _ ih =>
    rw [List.mapM_cons, List.mapM_cons]
    exact first.bind fun _ _ hab => ih.bind fun _ _ hrest => pure (.cons hab hrest)

theorem mapM_eq {f : γ → SessionM α} {g : δ → SessionM α} {xs : List γ} {ys : List δ}
    (h : List.Forall₂ (fun c d => r.InStep (· = ·) (f c) (g d)) xs ys) :
    r.InStep (· = ·) (xs.mapM f) (ys.mapM g) :=
  (mapM h).mono fun as bs same => by rwa [List.forall₂_eq_eq_eq] at same

/-- The values of something done in step have the property that the outcome in the first session has. -/
theorem of_outcome {x : SessionM α} {y : SessionM β} {outcome : Except Error α} (h : r.InStep R x y)
    (known : ∀ σ τ, r.OfSession σ τ → (x σ).1 = outcome) :
    r.InStep (fun a b => R a b ∧ outcome = .ok a) x y := by
  intro σ τ inStep
  obtain ⟨same, after⟩ := h σ τ inStep
  refine ⟨?_, after⟩
  rw [known σ τ inStep] at same ⊢
  generalize (y τ).1 = outcome' at same
  cases same with
  | ok related => exact .ok ⟨related, rfl⟩
  | error e => exact .error e

theorem disk : r.InStep (fun d d' => d = r.disk ∧ d' = r.disk) Session.access.disk
    Session.access.disk :=
  fun _ _ h => ⟨.ok ⟨h.disk, h.disk'⟩, h⟩

theorem note (event event' : Event) :
    r.InStep (fun _ _ => True) (Session.access.note event) (Session.access.note event') :=
  fun _ _ h => ⟨.ok trivial, h.enter _ _⟩

theorem outcome_load (event : Event) (supply : Supply α) (σ : Session) :
    (Session.access.load event supply σ).1 = supply.on σ.disk := by
  cases supply with
  | ready a => rfl
  | deferred load =>
    change ((MonadExcept.ofExcept (load σ.disk) : SessionM α) _).1 = load σ.disk
    cases load σ.disk <;> rfl

/-- Loading something changes nothing in a session but its journal. -/
theorem after_load (event : Event) (supply : Supply α) (σ : Session) :
    ∃ journal, (Session.access.load event supply σ).2 = { σ with journal := journal } := by
  cases supply with
  | ready a => exact ⟨_, rfl⟩
  | deferred load =>
    refine ⟨(σ.enter (.event event)).journal, ?_⟩
    change ((MonadExcept.ofExcept (load σ.disk) : SessionM α) _).2 = _
    cases load σ.disk <;> rfl

theorem load {supply : Supply α} {supply' : Supply β}
    (same : Agree R (supply.on r.disk) (supply'.on r.disk)) (event event' : Event) :
    r.InStep R (Session.access.load event supply) (Session.access.load event' supply') := by
  intro σ τ h
  obtain ⟨journal, hσ⟩ := after_load event supply σ
  obtain ⟨journal', hτ⟩ := after_load event' supply' τ
  refine ⟨?_, ?_⟩
  · rw [outcome_load, outcome_load, h.disk, h.disk']
    exact same
  · rw [hσ, hτ]
    exact ⟨h.disk, h.disk', h.sets, h.sets', h.answers, h.isTrue⟩

/-- What is remembered is answered alike, whether it is asked for or was kept. -/
theorem remember {q : Question} {ask ask' : SessionM q.Answer} (h : r.InStep (r.OfAnswer q) ask ask')
    (isTrue : ∀ σ τ, r.OfSession σ τ → r.IsTrue q (ask σ).1) :
    r.InStep (r.OfAnswer q) (Session.access.remember q ask) (Session.access.remember q ask') := by
  intro σ τ inStep
  change Agree _ (Session.remember q ask σ).1 (Session.remember q ask' τ).1 ∧
    r.OfSession (Session.remember q ask σ).2 (Session.remember q ask' τ).2
  have kept := inStep.answers q
  generalize hσ : σ.memo.find? q = answer at kept
  generalize hτ : τ.memo.find? q = answer' at kept
  cases kept with
  | some same =>
    rw [Session.remember_of_find? hσ, Session.remember_of_find? hτ]
    exact ⟨same, inStep.enter _ _⟩
  | none =>
    rw [Session.remember_of_none hσ, Session.remember_of_none hτ]
    have asked : r.OfSession (σ.enter (.asked q)) (τ.enter (.asked q)) := inStep.enter _ _
    obtain ⟨same, after⟩ := h _ _ asked
    exact ⟨same, after.store same (isTrue _ _ asked) _ _⟩

end InStep

/-! ## Files -/

section Files

variable {x y : Module}

/-- In step, a bucket is the one that looking it up anew gives. -/
theorem OfSession.outcome_openBucket (inStep : r.OfSession σ τ) (hx : ∃ s ∈ r.sets, x ∈ s.modules) :
    (x.openBucket Session.access σ).1 = x.inputs.bucket.on r.disk := by
  change (Session.remember (.bucket x.source) _ σ).1 = _
  cases hσ : σ.memo.find? (.bucket x.source) with
  | some a =>
    rw [Session.remember_of_find? hσ]
    obtain ⟨s, hs, hx⟩ := hx
    exact inStep.isTrue _ a hσ s hs x hx rfl
  | none =>
    rw [Session.remember_of_none hσ]
    exact (InStep.outcome_load _ _ _).trans (by rw [← inStep.disk]; rfl)

/-- What looks up the files of a module anew, in a session. -/
def listFiles (x : Module) : SessionM (List FileEntry) := do
  let bucket ← x.openBucket Session.access
  let listing := bucket.list (← Session.access.disk)
  Session.access.note (.walkedBucket x.source x.description (ignoredPaths listing))
  MonadExcept.ofExcept (indexOfListing x.description listing)

theorem OfSession.outcome_listFiles (inStep : r.OfSession σ τ) (hx : ∃ s ∈ r.sets, x ∈ s.modules) :
    (listFiles x σ).1 = x.indexOn r.disk := by
  have opened := inStep.outcome_openBucket hx
  have before : σ.Before (x.openBucket Session.access σ).2 := Cumulative.before σ
  rw [Module.indexOn, ← opened]
  rcases hσ : x.openBucket Session.access σ with ⟨e | bucket, σ'⟩
  · rw [listFiles, SessionM.bind_of_error hσ]
    rfl
  · rw [hσ] at before
    rw [listFiles, SessionM.bind_of_ok hσ, ← inStep.disk, ← before.disk]
    change ((MonadExcept.ofExcept (indexOfListing x.description (bucket.list σ'.disk)) :
      SessionM (List FileEntry)) _).1 = indexOfListing x.description (bucket.list σ'.disk)
    cases indexOfListing x.description (bucket.list σ'.disk) <;> rfl

/-- In step, the files of a module are those that looking them up anew gives. -/
theorem OfSession.outcome_fileIndex (inStep : r.OfSession σ τ) (hx : ∃ s ∈ r.sets, x ∈ s.modules) :
    (x.fileIndex Session.access σ).1 = x.indexOn r.disk := by
  change (Session.remember (.fileIndex x.source) (listFiles x) σ).1 = _
  cases hσ : σ.memo.find? (.fileIndex x.source) with
  | some a =>
    rw [Session.remember_of_find? hσ]
    obtain ⟨s, hs, hx⟩ := hx
    exact inStep.isTrue _ a hσ s hs x hx rfl
  | none =>
    rw [Session.remember_of_none hσ]
    exact (inStep.enter (.asked _) (.asked (.fileIndex x.source))).outcome_listFiles hx

variable (hr : r.IsSound) (h : r.OfModule x y)

include hr

theorem IsSound.same_files {z : Module} (hx : ∃ s ∈ r.sets, x ∈ s.modules)
    (hz : ∃ s ∈ r.sets, z ∈ s.modules) (same : z.source = x.source) :
    x.inputs.bucket.on r.disk = z.inputs.bucket.on r.disk ∧ x.indexOn r.disk = z.indexOn r.disk := by
  obtain ⟨s, hs, hx⟩ := hx
  obtain ⟨t, ht, hz⟩ := hz
  obtain ⟨inputs, description⟩ := hr.source ht hs hz hx same
  rw [Module.indexOn, Module.indexOn, inputs, description]
  exact ⟨rfl, rfl⟩

namespace InStep

include h

theorem openBucket :
    r.InStep (fun b b' => b.ShowsSame r.disk b' ∧ x.inputs.bucket.on r.disk = .ok b)
      (x.openBucket Session.access) (y.openBucket Session.access) := by
  obtain ⟨mem, bucket, rfl, same⟩ := h
  refine of_outcome ?_ fun σ τ inStep => inStep.outcome_openBucket mem
  refine @remember r (.bucket x.source) _ _ (load same _ _) ?_
  intro σ τ inStep s hs z hz source
  rw [outcome_load, inStep.disk]
  exact (hr.same_files mem ⟨s, hs, hz⟩ source).1

theorem listFiles : r.InStep (· = ·) (Relocation.listFiles x) (Relocation.listFiles y) := by
  have opened := openBucket hr h
  obtain ⟨-, bucket, rfl, -⟩ := h
  refine opened.bind fun _ _ same => disk.bind fun d d' here => (note _ _).bind fun _ _ _ => ?_
  obtain ⟨rfl, rfl⟩ := here
  exact ofExcept (.of_eq (fun _ => rfl) (same.1.indexOfListing x.description))

theorem fileIndex : r.InStep (fun es es' => es = es' ∧ x.indexOn r.disk = .ok es)
    (x.fileIndex Session.access) (y.fileIndex Session.access) := by
  have listed := listFiles hr h
  have mem := h.mem
  refine of_outcome ?_ fun σ τ inStep => inStep.outcome_fileIndex mem
  obtain ⟨-, bucket, rfl, -⟩ := h
  refine @remember r (.fileIndex x.source) _ _ listed ?_
  intro σ τ inStep s hs z hz source
  exact (inStep.outcome_listFiles mem).trans (hr.same_files mem ⟨s, hs, hz⟩ source).2

theorem fileInfos : r.InStep (· = ·) (x.fileInfos Session.access) (y.fileInfos Session.access) := by
  have files := fileIndex hr h
  obtain ⟨-, bucket, rfl, -⟩ := h
  exact files.map fun _ _ same => congrArg (List.map x.infoOf) same.1

theorem filePaths : r.InStep (· = ·) (x.filePaths Session.access) (y.filePaths Session.access) :=
  (fileIndex hr h).map fun _ _ same => congrArg (List.map FileEntry.path) same.1

theorem protoPaths : r.InStep (· = ·) (x.protoPaths Session.access) (y.protoPaths Session.access) :=
  (fileIndex hr h).bind fun _ _ same => pure (by rw [same.1])

theorem hasProto (path : String) : r.InStep (· = ·) (x.hasProto Session.access path)
    (y.hasProto Session.access path) :=
  (fileIndex hr h).bind fun _ _ same => pure (by rw [same.1])

theorem read (path : String) : r.InStep (· = ·) (x.read Session.access path)
    (y.read Session.access path) := by
  refine (fileIndex hr h).bind fun es es' same => ?_
  obtain ⟨rfl, hes⟩ := same
  refine ite Iff.rfl (fun listed => ?_) fun _ => throw _
  refine (openBucket hr h).bind fun b b' same => (note _ _).bind fun _ _ _ =>
    disk.bind fun d d' here => ?_
  obtain ⟨rfl, rfl⟩ := here
  refine ofExcept (.of_eq (fun _ => rfl) ?_)
  -- a file that is told of is listed in the bucket, as one of a module
  obtain ⟨entry, hentry, rfl⟩ : ∃ entry ∈ es, entry.path = path := by
    simpa using listed
  obtain ⟨bucket, hb, hindex⟩ := bind_eq_ok.1 hes
  obtain rfl := Except.ok.inj (same.2.symm.trans hb)
  obtain ⟨-, rfl, -⟩ := indexOfListing_eq_ok.1 hindex
  obtain ⟨hpath, hkind⟩ := mem_moduleEntries.1 hentry
  exact same.1.read entry.path (by rw [hkind]; rfl) hpath

theorem contents : r.InStep (· = ·) (x.contents Session.access) (y.contents Session.access) := by
  refine (filePaths hr h).bind fun ps ps' same => ?_
  subst same
  refine mapM_eq (List.forall₂_same.2 fun path _ => ?_)
  exact (read hr h path).bind fun _ _ same => pure (by rw [same])

omit hr

theorem yaml : r.InStep (· = ·) (x.yaml Session.access) (y.yaml Session.access) := by
  obtain ⟨-, bucket, rfl, -⟩ := h
  exact @remember r (.yaml x.source) _ _ (load (.of_eq (fun _ => rfl) rfl) _ _) fun _ _ _ => trivial

theorem lock : r.InStep (· = ·) (x.lock Session.access) (y.lock Session.access) := by
  obtain ⟨-, bucket, rfl, -⟩ := h
  exact @remember r (.lock x.source) _ _ (load (.of_eq (fun _ => rfl) rfl) _ _) fun _ _ _ => trivial

theorem declaredKeys : r.InStep (· = ·) (x.declaredKeys Session.access)
    (y.declaredKeys Session.access) := by
  obtain ⟨-, bucket, rfl, -⟩ := h
  exact @remember r (.declaredKeys x.source) _ _ (load (.of_eq (fun _ => rfl) rfl) _ _)
    fun _ _ _ => trivial

end InStep

end Files

end Relocation

end ProtoWorkspace
