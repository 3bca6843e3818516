import ProtoWorkspace.Proofs.Session.Follows

/-!
# Every question of a session

Each question about modules, asked in a session that a world describes, is answered as it would be
by the world, and nothing is asked for twice.
-/

namespace ProtoWorkspace.Follows

open ModuleSet

variable {w : World} {asking : List Question}

/-! ## Files -/

section Files

variable (hw : w.IsSound) {s : ModuleSet} (hs : s ∈ w.sets) {x : Module} (hx : x ∈ s.modules)

include hw hs hx

theorem openBucket (hr : Above 0 asking) :
    Follows w asking (x.openBucket Session.access) (x.openBucket w.io) :=
  remember hw rfl (Above.not_mem hr) ⟨s, hs, x, hx, rfl, rfl⟩ (load hw _)

theorem yaml (hr : Above 0 asking) :
    Follows w asking (x.yaml Session.access) (x.yaml w.io) :=
  remember hw rfl (Above.not_mem hr) ⟨s, hs, x, hx, rfl, rfl⟩ (load hw _)

theorem lock (hr : Above 0 asking) :
    Follows w asking (x.lock Session.access) (x.lock w.io) :=
  remember hw rfl (Above.not_mem hr) ⟨s, hs, x, hx, rfl, rfl⟩ (load hw _)

theorem declaredKeys (hr : Above 0 asking) :
    Follows w asking (x.declaredKeys Session.access) (x.declaredKeys w.io) :=
  remember hw rfl (Above.not_mem hr) ⟨s, hs, x, hx, rfl, rfl⟩ (load hw _)

theorem fileIndex (hr : Above 1 asking) :
    Follows w asking (x.fileIndex Session.access) (x.fileIndex w.io) := by
  refine remember hw rfl (Above.not_mem hr) ⟨s, hs, x, hx, rfl, rfl⟩ ?_
  have inner : Above 0 (.fileIndex x.source :: asking) := hr.cons (Nat.zero_le 1) Nat.one_pos
  refine (openBucket hw hs hx inner).bind fun bucket _ => (disk hw).bind fun d _ => ?_
  exact (note hw _).bind fun _ _ => ofExcept _

theorem filePaths (hr : Above 1 asking) :
    Follows w asking (x.filePaths Session.access) (x.filePaths w.io) :=
  (fileIndex hw hs hx hr).map _

theorem protoPaths (hr : Above 1 asking) :
    Follows w asking (x.protoPaths Session.access) (x.protoPaths w.io) :=
  (fileIndex hw hs hx hr).bind fun _ _ => pure _

theorem hasProto (hr : Above 1 asking) (path : String) :
    Follows w asking (x.hasProto Session.access path) (x.hasProto w.io path) :=
  (fileIndex hw hs hx hr).bind fun _ _ => pure _

theorem read (hr : Above 1 asking) (path : String) :
    Follows w asking (x.read Session.access path) (x.read w.io path) := by
  refine (fileIndex hw hs hx hr).bind fun entries _ => ite (fun _ => ?_) fun _ => throw _
  refine (openBucket hw hs hx (hr.mono (by decide))).bind fun bucket _ => ?_
  exact (note hw _).bind fun _ _ => (disk hw).bind fun d _ => ofExcept _

theorem contents (hr : Above 1 asking) :
    Follows w asking (x.contents Session.access) (x.contents w.io) :=
  (filePaths hw hs hx hr).bind fun _ _ => mapM fun path _ =>
    (read hw hs hx hr path).bind fun _ _ => pure _

end Files

/-! ## Imports -/

/-- Something done in a session that keeps no imports of files. -/
def KeepsNoImports {α : Type} (x : SessionM α) : Prop :=
  ∀ σ number mark, (x σ).2.memo.find? (.imports number mark) =
    σ.memo.find? (.imports number mark)

namespace KeepsNoImports

variable {α β : Type}

theorem pure (a : α) : KeepsNoImports (Pure.pure a) := fun _ _ _ => rfl

theorem ofExcept (y : Except Error α) : KeepsNoImports (MonadExcept.ofExcept y) := by
  intro σ number mark
  cases y <;> rfl

theorem note (event : Event) : KeepsNoImports (Session.access.note event) := fun _ _ _ => rfl

theorem disk : KeepsNoImports Session.access.disk := fun _ _ _ => rfl

theorem bind {x : SessionM α} {f : α → SessionM β} (hx : KeepsNoImports x)
    (hf : ∀ a, KeepsNoImports (f a)) : KeepsNoImports (x >>= f) := by
  intro σ number mark
  have first := hx σ number mark
  rcases h : x σ with ⟨_ | a, σ'⟩
  · rw [SessionM.bind_of_error h, ← first, h]
  · rw [SessionM.bind_of_ok h, hf a, ← first, h]

theorem load (event : Event) (supply : Supply α) :
    KeepsNoImports (Session.access.load event supply) := by
  cases supply with
  | ready a => exact pure a
  | deferred load => exact (note event).bind fun _ => disk.bind fun d => ofExcept (load d)

theorem remember {q : Question} (hi : q.isImports = false) {ask : SessionM q.Answer}
    (h : KeepsNoImports ask) : KeepsNoImports (Session.access.remember q ask) := by
  intro σ number mark
  change (Session.remember q ask σ).2.memo.find? _ = _
  cases hn : σ.memo.find? q with
  | some answer =>
    rw [Session.remember_of_find? hn]
    rfl
  | none =>
    have other : q ≠ .imports number mark := by
      rintro rfl
      cases hi
    rw [Session.remember_of_none hn]
    exact (Memo.find?_store_of_ne other).trans (h _ number mark)

theorem read (x : Module) (path : String) : KeepsNoImports (x.read Session.access path) := by
  have bucket : KeepsNoImports (x.openBucket Session.access) := remember rfl (load _ _)
  have index : KeepsNoImports (x.fileIndex Session.access) :=
    remember rfl (bucket.bind fun _ => disk.bind fun _ => (note _).bind fun _ => ofExcept _)
  refine index.bind fun entries => ?_
  split
  · exact bucket.bind fun _ => (note _).bind fun _ => disk.bind fun _ => ofExcept _
  · exact ofExcept (.error _)

theorem readImports (s : ModuleSet) (x : Module) (path : String) :
    KeepsNoImports (s.readImports Session.access x path) := by
  refine (read x path).bind fun data => ?_
  unfold parseImports
  cases s.parser.number with
  | none => exact ofExcept _
  | some parser => exact (note _).bind fun _ => ofExcept _

end KeepsNoImports

section Imports

variable (hw : w.IsSound) {s : ModuleSet} (hs : s ∈ w.sets) {x : Module} (hx : x ∈ s.modules)

include hw hs hx

theorem readImports (hr : Above 1 asking) (path : String) :
    Follows w asking (s.readImports Session.access x path) (s.readImports w.io x path) := by
  refine (read hw hs hx hr path).bind fun data _ => ?_
  unfold parseImports
  cases s.parser.number with
  | none => exact ofExcept _
  | some parser => exact (note hw _).bind fun _ _ => ofExcept _

/-- The imports of a file are what the world says, though in a session they may have been read from
another file. -/
theorem importsOf (hr : Above 2 asking) (hl : x.IsLoadable w.disk) {path : String}
    (hp : x.HasProtoOn w.disk path) :
    Follows w asking (s.importsOf Session.access x path) (s.importsOf w.io x path) := by
  have answer : w.Answers (.imports s.number (fileMark x path)) (s.importsOf w.io x path) :=
    ⟨s, hs, rfl, x, hx, hl, path, hp, rfl, rfl⟩
  have inner : Above 1 (.imports s.number (fileMark x path) :: asking) :=
    hr.cons (by decide) (Nat.lt_succ_self 1)
  have reads := readImports hw hs hx inner path
  rw [readImports_eq hw.plain hl hp] at reads
  intro σ hσ allowed
  rw [importsOf_eq s Session.access] at allowed ⊢
  change w.Allows (Session.remember _ _ σ).2 at allowed
  change w.Describes asking (Session.remember _ _ σ).2 ∧ (Session.remember _ _ σ).1 = _
  cases hn : σ.memo.find? (.imports s.number (fileMark x path)) with
  | some a =>
    rw [Session.remember_of_find? hn]
    exact ⟨hσ.enter fun q => by simp, hσ.answers _ a hn _ answer⟩
  | none =>
    rw [Session.remember_of_none hn] at allowed ⊢
    -- the question itself had no answer before, and reading the file keeps no others
    have allowedAsk : w.Allows (s.readImports Session.access x path
        (σ.enter (.asked (.imports s.number (fileMark x path))))).2 := by
      intro number mark a ha
      have before := KeepsNoImports.readImports s x path
        (σ.enter (.asked (.imports s.number (fileMark x path)))) number mark
      refine allowed number mark a ((Memo.find?_store_of_ne ?_).trans ha)
      intro same
      obtain ⟨rfl, rfl⟩ := Question.imports.inj same
      cases hn.symm.trans (before.symm.trans ha)
    have closed : .imports s.number (fileMark x path) ∉ asking := Above.not_mem hr
    obtain ⟨hσ', outcome⟩ := reads _ (hσ.ask closed hn) allowedAsk
    have kept := allowed s.number (fileMark x path) _ (Memo.find?_store_self _ _ _)
    exact ⟨hσ'.store kept ⟨s, hs, rfl, x, hx, hl, path, hp, rfl, outcome.symm⟩, kept _ answer⟩

end Imports

/-! ## Dependencies -/

section Dependencies

variable (hw : w.IsSound) {s : ModuleSet} (hs : s ∈ w.sets) {x : Module} (hx : x ∈ s.modules)

include hw hs

theorem providersAmong (hr : Above 1 asking) (path : String) {modules : List Module}
    (hm : ∀ y ∈ modules, y ∈ s.modules) :
    Follows w asking (ModuleSet.providersAmong Session.access path modules)
      (ModuleSet.providersAmong w.io path modules) := by
  induction modules with
  | nil => exact pure []
  | cons y rest ih =>
    obtain ⟨hy, hrest⟩ := List.forall_mem_cons.1 hm
    exact (hasProto hw hs hy hr path).bind fun hasIt _ => (ih hrest).bind fun others _ => pure _

theorem provider (hr : Above 2 asking) (path : String) :
    Follows w asking (s.provider Session.access path) (s.provider w.io path) := by
  rw [provider_eq, provider_eq]
  refine remember hw rfl (Above.not_mem hr) ⟨s, hs, rfl, rfl⟩ ?_
  have inner : Above 1 (.provider s.number path :: asking) :=
    hr.cons (by decide) (Nat.lt_succ_self 1)
  refine (providersAmong hw hs inner path fun _ => id).bind fun providers _ => ?_
  rcases providers with _ | ⟨y, _ | ⟨z, rest⟩⟩
  · exact pure _
  · exact pure _
  · exact throw _

theorem importTarget (hr : Above 2 asking) (path imported : String) :
    Follows w asking (s.importTarget Session.access x path imported)
      (s.importTarget w.io x path imported) := by
  rw [importTarget_eq, importTarget_eq]
  refine (provider hw hs hr imported).bind fun y _ => ?_
  cases y with
  | some y => exact pure _
  | none => exact ite (fun _ => (note hw _).bind fun _ _ => pure _) fun _ => throw _

include hx

theorem importedByFile (hr : Above 2 asking) (hl : x.IsLoadable w.disk) {path : String}
    (hp : x.HasProtoOn w.disk path) :
    Follows w asking (s.importedByFile Session.access x path) (s.importedByFile w.io x path) :=
  (importsOf hw hs hx hr hl hp).bind fun _ _ =>
    (mapM fun imported _ => importTarget hw hs hr path imported).bind fun _ _ => pure _

theorem importedIdentities (hr : Above 2 asking) :
    Follows w asking (s.importedIdentities Session.access x) (s.importedIdentities w.io x) := by
  refine (protoPaths hw hs hx (hr.mono (by decide))).bind fun paths hpaths => ?_
  have hl : x.IsLoadable w.disk := hw.plain.succeeds_protoPaths.1 ⟨paths, hpaths⟩
  refine (mapM fun path hpath => ?_).bind fun _ _ => pure _
  exact importedByFile hw hs hx hr hl ((hw.plain.mem_protoPaths hpaths).1 hpath)

theorem imported (hr : Above 2 asking) :
    Follows w asking (s.imported Session.access x) (s.imported w.io x) :=
  (importedIdentities hw hs hx hr).bind fun _ _ => pure _

omit hx in
theorem reach (hr : Above 2 asking) {queue unvisited reached : List Module}
    (hq : ∀ y ∈ queue, y ∈ s.modules) (hu : ∀ y ∈ unvisited, y ∈ s.modules) :
    Follows w asking (s.reach Session.access queue unvisited reached)
      (s.reach w.io queue unvisited reached) := by
  induction queue, unvisited, reached using reach.induct with
  | case1 unvisited reached =>
    rw [ModuleSet.reach, ModuleSet.reach]
    exact pure reached
  | case2 unvisited reached y queue ih =>
    rw [ModuleSet.reach, ModuleSet.reach]
    obtain ⟨hy, hqueue⟩ := List.forall_mem_cons.1 hq
    refine (importedIdentities hw hs hy hr).bind fun found _ => ih found ?_ ?_
    · intro z hz
      rcases List.mem_append.1 hz with hz | hz
      · exact hqueue z hz
      · exact hu z (mem_divide_left.1 hz).1
    · exact fun z hz => hu z (mem_divide_right.1 hz).1

theorem dependencies (hr : Above 3 asking) :
    Follows w asking (s.dependencies Session.access x) (s.dependencies w.io x) := by
  refine remember hw rfl (Above.not_mem hr) ⟨s, hs, rfl, x, hx, rfl, rfl⟩ ?_
  have inner : Above 2 (.dependencies s.number x.identity :: asking) :=
    hr.cons (by decide) (Nat.lt_succ_self 2)
  refine (imported hw hs hx inner).bind fun direct hdirect => ?_
  obtain ⟨found, -, hdirect⟩ := Fallible.bind_eq_ok.1 hdirect
  cases hdirect
  refine (reach hw hs inner ?_ ?_).bind fun _ _ => pure _
  · exact fun y hy => (mem_restrict.1 hy).1
  · exact fun y hy => (List.mem_filter.1 hy).1

omit hx in
theorem checkNoCycle (hr : Above 3 asking) {ds : List Dependency}
    (hd : ∀ d ∈ ds, d.module ∈ s.modules) :
    Follows w asking (s.checkNoCycle Session.access x ds) (s.checkNoCycle w.io x ds) := by
  induction ds with
  | nil => exact pure ()
  | cons d rest ih =>
    obtain ⟨hd, hrest⟩ := List.forall_mem_cons.1 hd
    unfold ModuleSet.checkNoCycle
    refine ite (fun _ => ?_) fun _ => ih hrest
    refine (dependencies hw hs hd hr).bind fun back _ => ?_
    exact ite (fun _ => throw _) fun _ => ih hrest

end Dependencies

end ProtoWorkspace.Follows
