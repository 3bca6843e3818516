import Mathlib.Tactic
import ProtoWorkspace.Proofs.Dependencies.Exact
import ProtoWorkspace.Proofs.ModuleDigest.Search
import ProtoWorkspace.Registry
import ProtoWorkspace.Session

/-!
# Sessions lose nothing

Whatever is asked in a session, the disk and the sets stay, and every answer that was kept stays.
The instances follow the definitions of the questions, so that this is known of anything that is put
together from questions.
-/

namespace ProtoWorkspace

namespace Session

/-- Whether everything in one session is still there in another. -/
structure Before (a b : Session) : Prop where
  disk : b.disk = a.disk
  sets : a.sets <+: b.sets
  memo (q : Question) (answer : Except Error q.Answer) :
    a.memo.find? q = some answer → b.memo.find? q = some answer

theorem Before.refl (a : Session) : a.Before a where
  disk := rfl
  sets := List.prefix_refl _
  memo _ _ := id

theorem Before.trans {a b c : Session} (hab : a.Before b) (hbc : b.Before c) : a.Before c where
  disk := hbc.disk.trans hab.disk
  sets := hab.sets.trans hbc.sets
  memo q answer h := hbc.memo q answer (hab.memo q answer h)

theorem before_enter (a : Session) (h : Happening) : a.Before (a.enter h) where
  disk := rfl
  sets := List.prefix_refl _
  memo _ _ := id

/-- A question that has no answer yet is asked, and its answer is kept. -/
theorem remember_of_none {σ : Session} {q : Question} (hq : σ.memo.find? q = none)
    (ask : SessionM q.Answer) :
    remember q ask σ =
      ((ask (σ.enter (.asked q))).1,
        { (ask (σ.enter (.asked q))).2.enter (.answered q (ask (σ.enter (.asked q))).1) with
          memo := (ask (σ.enter (.asked q))).2.memo.store q (ask (σ.enter (.asked q))).1 }) := by
  simp only [remember, hq]
  rfl

theorem before_store {a b : Session} {q : Question} (hq : a.memo.find? q = none)
    (hab : a.Before b) (h : Happening) (answer : Except Error q.Answer) :
    a.Before { b.enter h with memo := b.memo.store q answer } where
  disk := hab.disk
  sets := hab.sets
  memo q' answer' h' := by
    by_cases same : q = q'
    · subst same
      rw [hq] at h'
      cases h'
    · exact (Memo.find?_store_of_ne same).trans (hab.memo q' answer' h')

end Session

namespace SessionM

variable {α β : Type} {x : SessionM α} {f : α → SessionM β} {σ σ' : Session}

theorem bind_of_ok {a : α} (h : x σ = (.ok a, σ')) : (x >>= f : SessionM β) σ = f a σ' := by
  simp only [bind, ExceptT.bind, ExceptT.mk, StateT.bind, h]
  rfl

theorem bind_of_error {e : Error} (h : x σ = (.error e, σ')) :
    (x >>= f : SessionM β) σ = (.error e, σ') := by
  simp only [bind, ExceptT.bind, ExceptT.mk, StateT.bind, h]
  rfl

end SessionM

class Cumulative {α : Type} (x : SessionM α) : Prop where
  before (σ : Session) : σ.Before (x σ).2
  sets_eq (σ : Session) : (x σ).2.sets = σ.sets

namespace Cumulative

variable {α β : Type}

instance instPure (a : α) : Cumulative (pure a : SessionM α) := ⟨.refl, fun _ => rfl⟩

instance instThrow (e : Error) : Cumulative (throw e : SessionM α) := ⟨.refl, fun _ => rfl⟩

instance instOfExcept (x : Except Error α) :
    Cumulative (MonadExcept.ofExcept x : SessionM α) := by
  cases x with
  | error e => exact instThrow e
  | ok a => exact instPure a

theorem bind {x : SessionM α} {f : α → SessionM β} (hx : Cumulative x)
    (hf : ∀ a, Cumulative (f a)) : Cumulative (x >>= f) where
  before σ := by
    have first := hx.before σ
    rcases h : x σ with ⟨_ | a, σ'⟩
    · rw [SessionM.bind_of_error h]
      rwa [h] at first
    · rw [SessionM.bind_of_ok h]
      rw [h] at first
      exact first.trans ((hf a).before σ')
  sets_eq σ := by
    have first := hx.sets_eq σ
    rcases h : x σ with ⟨_ | a, σ'⟩
    · rw [SessionM.bind_of_error h]
      rwa [h] at first
    · rw [SessionM.bind_of_ok h]
      rw [h] at first
      exact ((hf a).sets_eq σ').trans first

instance instBind (x : SessionM α) (f : α → SessionM β) [hx : Cumulative x]
    [hf : ∀ a, Cumulative (f a)] : Cumulative (x >>= f) := bind hx hf

instance instMap (x : SessionM α) (f : α → β) [Cumulative x] : Cumulative (f <$> x) := by
  rw [map_eq_pure_bind]
  infer_instance

instance instIte (p : Prop) [Decidable p] (x y : SessionM α) [Cumulative x] [Cumulative y] :
    Cumulative (if p then x else y) := by
  split <;> infer_instance

instance instMapM (f : α → SessionM β) (xs : List α) [∀ a, Cumulative (f a)] :
    Cumulative (xs.mapM f) := by
  induction xs with
  | nil =>
    rw [List.mapM_nil]
    infer_instance
  | cons a xs ih =>
    rw [List.mapM_cons]
    infer_instance

instance instDisk : Cumulative Session.access.disk := ⟨.refl, fun _ => rfl⟩

instance instFindSet (number : Nat) : Cumulative (Session.access.findSet number) :=
  ⟨.refl, fun _ => rfl⟩

instance instNote (event : Event) : Cumulative (Session.access.note event) :=
  ⟨fun σ => σ.before_enter (.event event), fun _ => rfl⟩

theorem remember {q : Question} {ask : SessionM q.Answer} (h : Cumulative ask) :
    Cumulative (Session.access.remember q ask) where
  before σ := by
    change σ.Before (Session.remember q ask σ).2
    cases hq : σ.memo.find? q with
    | some answer =>
      rw [Session.remember_of_find? hq]
      exact σ.before_enter _
    | none =>
      rw [Session.remember_of_none hq]
      exact Session.before_store hq ((σ.before_enter _).trans (h.before _)) _ _
  sets_eq σ := by
    change (Session.remember q ask σ).2.sets = σ.sets
    cases hq : σ.memo.find? q with
    | some answer =>
      rw [Session.remember_of_find? hq]
      rfl
    | none =>
      rw [Session.remember_of_none hq]
      exact h.sets_eq (σ.enter (.asked q))

instance instLoad (event : Event) (supply : Supply α) :
    Cumulative (Session.access.load event supply) := by
  cases supply <;> unfold Access.load <;> infer_instance

section Files

variable (x : Module)

instance instOpenBucket : Cumulative (x.openBucket Session.access) := by
  unfold Module.openBucket
  exact remember inferInstance

instance instYaml : Cumulative (x.yaml Session.access) := by
  unfold Module.yaml
  exact remember inferInstance

instance instLock : Cumulative (x.lock Session.access) := by
  unfold Module.lock
  exact remember inferInstance

instance instDeclaredKeys : Cumulative (x.declaredKeys Session.access) := by
  unfold Module.declaredKeys
  exact remember inferInstance

instance instFileIndex : Cumulative (x.fileIndex Session.access) := by
  unfold Module.fileIndex
  exact remember inferInstance

instance instFilePaths : Cumulative (x.filePaths Session.access) := by
  unfold Module.filePaths
  infer_instance

instance instProtoPaths : Cumulative (x.protoPaths Session.access) := by
  unfold Module.protoPaths
  infer_instance

instance instHasProto (path : String) : Cumulative (x.hasProto Session.access path) := by
  unfold Module.hasProto
  infer_instance

instance instRead (path : String) : Cumulative (x.read Session.access path) := by
  unfold Module.read
  infer_instance

instance instContents : Cumulative (x.contents Session.access) := by
  unfold Module.contents
  infer_instance

end Files

section Sets

open ModuleSet

variable (s : ModuleSet)

instance instProvidersAmong (path : String) (modules : List Module) :
    Cumulative (providersAmong Session.access path modules) := by
  induction modules with
  | nil =>
    unfold providersAmong
    infer_instance
  | cons x rest ih =>
    unfold providersAmong
    infer_instance

instance instSoleProvider (path : String) (providers : List Module) :
    Cumulative (soleProvider path providers) := by
  unfold soleProvider
  split <;> infer_instance

instance instProvider (path : String) : Cumulative (s.provider Session.access path) := by
  rw [provider_eq]
  exact remember inferInstance

instance instParseImports (path : String) (data : ByteArray) :
    Cumulative (s.parseImports Session.access path data) := by
  unfold parseImports
  cases s.parser.number <;> infer_instance

instance instReadImports (x : Module) (path : String) :
    Cumulative (s.readImports Session.access x path) := by
  unfold readImports
  infer_instance

instance instImportsOf (x : Module) (path : String) :
    Cumulative (s.importsOf Session.access x path) := by
  rw [importsOf_eq]
  exact remember inferInstance

instance instTargetOf (x : Module) (path imported : String) (provider : Option Module) :
    Cumulative (targetOf Session.access x path imported provider) := by
  cases provider <;> unfold targetOf <;> infer_instance

instance instImportTarget (x : Module) (path imported : String) :
    Cumulative (s.importTarget Session.access x path imported) := by
  rw [importTarget_eq]
  infer_instance

instance instImportedByFile (x : Module) (path : String) :
    Cumulative (s.importedByFile Session.access x path) := by
  unfold importedByFile
  infer_instance

instance instImportedIdentities (x : Module) :
    Cumulative (s.importedIdentities Session.access x) := by
  unfold importedIdentities
  infer_instance

instance instImported (x : Module) : Cumulative (s.imported Session.access x) := by
  unfold imported
  infer_instance

instance instReach (queue unvisited reached : List Module) :
    Cumulative (s.reach Session.access queue unvisited reached) := by
  induction queue, unvisited, reached using reach.induct with
  | case1 unvisited reached =>
    rw [reach]
    infer_instance
  | case2 unvisited reached x queue ih =>
    rw [reach]
    exact bind inferInstance ih

instance instDependencies (x : Module) : Cumulative (s.dependencies Session.access x) := by
  unfold dependencies
  exact remember inferInstance

instance instCheckNoCycle (x : Module) (ds : List Dependency) :
    Cumulative (s.checkNoCycle Session.access x ds) := by
  induction ds with
  | nil =>
    unfold checkNoCycle
    infer_instance
  | cons d rest ih =>
    unfold checkNoCycle
    infer_instance

instance instDigestBy (key : ModuleKey) (ofModule : Nat → String → DigestType → SessionM Digest)
    [∀ number identity type, Cumulative (ofModule number identity type)] :
    Cumulative (key.digestBy Session.access ofModule) := by
  unfold ModuleKey.digestBy
  split
  · infer_instance
  · exact remember inferInstance
  · infer_instance

theorem earlierDigest {identity : String} {type : DigestType} (t : Option ModuleSet)
    (h : ∀ t : ModuleSet, t.number < s.number → ∀ y, Cumulative
      (t.digestWithin Session.access (others t.identities identity) y type)) :
    Cumulative (s.earlierDigest Session.access identity type t) := by
  unfold ModuleSet.earlierDigest
  split
  · infer_instance
  · split
    · next hlt =>
      split
      · exact h _ hlt _
      · infer_instance
    · infer_instance

instance instDigestWithin (idle : List String) (x : Module) (type : DigestType) :
    Cumulative (s.digestWithin Session.access idle x type) := by
  induction s, idle, x, type using digestWithin.induct with
  | case1 s idle x type ih ih' =>
    rw [digestWithin_eq]
    refine remember ?_
    have ofDependency : ∀ d, Cumulative (s.dependencyDigest Session.access idle d) := by
      intro d
      unfold dependencyDigest
      split
      · next hd => exact ih d hd
      · infer_instance
    have ofEarlier : ∀ identity type t,
        Cumulative (s.earlierDigest Session.access identity type t) := fun _ _ t =>
      earlierDigest s t fun _ hlt _ => ih' _ _ _ hlt _
    cases type with
    | b4 =>
      unfold soughtDigest flatDigest
      infer_instance
    | b5 =>
      unfold soughtDigest localDigest remoteDigest keyDigest
      infer_instance

instance instDependencyDigest (idle : List String) (d : Dependency) :
    Cumulative (s.dependencyDigest Session.access idle d) := by
  unfold dependencyDigest
  infer_instance

instance instEarlierDigest (identity : String) (type : DigestType) (t : Option ModuleSet) :
    Cumulative (s.earlierDigest Session.access identity type t) :=
  earlierDigest s t fun _ _ _ => inferInstance

instance instKeyDigest (key : ModuleKey) : Cumulative (s.keyDigest Session.access key) := by
  unfold keyDigest
  infer_instance

instance instDigest (x : Module) (type : DigestType) :
    Cumulative (s.digest Session.access x type) := by
  unfold digest
  infer_instance

instance instDigestOfFound (identity : String) (type : DigestType) (t : Option ModuleSet) :
    Cumulative (ModuleSet.digestOfFound Session.access identity type t) := by
  unfold digestOfFound
  split
  · infer_instance
  · split <;> infer_instance

instance instDigestOfKey (key : ModuleKey) : Cumulative (key.digest Session.access) := by
  rw [ModuleKey.digest_eq]
  infer_instance

instance instPinnedKey (r : Registry) (d : Dependency) :
    Cumulative (r.pinnedKey s Session.access d) := by
  unfold Registry.pinnedKey
  infer_instance

instance instSnapshot (r : Registry) (x : Module) :
    Cumulative (r.snapshot s Session.access x) := by
  unfold Registry.snapshot
  infer_instance

instance instPush (r : Registry) (fresh : CommitId) (x : Module) :
    Cumulative (r.push fresh s Session.access x) := by
  unfold Registry.push
  infer_instance

end Sets

end Cumulative

end ProtoWorkspace
