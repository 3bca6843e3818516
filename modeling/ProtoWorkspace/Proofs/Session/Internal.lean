import Mathlib.Tactic
import ProtoWorkspace.Proofs.Registry.Declared
import ProtoWorkspace.Proofs.Session.Once
import ProtoWorkspace.Proofs.Session.OnceOnly
import ProtoWorkspace.Proofs.Session.Passing

/-!
# Where internal errors come from

A session is in use when sets were built in it and it served requests about them: questions, other
targets, publishing, and sets of what a registry delivers. However it is used, it stays blameless: an
internal error comes from what the session was given from outside, and the declared keys of local modules
are never loaded. Nor does a function that is to run once ever find that it ran before.
-/

namespace ProtoWorkspace

open Fallible Relation

open Session (access)

/-! ## Registries -/

namespace Registry

variable {r : Registry} {keys : List ModuleKey} {additions : List Addition}

theorem isClean_find (r : Registry) (key : ModuleKey) : IsClean (r.find key) := by
  unfold find
  split
  · exact .ok _
  · exact .error rfl

theorem isClean_keyForRef (r : Registry) (name : FullName) (reference : String) :
    IsClean (r.keyForRef name reference) := by
  unfold keyForRef
  dsimp only
  split
  · exact .error rfl
  · split
    · exact ModuleKey.isClean_make _ _ _
    · exact .error rfl

theorem isClean_datas (r : Registry) (keys : List ModuleKey) : IsClean (r.provider.datas keys) :=
  .mapM fun key _ => (r.isClean_find key).bind fun _ _ => .ok _

theorem isClean_digests (r : Registry) (keys : List ModuleKey) (type : DigestType) :
    IsClean (r.provider.digests keys type) :=
  .mapM fun key _ => (r.isClean_find key).bind fun _ _ => .ok _

theorem isClean_additions (r : Registry) (keys : List ModuleKey) :
    IsClean (r.provider.additions keys) := by
  refine (r.isClean_datas keys).bind fun datas _ => ?_
  dsimp only
  split
  · exact .ok _
  · exact (r.isClean_datas _).bind fun _ _ => .ok _

/-- What a registry that came about delivers was published with keys that know their digests. -/
theorem knows_of_additions (becomes : Becomes {} r) (h : r.provider.additions keys = .ok additions) :
    ∀ a ∈ additions, ∃ keys, a.inputs.declaredKeys = .ready keys ∧
      ∀ key ∈ keys, ∃ digest, key.origin = .known digest := by
  have consistent := isConsistent_of_becomes becomes
  obtain ⟨datas, others, hdatas, hothers, rfl⟩ := additions_eq_ok_iff.1 h
  have stored {isTarget : Bool} {keys : List ModuleKey} {datas : List ModuleData}
      (hdatas : keys.mapM r.data = .ok datas) {a : Addition}
      (ha : a ∈ datas.map (Provider.additionOf isTarget)) :
      ∃ keys, a.inputs.declaredKeys = .ready keys ∧
        ∀ key ∈ keys, ∃ digest, key.origin = .known digest := by
    obtain ⟨key, -, stored, found, rfl⟩ := (mem_map_additionOf hdatas).1 ha
    exact ⟨stored.dependencies, rfl, consistent.keys (stored?_eq_some.1 found).1⟩
  intro a ha
  exact (List.mem_append.1 ha).elim (stored hdatas) (stored hothers)

end Registry

namespace ModuleSet

theorem isClean_merge (incoming : Source × Addition) (kept : List (Source × Addition)) :
    IsClean (merge incoming kept) := by
  induction kept with
  | nil => exact .ok _
  | cons old rest ih =>
    unfold merge
    split
    · exact ih.map
    · split
      · exact ih.map
      · split
        · exact .ok _
        · exact .ok _
        · exact .ok _
        · split
          · exact .ok _
          · exact .error rfl

theorem isClean_ofModules (number : Nat) (parser : ImportParser) (modules : List Module) :
    IsClean (ofModules number parser modules) := by
  intro message h
  rcases ofModules_eq_error h with ⟨id, same⟩ | ⟨id, same⟩ <;> cases same

theorem isClean_build_remote (number : Nat) (parser : ImportParser) {additions : List Addition}
    (remote : ∀ a ∈ additions, ∃ key inputs isTarget, a = .ofRemote key inputs isTarget) :
    IsClean (build number parser additions) := by
  refine IsClean.bind (.foldlM (fun kept incoming => isClean_merge incoming kept) _ _)
    fun kept hkept => ?_
  refine IsClean.bind (.mapM fun p hp => ?_) fun modules _ => isClean_ofModules number parser modules
  obtain ⟨q, hq, -, same⟩ := mem_mergeAll hkept hp
  obtain ⟨key, inputs, isTarget, form⟩ := remote q.2 (mem_of_mem_placed hq)
  rw [form] at same
  refine .of_succeeds ?_
  change Succeeds (p.2.toModule p.1)
  rw [same]
  exact Addition.succeeds_toModule_ofRemote key inputs _ _

theorem isClean_retarget (s : ModuleSet) (number : Nat) (identities : List String) :
    IsClean (s.retarget number identities) := by
  unfold retarget
  split
  · exact .error rfl
  · exact .ok _

end ModuleSet

theorem Registry.isClean_resolve (r : Registry) (number : Nat) (keys : List ModuleKey) :
    IsClean (r.resolve number keys) :=
  (r.isClean_additions keys).bind fun _ given =>
    ModuleSet.isClean_build_remote number .standard (isRemote_of_additions given)

theorem Module.isClean_toKey (x : Module) (number : Nat) (type : DigestType) :
    IsClean (x.toKey number type) := by
  unfold Module.toKey
  split
  · exact .error rfl
  · split
    · exact .error rfl
    · exact ModuleKey.isClean_make _ _ _

/-! ## Sessions in use -/

/-- What a session serves where the given sets were made: operations on a set, the digests and the keys
of modules, other targets, and what a registry is for. -/
inductive Service (disk : Disk) (loads : Nat → Except Error Digest) (sets : List ModuleSet) :
    {α : Type} → SessionM α → Prop where
  | operation {s : ModuleSet} (hs : s ∈ sets) {op : Operation} (hop : op.IsOn s)
    (offered : op.IsOffered) : Service disk loads sets (op.run s access)
  | keyDigest {key : ModuleKey} (known : key.IsKnown disk loads sets.length) :
    Service disk loads sets (key.digest access)
  | toKey {s : ModuleSet} {x : Module} (hs : s ∈ sets) (hx : x ∈ s.modules) (type : DigestType) :
    Service disk loads sets (MonadExcept.ofExcept (x.toKey s.number type) : SessionM ModuleKey)
  | retarget {s : ModuleSet} (hs : s ∈ sets) (identities : List String) :
    Service disk loads sets (Session.retarget s identities)
  | push (r : Registry) (fresh : CommitId) {s : ModuleSet} {x : Module} (hs : s ∈ sets)
    (hx : x ∈ s.modules) : Service disk loads sets (r.push fresh s access x)
  | keyForRef (r : Registry) (name : FullName) (reference : String) :
    Service disk loads sets (MonadExcept.ofExcept (r.keyForRef name reference) : SessionM ModuleKey)
  | datas (r : Registry) (keys : List ModuleKey) :
    Service disk loads sets (MonadExcept.ofExcept (r.provider.datas keys) : SessionM (List ModuleData))
  | digests (r : Registry) (keys : List ModuleKey) (type : DigestType) :
    Service disk loads sets
      (MonadExcept.ofExcept (r.provider.digests keys type) : SessionM (List Digest))
  | resolve {r : Registry} (becomes : Registry.Becomes {} r) (keys : List ModuleKey) :
    Service disk loads sets (Session.resolve r.provider keys)

namespace Session

variable {loads : Nat → Except Error Digest} {σ σ' : Session} {α : Type} {x : SessionM α}

/-- What may happen next in a session in use. -/
inductive Move (loads : Nat → Except Error Digest) : Session → Session → Prop where
  | build (σ : Session) (parser : ImportParser) (additions : List Addition)
    (known : ∀ a ∈ additions, ∀ keys, a.inputs.declaredKeys.on σ.disk = .ok keys →
      ∀ key ∈ keys, key.IsKnown σ.disk loads σ.sets.length) :
    Move loads σ (σ.after (build parser additions))
  | serve (σ : Session) {α : Type} {x : SessionM α} (service : Service σ.disk loads σ.sets x) :
    Move loads σ (σ.after x)
  | number (σ : Session) : Move loads σ (σ.after freshNumber)
  | tell (σ : Session) (record : Log.Record) : Move loads σ (σ.enter (.told record))

/-- Whether a session came about by being used. -/
def InUse (loads : Nat → Except Error Digest) (σ : Session) : Prop :=
  ∃ disk, ReflTransGen (Move loads) { disk := disk } σ

theorem after_ofExcept (σ : Session) (y : Except Error α) :
    σ.after (MonadExcept.ofExcept y : SessionM α) = σ :=
  congrArg Prod.snd (PassesOn.run_ofExcept y σ)

theorem after_resolve_of_error {p : Provider} {keys : List ModuleKey} {e : Error}
    (h : p.additions keys = .error e) : σ.after (resolve p keys) = σ := by
  rw [resolve, h]
  rfl

theorem reaches_of_service (service : Service σ.disk loads σ.sets x) :
    Reaches loads σ (σ.after x) := by
  cases service with
  | operation hs hop offered => exact reaches_after hs hop
  | keyDigest known => exact .single (.query σ (.keyDigest known))
  | retarget hs identities => exact .single (.retarget σ hs identities)
  | push r fresh hs hx => exact .single (.query σ (.push r fresh hs hx))
  | toKey | keyForRef | datas | digests =>
    rw [after_ofExcept]
    exact .refl
  | @resolve r becomes keys =>
    cases given : r.provider.additions keys with
    | ok additions =>
      rw [after_resolve given]
      exact .single (.of_known (Registry.knows_of_additions becomes given))
    | error e =>
      rw [after_resolve_of_error given]
      exact .refl

theorem Move.reaches (h : Move loads σ σ') : Reaches loads σ σ' := by
  cases h with
  | build parser additions known => exact .single (.build σ parser additions known)
  | serve service => exact reaches_of_service service
  | number => exact .single (.number σ)
  | tell record => exact .single (.tell σ record)

theorem InUse.reachable (h : InUse loads σ) : Reachable loads σ := by
  obtain ⟨disk, moves⟩ := h
  refine ⟨disk, ?_⟩
  induction moves with
  | refl => exact .refl
  | tail _ move ih => exact ih.trans move.reaches

end Session

/-! ## Local and remote modules -/

/-- Whether modules of one source are all local or all remote. -/
def AgreeOnLocality (sets : List ModuleSet) : Prop :=
  ∀ s ∈ sets, ∀ t ∈ sets, ∀ x ∈ s.modules, ∀ y ∈ t.modules, x.source = y.source →
    x.isLocal = y.isLocal

namespace AgreeOnLocality

variable {sets : List ModuleSet} {t : ModuleSet}

theorem append (h : AgreeOnLocality sets)
    (fits : ∀ x ∈ t.modules, ∀ s ∈ sets, ∀ y ∈ s.modules, x.source = y.source →
      x.isLocal = y.isLocal)
    (alone : ∀ x ∈ t.modules, ∀ y ∈ t.modules, x.source = y.source → x.isLocal = y.isLocal) :
    AgreeOnLocality (sets ++ [t]) := by
  intro s hs s' hs' x hx y hy same
  simp only [List.mem_append, List.mem_singleton] at hs hs'
  rcases hs with hs | rfl
  · rcases hs' with hs' | rfl
    · exact h s hs s' hs' x hx y hy same
    · exact (fits y hy s hs x hx same.symm).symm
  · rcases hs' with hs' | rfl
    · exact fits x hx s' hs' y hy same
    · exact alone x hx y hy same

theorem build {disk : Disk} {loads : Nat → Except Error Digest} (h : AgreeOnLocality sets)
    (inOrder : SetsInOrder disk loads sets) {parser : ImportParser} {additions : List Addition}
    (ht : ModuleSet.build sets.length parser additions = .ok t) : AgreeOnLocality (sets ++ [t]) := by
  refine h.append (fun x hx s hs y hy same => ?_) fun x hx y hy same => ?_
  · -- the sources of earlier sets have lower numbers
    have earlier := inOrder.source_le hs hy
    rw [← same, (ModuleSet.exists_addition_of_mem_build ht hx).1] at earlier
    exact absurd (inOrder.number_lt hs) (Nat.not_lt_of_le earlier)
  · rw [ModuleSet.eq_of_source_of_build ht hx hy same]

theorem retarget (h : AgreeOnLocality sets) {s : ModuleSet} (hs : s ∈ sets) {number : Nat}
    {identities : List String} (ht : s.retarget number identities = .ok t) :
    AgreeOnLocality (sets ++ [t]) := by
  have came {y : Module} (hy : y ∈ t.modules) : ∃ x ∈ s.modules, x.retargeted identities = y := by
    rw [ModuleSet.modules_of_retarget ht] at hy
    exact List.mem_map.1 hy
  refine h.append (fun x hx s' hs' y hy same => ?_) fun x hx y hy same => ?_
  · obtain ⟨x', hx', rfl⟩ := came hx
    exact h s hs s' hs' x' hx' y hy same
  · obtain ⟨x', hx', rfl⟩ := came hx
    obtain ⟨y', hy', rfl⟩ := came hy
    exact h s hs s hs x' hx' y' hy' same

end AgreeOnLocality

namespace Session

variable {loads : Nat → Except Error Digest} {σ σ' : Session} {α : Type} {x : SessionM α}

theorem Reachable.agreeOnLocality (h : Reachable loads σ) : AgreeOnLocality σ.sets := by
  obtain ⟨disk, steps⟩ := h
  induction steps with
  | refl => simp [AgreeOnLocality]
  | @tail σ σ' before step ih =>
    cases step with
    | build parser additions hk =>
      rcases build_cases parser additions σ with ⟨t, built, -, after⟩ | ⟨e, -, -, after⟩
      · rw [after]
        exact ih.build (Reachable.setsInOrder ⟨disk, before⟩) built
      · rwa [after]
    | retarget hs identities =>
      rcases retarget_cases _ identities σ with ⟨t, made, after⟩ | after
      · rw [after]
        exact ih.retarget hs made
      · rwa [after]
    | query hx =>
      rw [after, hx.cumulative.sets_eq σ]
      exact ih
    | number => exact ih
    | tell record => exact ih

/-! ## Sessions in use are blameless -/

/-- The setting of what is asked next in a session. -/
def setting (σ : Session) (loads : Nat → Except Error Digest) : Setting :=
  ⟨σ.disk, loads, σ.sets⟩

theorem IsBlameless.addSet (h : σ.IsBlameless (σ.setting loads)) (t : ModuleSet) :
    IsBlameless (setting { σ with sets := σ.sets ++ [t] } loads)
      { σ with sets := σ.sets ++ [t] } where
  disk_eq := rfl
  orderly := ⟨rfl, fun q a kept =>
    (h.orderly.answers q a kept).mono fun _ => List.mem_append_left [t]⟩
  gives q a kept := by
    have given := h.gives q a kept
    cases q with
    | bucket source | declaredKeys source =>
      obtain ⟨s, hs, rest⟩ := given
      exact ⟨s, List.mem_append_left _ hs, rest⟩
    | _ => exact trivial
  given q message kept :=
    (h.given q message kept).mono rfl (fun _ => List.mem_append_left [t]) fun _ => id
  keys source noted := by
    obtain ⟨s, hs, rest⟩ := h.keys source noted
    exact ⟨s, List.mem_append_left _ hs, rest⟩

theorem IsBlameless.build (h : σ.IsBlameless (σ.setting loads)) (parser : ImportParser)
    (additions : List Addition) :
    (σ.after (build parser additions)).IsBlameless
      ((σ.after (Session.build parser additions)).setting loads) := by
  rcases build_cases parser additions σ with ⟨t, -, -, after⟩ | ⟨e, -, -, after⟩
  · rw [after]
    exact (h.addSet t).enter (by simp)
  · rwa [after]

theorem IsBlameless.retarget (h : σ.IsBlameless (σ.setting loads)) (s : ModuleSet)
    (identities : List String) :
    (σ.after (retarget s identities)).IsBlameless
      ((σ.after (Session.retarget s identities)).setting loads) := by
  rcases retarget_cases s identities σ with ⟨t, -, after⟩ | after
  · rw [after]
    exact h.addSet t
  · rwa [after]

theorem after_passesOn {V : α → Prop} (h : σ.IsBlameless (σ.setting loads))
    (passes : PassesOn (σ.setting loads) x V) :
    (σ.after x).IsBlameless ((σ.after x).setting loads) := by
  obtain ⟨after, -⟩ := passes σ h
  have same : (σ.after x).setting loads = σ.setting loads := by
    rw [setting, setting, Session.after, after.disk_eq, after.sets_eq]
    rfl
  rw [same]
  exact after

theorem outcome_map {β : Type} (σ : Session) (x : SessionM α) (f : α → β) :
    σ.outcome (f <$> x) = f <$> σ.outcome x := by
  rw [map_eq_pure_bind]
  rcases run : x σ with ⟨_ | a, σ'⟩
  · rw [outcome, outcome, SessionM.bind_of_error run, run]
    rfl
  · rw [outcome, outcome, SessionM.bind_of_ok run, run]
    rfl

theorem outcome_retarget (σ : Session) (s : ModuleSet) (identities : List String) :
    σ.outcome (Session.retarget s identities) = s.retarget σ.sets.length identities := by
  rcases addSet_cases (fun number => s.retarget number identities) σ with
    ⟨t, made, outcome, -⟩ | ⟨e, failed, outcome, -⟩
  · exact outcome.trans made.symm
  · exact outcome.trans failed.symm

/-- Whether a session that is left by a service is blameless, and an internal error is one that was
given. -/
def ServesWell (loads : Nat → Except Error Digest) (σ : Session) (x : SessionM α) : Prop :=
  (σ.after x).IsBlameless ((σ.after x).setting loads) ∧
    ∀ message, σ.outcome x = .error (.internal message) →
      (σ.after x).WasGiven loads (.internal message)

theorem servesWell_of_passesOn {V : α → Prop} (h : σ.IsBlameless (σ.setting loads))
    (passes : PassesOn (σ.setting loads) x V) : ServesWell loads σ x :=
  ⟨after_passesOn h passes, (passes σ h).2.2⟩

theorem servesWell_of_service (h : σ.IsBlameless (σ.setting loads)) (hσ : Reachable loads σ)
    (service : Service σ.disk loads σ.sets x) : ServesWell loads σ x := by
  have inOrder := hσ.setsInOrder
  have clean {β : Type} {y : Except Error β} (hy : IsClean y) :
      ServesWell loads σ (MonadExcept.ofExcept y : SessionM β) :=
    servesWell_of_passesOn h (.ofClean hy)
  cases service with
  | operation hs hop offered =>
    exact servesWell_of_passesOn h (ModuleSet.passes_run inOrder hs hop offered)
  | keyDigest known => exact servesWell_of_passesOn h (ModuleKey.passes_digest inOrder known)
  | push r fresh hs hx => exact servesWell_of_passesOn h (Registry.passes_push inOrder r fresh hs hx)
  | toKey hs hx type => exact clean (Module.isClean_toKey _ _ type)
  | keyForRef r name reference => exact clean (r.isClean_keyForRef name reference)
  | datas r keys => exact clean (r.isClean_datas keys)
  | digests r keys type => exact clean (r.isClean_digests keys type)
  | @retarget s hs identities =>
    refine ⟨h.retarget s identities, fun message failed => ?_⟩
    rw [outcome_retarget] at failed
    exact absurd failed (s.isClean_retarget _ identities message)
  | @resolve r becomes keys =>
    refine ⟨?_, fun message failed => ?_⟩
    · cases given : r.provider.additions keys with
      | ok additions =>
        rw [after_resolve given]
        exact h.build .standard additions
      | error e => rwa [after_resolve_of_error given]
    · rw [outcome_resolve] at failed
      exact absurd failed (r.isClean_resolve _ keys message)

theorem Move.isBlameless (h : Move loads σ σ') (hσ : Reachable loads σ)
    (blameless : σ.IsBlameless (σ.setting loads)) : σ'.IsBlameless (σ'.setting loads) := by
  cases h with
  | build parser additions known => exact blameless.build parser additions
  | serve service => exact (servesWell_of_service blameless hσ service).1
  | number => exact ⟨rfl, ⟨rfl, blameless.orderly.answers⟩, blameless.gives,
      fun q message kept => (blameless.given q message kept).mono rfl (fun _ => id) fun _ => id,
      blameless.keys⟩
  | tell record => exact blameless.enter (by simp)

theorem InUse.isBlameless (h : InUse loads σ) : σ.IsBlameless (σ.setting loads) := by
  obtain ⟨disk, moves⟩ := h
  induction moves with
  | refl =>
    refine ⟨rfl, ⟨rfl, fun q a kept => ?_⟩, fun q a kept => ?_, fun q message kept => ?_, ?_⟩
    · rw [Memo.find?_empty] at kept
      cases kept
    · rw [Memo.find?_empty] at kept
      cases kept
    · rw [Memo.find?_empty] at kept
      cases kept
    · rintro source ⟨⟩
  | tail before move ih => exact move.isBlameless (InUse.reachable ⟨disk, before⟩) ih

theorem InUse.not_notes_loadedKeys (h : InUse loads σ) {s : ModuleSet} (hs : s ∈ σ.sets) {x : Module}
    (hx : x ∈ s.modules) (isLocal : x.isLocal = true) : ¬ σ.Notes (.loadedKeys x.source) := by
  intro noted
  obtain ⟨t, ht, y, hy, same, remote⟩ := h.isBlameless.keys x.source noted
  have agree := h.reachable.agreeOnLocality t ht s hs y hy x hx same
  rw [remote, isLocal] at agree
  cases agree

end Session

/-- The error that ends a round of visits is that of a visit. -/
theorem exists_visit_of_visitAll {α : Type} {visit : α → Except Error Unit} {xs visited : List α}
    {e : Error} (h : visitAll visit xs = (visited, .error e)) : ∃ a ∈ visited, visit a = .error e := by
  induction xs generalizing visited with
  | nil => cases h
  | cons a xs ih =>
    rw [visitAll] at h
    split at h
    · obtain ⟨rest, outcome⟩ := Prod.mk.inj h
      obtain ⟨b, hb, failed⟩ := ih (Prod.ext rfl outcome)
      exact ⟨b, rest ▸ List.mem_cons_of_mem _ hb, failed⟩
    · next failed =>
      cases h
      exact ⟨a, List.mem_singleton.2 rfl, failed⟩

/-- However a session is used, a service fails with an internal error only where something that was
given from outside was used and returned that error. The declared keys of local modules are never
loaded. A round of visits to files ends with an internal error only where a visit does. A supply that is
loaded once gives at every call what it loads, never that it was loaded before. And to load what a module or
a key was made with is to call the function of such a supply, which may have been called before. -/
theorem Session.InUse.internal_was_given {loads : Nat → Except Error Digest} {σ : Session}
    (h : Session.InUse loads σ) :
    (∀ (α : Type) (x : SessionM α), Service σ.disk loads σ.sets x → ∀ message,
      σ.outcome x = .error (.internal message) → (σ.after x).WasGiven loads (.internal message)) ∧
    (∀ s ∈ σ.sets, ∀ x ∈ s.modules, x.isLocal = true → ¬ σ.Notes (.loadedKeys x.source)) ∧
    (∀ (x : Module) (visit : FileInfo → Except Error Unit) (visited : List FileInfo) (e : Error),
      σ.outcome (x.visitFiles access visit) = .ok (visited, .error e) →
        ∃ info ∈ visited, visit info = .error e) ∧
    (∀ (α : Type) (supply : Supply α) (calls : Nat),
      ((fun f => f.call.2)^[calls] (supply.onceOnly σ.disk)).call.1 =
        .returned (supply.on σ.disk)) ∧
    ∀ (q : Question) (supply : Supply q.Answer) (x : SessionM q.Answer),
      Session.Fetches σ.disk loads σ.sets q supply x →
        (∃ calls, σ.onceOnly q supply = (fun f => f.call.2)^[calls] (supply.onceOnly σ.disk)) ∧
        (σ.onceOnly q supply).call = (.returned (σ.outcome x), (σ.after x).onceOnly q supply) := by
  refine ⟨fun α x service message failed => ?_, fun s hs x hx isLocal => ?_, ?_, ?_, ?_⟩
  · exact (Session.servesWell_of_service h.isBlameless h.reachable service).2 message failed
  · exact h.not_notes_loadedKeys hs hx isLocal
  · intro x visit visited e outcome
    obtain ⟨infos, -, visits⟩ := map_eq_ok.1 ((Session.outcome_map σ _ _).symm.trans outcome)
    exact exists_visit_of_visitAll visits
  · intro α supply calls
    exact (supply.returns_onceOnly σ.disk).call_iterate calls
  · exact fun q supply x fetches => h.reachable.calls_onceOnly fetches

namespace Sample

/-- A remote module whose bucket cannot be loaded. -/
def lostRemote : Addition :=
  { olderRemote with
    inputs := { olderRemote.inputs with
      bucket := .deferred fun _ => .error (.internal "no bucket") } }

def lostSession : Session :=
  ({} : Session).after (Session.build parser [addition "a" isValid_a, lostRemote])

theorem inUse_lostSession : Session.InUse loads lostSession := by
  refine ⟨{}, .single (.build _ _ _ fun a ha keys given => ?_)⟩
  simp only [List.mem_cons, List.not_mem_nil, or_false] at ha
  rcases ha with rfl | rfl
  · cases given
  · cases given
    exact List.forall_mem_nil _

theorem exists_lost : ∃ s ∈ lostSession.sets, ∃ x ∈ s.modules, x.inputs = lostRemote.inputs :=
  ⟨_, List.mem_singleton.2 rfl, _, .tail _ (.head _), rfl⟩

end Sample

/-- In a session with a remote module whose bucket cannot be loaded, its files cannot be told, and the
internal error was given by what loads the bucket. No keys of local modules were loaded for that. -/
theorem Sample.internal_was_lost : ∃ s ∈ lostSession.sets, ∃ x ∈ s.modules,
    lostSession.outcome (x.fileInfos access) = .error (.internal "no bucket") ∧
    (lostSession.after (x.fileInfos access)).WasGiven loads (.internal "no bucket") ∧
    ∀ y ∈ s.modules, y.isLocal = true →
      ¬ (lostSession.after (x.fileInfos access)).Notes (.loadedKeys y.source) := by
  obtain ⟨s, hs, x, hx, inputs⟩ := exists_lost
  have hop : (Operation.fileInfos x).IsOn s := hx
  have service : Service lostSession.disk loads lostSession.sets (x.fileInfos access) :=
    .operation hs hop trivial
  have outcome : lostSession.outcome (x.fileInfos access) = .error (.internal "no bucket") := by
    rw [inUse_lostSession.reachable.outcome_fileInfos hs hx, Module.indexOn, inputs]
    rfl
  obtain ⟨disk, moves⟩ := inUse_lostSession
  have later : Session.InUse loads (lostSession.after (x.fileInfos access)) :=
    ⟨disk, moves.tail (.serve _ service)⟩
  have kept : s ∈ (lostSession.after (x.fileInfos access)).sets :=
    (Session.reaches_of_service service).before.sets.subset hs
  refine ⟨s, hs, x, hx, outcome, ?_, later.internal_was_given.2.1 s kept⟩
  exact inUse_lostSession.internal_was_given.1 _ _ service _ outcome

end ProtoWorkspace
