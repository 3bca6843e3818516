import Mathlib.Tactic
import ProtoWorkspace.Program.Commands
import ProtoWorkspace.Proofs.ModuleSet.Contents
import ProtoWorkspace.Proofs.Session.Reachable

/-!
# What a lock file lists

A lock file lists the modules of a set that have a name and a commit, sorted by name, each with its
digest. The digests are those that the session keeps. Hence a lock file that was made once is made
again, whatever has become of the disk since then.
-/

namespace ProtoWorkspace

open Fallible

open Session (access)

/-- The modules with a name and a commit. -/
def ModuleSet.pinned (s : ModuleSet) : List Module :=
  s.modules.filter fun x => x.name.isSome && !x.commit.isNone

theorem ModuleSet.mem_pinned_iff {s : ModuleSet} {x : Module} :
    x ∈ s.pinned ↔ x ∈ s.modules ∧ (∃ name, x.name = some name) ∧ x.commit.isNone = false := by
  simp [pinned, Option.isSome_iff_exists]

namespace LockFile

/-- Whether a lock file lists exactly the modules with a name and a commit, each with its commit and
digest, sorted by name. -/
structure Records (l : LockFile) (s : ModuleSet) (digestOf : Module → Except Error Digest) :
    Prop where
  digested : ∀ x ∈ s.pinned, Succeeds (digestOf x)
  mem_iff (r : LockedModule) : r ∈ l.modules ↔ ∃ x ∈ s.modules, x.name = some r.name ∧
    x.commit.isNone = false ∧ r.commit = x.commit.plain ∧ digestOf x = .ok r.digest
  sorted : l.modules.Pairwise fun a b => a.name.text < b.name.text

variable {l l' : LockFile} {s : ModuleSet} {digestOf : Module → Except Error Digest}

theorem Records.nodup (h : l.Records s digestOf) : l.modules.Nodup := by
  refine h.sorted.imp ?_
  rintro a b hab rfl
  exact absurd hab (lt_irrefl _)

/-- There is only one lock file that lists given digests. -/
theorem Records.unique (h : l.Records s digestOf) (h' : l'.Records s digestOf) : l = l' := by
  have members (r : LockedModule) : r ∈ l.modules ↔ r ∈ l'.modules := by
    rw [h.mem_iff, h'.mem_iff]
  have perm := (List.perm_ext_iff_of_nodup h.nodup h'.nodup).2 members
  have modules : l.modules = l'.modules := perm.eq_of_pairwise
    (fun a b _ _ hab hba => absurd hab hba.asymm) h.sorted h'.sorted
  cases l
  cases l'
  exact congrArg LockFile.mk modules

end LockFile

/-! ## Digests that a session keeps -/

namespace Session

variable {σ σ' : Session} {s : ModuleSet} {x : Module} {type : DigestType}

/-- Whether a set is the one that its number stands for. -/
def Has (σ : Session) (s : ModuleSet) : Prop :=
  σ.sets.find? (·.number == s.number) = some s

/-- Every set that was made is the one that its number stands for. -/
theorem Reachable.has {loads : Nat → Except Error Digest} (h : Reachable loads σ)
    (hs : s ∈ σ.sets) : σ.Has s := by
  have isSome : (σ.sets.find? (·.number == s.number)).isSome :=
    List.find?_isSome.2 ⟨s, hs, beq_self_eq_true _⟩
  obtain ⟨t, found⟩ := Option.isSome_iff_exists.1 isSome
  have number : t.number = s.number := by simpa using List.find?_some found
  rwa [h.setsInOrder.eq_of_number (List.mem_of_find?_eq_some found) hs number] at found

/-- The digest of a module of a set, or the error in its place. -/
def digestOf (σ : Session) (s : ModuleSet) (type : DigestType) (x : Module) :
    Except Error Digest :=
  σ.outcome (s.digest access x type)

/-- Whether all sets and answers of one session are still there in another, whatever has become of
the disk. -/
structure KeptBy (a b : Session) : Prop where
  sets : a.sets <+: b.sets
  memo (q : Question) (answer : Except Error q.Answer) :
    a.memo.find? q = some answer → b.memo.find? q = some answer

theorem Before.keptBy {a b : Session} (h : a.Before b) : a.KeptBy b :=
  ⟨h.sets, h.memo⟩

theorem KeptBy.trans {a b c : Session} (hab : a.KeptBy b) (hbc : b.KeptBy c) : a.KeptBy c where
  sets := hab.sets.trans hbc.sets
  memo q answer h := hbc.memo q answer (hab.memo q answer h)

/-- Whether the digest of a module is kept, or the error in its place. -/
def KeepsDigest (σ : Session) (s : ModuleSet) (type : DigestType) (x : Module)
    (answer : Except Error Digest) : Prop :=
  σ.memo.find? (.digest s.number x.identity type) = some answer

theorem Has.of_keptBy (h : σ.Has s) (hk : σ.KeptBy σ') : σ'.Has s := by
  obtain ⟨more, hm⟩ := hk.sets
  rw [Has, ← hm, List.find?_append, show σ.sets.find? _ = some s from h]
  rfl

theorem KeepsDigest.of_keptBy {answer : Except Error Digest} (h : σ.KeepsDigest s type x answer)
    (hk : σ.KeptBy σ') : σ'.KeepsDigest s type x answer :=
  hk.memo _ _ h

/-- An answer that was given is kept. -/
theorem find?_of_remember {q : Question} {ask : SessionM q.Answer} {answer : Except Error q.Answer}
    (h : access.remember q ask σ = (answer, σ')) : σ'.memo.find? q = some answer := by
  cases hq : σ.memo.find? q with
  | some kept =>
    have recalled : access.remember q ask σ = _ := remember_of_find? hq
    cases recalled.symm.trans h
    exact hq
  | none =>
    have asked : access.remember q ask σ = _ := remember_of_none hq ask
    cases asked.symm.trans h
    exact Memo.find?_store_self _ _ _

theorem keepsDigest_digest (σ : Session) (s : ModuleSet) (type : DigestType) (x : Module) :
    (σ.after (s.digest access x type)).KeepsDigest s type x (σ.digestOf s type x) := by
  rw [digestOf, ModuleSet.digest, ModuleSet.digestWithin_eq]
  exact find?_of_remember rfl

theorem KeepsDigest.digestOf_eq {answer : Except Error Digest} (h : σ.KeepsDigest s type x answer) :
    σ.digestOf s type x = answer := by
  rw [digestOf, ModuleSet.digest, ModuleSet.digestWithin_eq]
  exact congrArg Prod.fst (remember_of_find? h)

end Session

/-! ## Keys and records -/

variable {σ σ' : Session} {s : ModuleSet} {x : Module} {type : DigestType}

/-- Whether a key stands for a module of the set with a number. -/
structure ModuleKey.IsOf (key : ModuleKey) (x : Module) (number : Nat) (type : DigestType) :
    Prop where
  name : x.name = some key.name
  commit : key.commit = x.commit
  origin : key.origin = .ofModule number x.identity type

theorem Module.toKey_pinned (hx : x ∈ s.pinned) (number : Nat) (type : DigestType) :
    ∃ key, x.toKey number type = .ok key ∧ key.IsOf x number type := by
  obtain ⟨-, ⟨name, hn⟩, hc⟩ := ModuleSet.mem_pinned_iff.1 hx
  refine ⟨⟨name, x.commit, .ofModule number x.identity type, hc⟩, ?_, hn, rfl, rfl⟩
  simp [Module.toKey, hn, hc, ModuleKey.make]

/-- The key of a module leads back to it. -/
theorem ModuleKey.IsOf.digest_eq {key : ModuleKey} (h : key.IsOf x s.number type)
    (hs : σ.Has s) (hx : x ∈ s.modules) :
    key.digest access σ = s.digest access x type σ := by
  have found : s.find? x.identity = some x := ModuleSet.find?_eq_some.2 ⟨hx, rfl⟩
  have set : access.findSet s.number σ = (.ok (some s), σ) := by
    change (Except.ok (σ.sets.find? (·.number == s.number)), σ) = _
    rw [show σ.sets.find? _ = some s from hs]
  rw [ModuleKey.digest_eq, ModuleKey.digestBy, h.origin]
  dsimp only
  rw [SessionM.bind_of_ok set, ModuleSet.digestOfFound, found]

/-- All modules with a name and a commit have keys. -/
theorem exists_keys {xs : List Module} (hx : ∀ x ∈ xs, x ∈ s.pinned) (number : Nat)
    (type : DigestType) :
    ∃ keys, List.Forall₂ (fun x key => ModuleKey.IsOf key x number type) xs keys ∧
      ∀ σ, (xs.mapM fun x => MonadExcept.ofExcept (x.toKey number type) : SessionM _) σ =
        (.ok keys, σ) := by
  induction xs with
  | nil => exact ⟨[], .nil, fun _ => rfl⟩
  | cons x xs ih =>
    rw [List.forall_mem_cons] at hx
    obtain ⟨key, made, isOf⟩ := Module.toKey_pinned hx.1 number type
    obtain ⟨keys, all, run⟩ := ih hx.2
    refine ⟨key :: keys, .cons isOf all, fun σ => ?_⟩
    have first : (MonadExcept.ofExcept (x.toKey number type) : SessionM _) σ = (.ok key, σ) := by
      rw [made]
      rfl
    rw [List.mapM_cons, SessionM.bind_of_ok first, SessionM.bind_of_ok (run σ)]
    rfl

/-- Whether a record has the commit of a module and the digest that is kept. -/
structure LockedModule.IsOf (r : LockedModule) (σ : Session) (s : ModuleSet) (type : DigestType)
    (x : Module) : Prop where
  name : x.name = some r.name
  commit : r.commit = x.commit.plain
  digest : σ.KeepsDigest s type x (.ok r.digest)

theorem LockedModule.IsOf.of_keptBy {r : LockedModule} (h : r.IsOf σ s type x)
    (hk : σ.KeptBy σ') : r.IsOf σ' s type x :=
  ⟨h.name, h.commit, h.digest.of_keptBy hk⟩

theorem LockedModule.IsOf.unique {r r' : LockedModule} (h : r.IsOf σ s type x)
    (h' : r'.IsOf σ s type x) : r = r' := by
  have name : r.name = r'.name := Option.some.inj (h.name.symm.trans h'.name)
  have digest : r.digest = r'.digest :=
    Except.ok.inj (Option.some.inj (h.digest.symm.trans h'.digest))
  cases r
  cases r'
  rw [LockedModule.mk.injEq]
  exact ⟨name, h.commit.trans h'.commit.symm, digest⟩

/-- The records of all modules with a name and a commit make up the lock file. -/
theorem records_of_forall₂ {records : List LockedModule}
    (all : List.Forall₂ (fun x r => LockedModule.IsOf r σ s type x) s.pinned records) :
    LockFile.Records ⟨records.mergeSort fun a b => decide (a.name.text ≤ b.name.text)⟩ s
      (σ.digestOf s type) where
  digested x hx := by
    obtain ⟨r, -, isOf⟩ := exists_of_mem_right all.flip hx
    exact ⟨r.digest, isOf.digest.digestOf_eq⟩
  mem_iff r := by
    rw [List.mem_mergeSort]
    constructor
    · intro hr
      obtain ⟨x, hx, isOf⟩ := exists_of_mem_right all hr
      obtain ⟨member, -, hc⟩ := ModuleSet.mem_pinned_iff.1 hx
      exact ⟨x, member, isOf.name, hc, isOf.commit, isOf.digest.digestOf_eq⟩
    · rintro ⟨x, hx, hn, hc, commit, digest⟩
      have pinned : x ∈ s.pinned := ModuleSet.mem_pinned_iff.2 ⟨hx, ⟨_, hn⟩, hc⟩
      obtain ⟨r', hr', isOf⟩ := exists_of_mem_right all.flip pinned
      have kept : σ.KeepsDigest s type x (.ok r.digest) := by
        rw [← digest, isOf.digest.digestOf_eq]
        exact isOf.digest
      rwa [LockedModule.IsOf.unique ⟨hn, commit, kept⟩ isOf]
  sorted := by
    have ascending := ModuleSet.pairwise_sortedBy (fun r : LockedModule => r.name.text) records
    have identities : s.pinned.map Module.identity = records.map fun r => r.name.text := by
      refine map_eq_map_of_forall₂ (all.imp fun x r isOf => ?_)
      rw [Module.identity, isOf.name, identityOf]
    have nodup : (records.map fun r => r.name.text).Nodup := by
      rw [← identities]
      exact s.nodup_identity.sublist (List.filter_sublist.map _)
    have perm := (List.mergeSort_perm records fun a b => decide (a.name.text ≤ b.name.text)).map
      fun r => r.name.text
    have different := perm.nodup_iff.2 nodup
    rw [List.Nodup, List.pairwise_map] at different
    exact (ascending.and different).imp fun h => lt_of_le_of_ne h.1 h.2

/-! ## The lock file of a set -/

instance Cumulative.instOfKey (key : ModuleKey) :
    Cumulative (LockedModule.ofKey access key) := by
  unfold LockedModule.ofKey
  infer_instance

instance Cumulative.instLockOf (s : ModuleSet) (type : DigestType) :
    Cumulative (Commands.lockOf s type) := by
  unfold Commands.lockOf LockFile.ofKeys
  infer_instance

/-- The digests of keys are asked for in turn, up to the first that fails. -/
theorem mapM_ofKey_cases {xs : List Module} {keys : List ModuleKey}
    (hk : List.Forall₂ (fun x key => key.IsOf x s.number type) xs keys)
    (hx : ∀ x ∈ xs, x ∈ s.modules) (hs : σ.Has s) :
    (∃ e σ', keys.mapM (LockedModule.ofKey access) σ = (.error e, σ') ∧
      ∃ x ∈ xs, σ'.KeepsDigest s type x (.error e)) ∨
    ∃ records σ', keys.mapM (LockedModule.ofKey access) σ = (.ok records, σ') ∧
      List.Forall₂ (fun x r => r.IsOf σ' s type x) xs records := by
  induction hk generalizing σ with
  | nil => exact .inr ⟨[], σ, rfl, .nil⟩
  | @cons x key xs keys hkey _ ih =>
    rw [List.forall_mem_cons] at hx
    have kept := Session.keepsDigest_digest σ s type x
    have before := Cumulative.before (x := s.digest access x type) σ
    rw [Session.digestOf, Session.outcome, Session.after] at kept
    rw [← hkey.digest_eq hs hx.1] at kept before
    rw [List.mapM_cons]
    rcases hd : key.digest access σ with ⟨e | d, σ₁⟩
    · have run : LockedModule.ofKey access key σ = (.error e, σ₁) := SessionM.bind_of_error hd
      rw [hd] at kept
      exact .inl ⟨e, σ₁, SessionM.bind_of_error run, x, List.mem_cons_self, kept⟩
    have run : LockedModule.ofKey access key σ = (.ok ⟨key.name, key.commit.plain, d⟩, σ₁) :=
      SessionM.bind_of_ok hd
    rw [hd] at kept before
    rw [SessionM.bind_of_ok run]
    rcases ih hx.2 (hs.of_keptBy before.keptBy) with
      ⟨e, σ₂, rest, y, hy, failed⟩ | ⟨records, σ₂, rest, all⟩
    · exact .inl ⟨e, σ₂, SessionM.bind_of_error rest, y, List.mem_cons_of_mem _ hy, failed⟩
    · have later := Cumulative.before (x := keys.mapM (LockedModule.ofKey access)) σ₁
      rw [rest] at later
      have first : LockedModule.IsOf ⟨key.name, key.commit.plain, d⟩ σ₂ s type x :=
        ⟨hkey.name, congrArg CommitId.plain hkey.commit, kept.of_keptBy later.keptBy⟩
      exact .inr ⟨_, σ₂, SessionM.bind_of_ok rest, .cons first all⟩

namespace Commands

/-- Either a digest fails, or the lock file lists the digests that are kept from then on. -/
theorem lockOf_cases (type : DigestType) (hs : σ.Has s) :
    (∃ e σ', lockOf s type σ = (.error e, σ') ∧
      ∃ x ∈ s.pinned, σ'.KeepsDigest s type x (.error e)) ∨
    ∃ l σ', lockOf s type σ = (.ok l, σ') ∧
      ∀ σ₂, σ'.KeptBy σ₂ → l.Records s (σ₂.digestOf s type) := by
  obtain ⟨keys, all, run⟩ := exists_keys (fun _ => id) s.number type
  have keyed : lockOf s type σ = LockFile.ofKeys access keys σ := SessionM.bind_of_ok (run σ)
  rw [keyed]
  rcases mapM_ofKey_cases all (fun x hx => (ModuleSet.mem_pinned_iff.1 hx).1) hs with
    ⟨e, σ', failed, kept⟩ | ⟨records, σ', done, listed⟩
  · exact .inl ⟨e, σ', SessionM.bind_of_error failed, kept⟩
  · refine .inr ⟨_, σ', SessionM.bind_of_ok done, fun σ₂ hk => records_of_forall₂ ?_⟩
    exact listed.imp fun x r isOf => isOf.of_keptBy hk

/-- A lock file that was made is made again. -/
theorem lockOf_again {l : LockFile} {σ₂ : Session} (hs : σ.Has s)
    (h : lockOf s type σ = (.ok l, σ')) (hk : σ'.KeptBy σ₂) :
    ∃ σ₃, lockOf s type σ₂ = (.ok l, σ₃) := by
  have before := Cumulative.before (x := lockOf s type) σ
  have later := Cumulative.before (x := lockOf s type) σ₂
  rw [h] at before
  rcases lockOf_cases type hs with ⟨e, _, failed, -⟩ | ⟨l', _, made, records⟩
  · cases h.symm.trans failed
  cases h.symm.trans made
  rcases lockOf_cases type ((hs.of_keptBy before.keptBy).of_keptBy hk) with
    ⟨e, σ₃, failed, x, hx, kept⟩ | ⟨l₂, σ₃, made₂, records₂⟩
  · rw [failed] at later
    obtain ⟨d, hd⟩ := (records σ₃ (hk.trans later.keptBy)).digested x hx
    cases kept.digestOf_eq.symm.trans hd
  · rw [made₂] at later
    have same := (records σ₃ (hk.trans later.keptBy)).unique
      (records₂ σ₃ (Session.Before.refl σ₃).keptBy)
    exact ⟨σ₃, same ▸ made₂⟩

end Commands

end ProtoWorkspace
