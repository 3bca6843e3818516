import Mathlib
import ProtoWorkspace.Proofs.CommitId.Spelling
import ProtoWorkspace.Proofs.Fallible
import ProtoWorkspace.Proofs.LockFile.Records
import ProtoWorkspace.Proofs.Session.Cycles
import ProtoWorkspace.Proofs.Session.Operations
import ProtoWorkspace.Proofs.Session.Reordered

/-!
# Lock files of keys

A lock file that is made of keys gives them back, sorted by name, each with its commit and with the digest
that was loaded for it. Made anew of the keys that another lock file gives, it has the records of that one,
with the commits in plain form. Main statement: `LockFile.keys_read_back`.
-/

namespace ProtoWorkspace

open Fallible

open Session (access)

/-! ## Sorting -/

section Sorting

variable {α β : Type}

/-- Whether a list is another one, sorted by a text, in which elements with one text keep their order. -/
structure IsStableSort (text : α → String) (xs sorted : List α) : Prop where
  perm : sorted.Perm xs
  ordered : sorted.Pairwise fun a b => text a ≤ text b
  stable (t : String) : sorted.filter (text · = t) = xs.filter (text · = t)

theorem isStableSort_mergeSort (text : α → String) (xs : List α) :
    IsStableSort text xs (xs.mergeSort fun a b => decide (text a ≤ text b)) where
  perm := List.mergeSort_perm _ _
  ordered := ModuleSet.pairwise_sortedBy text xs
  stable t := by
    have equal : (xs.filter (text · = t)).Pairwise fun a b => decide (text a ≤ text b) = true := by
      refine List.pairwise_of_forall_mem_list fun a ha b hb => ?_
      simp only [List.mem_filter, decide_eq_true_eq] at ha hb ⊢
      exact (ha.2.trans hb.2.symm).le
    -- the elements with the text are a sorted sublist, and there are as many of them in both lists
    have kept := (List.sublist_mergeSort (ModuleSet.decide_le_trans text) (ModuleSet.decide_le_total text)
      equal List.filter_sublist).filter (text · = t)
    rw [List.filter_filter] at kept
    simp only [Bool.and_self] at kept
    exact (kept.eq_of_length ((List.mergeSort_perm xs _).filter _).length_eq.symm).symm

theorem mem_of_filter_eq {text : α → String} {xs ys : List α}
    (same : ∀ t, xs.filter (text · = t) = ys.filter (text · = t)) {x : α} (hx : x ∈ xs) : x ∈ ys := by
  have member : x ∈ xs.filter (text · = text x) := List.mem_filter.2 ⟨hx, by simp⟩
  rw [same] at member
  exact List.mem_of_mem_filter member

/-- There is only one way to sort a list stably. -/
theorem IsStableSort.unique {text : α → String} {xs ys zs : List α} (h : IsStableSort text xs ys)
    (h' : IsStableSort text xs zs) : ys = zs := by
  have ordered := h.ordered
  have ordered' := h'.ordered
  have same (t : String) : ys.filter (text · = t) = zs.filter (text · = t) :=
    (h.stable t).trans (h'.stable t).symm
  clear h h'
  induction ys generalizing zs with
  | nil =>
    cases zs with
    | nil => rfl
    | cons z zs => exact absurd (mem_of_filter_eq (fun t => (same t).symm) List.mem_cons_self) (by simp)
  | cons y ys ih =>
    cases zs with
    | nil => exact absurd (mem_of_filter_eq same List.mem_cons_self) (by simp)
    | cons z zs =>
      rw [List.pairwise_cons] at ordered ordered'
      -- either head is a least element of both lists
      have le : text y ≤ text z := by
        rcases List.mem_cons.1 (mem_of_filter_eq (fun t => (same t).symm) List.mem_cons_self) with rfl | hz
        · exact le_rfl
        · exact ordered.1 z hz
      have ge : text z ≤ text y := by
        rcases List.mem_cons.1 (mem_of_filter_eq same List.mem_cons_self) with rfl | hy
        · exact le_rfl
        · exact ordered'.1 y hy
      have equal : text y = text z := le_antisymm le ge
      have first := same (text z)
      rw [List.filter_cons_of_pos (by simpa using equal), List.filter_cons_of_pos (by simp)] at first
      obtain rfl := (List.cons.inj first).1
      rw [ih ordered.2 ordered'.2 fun t => ?_]
      have rest := same t
      by_cases ht : text y = t
      · rw [List.filter_cons_of_pos (by simpa using ht), List.filter_cons_of_pos (by simpa using ht)] at rest
        exact (List.cons.inj rest).2
      · rwa [List.filter_cons_of_neg (by simpa using ht), List.filter_cons_of_neg (by simpa using ht)] at rest

/-- Lists that are related element by element stay so when both are sorted by the same texts. -/
theorem forall₂_mergeSort {R : α → β → Prop} {text : α → String} {text' : β → String} {xs : List α}
    {ys : List β} (h : List.Forall₂ R xs ys) (same : ∀ x y, R x y → text x = text' y) :
    List.Forall₂ R (xs.mergeSort fun a b => decide (text a ≤ text b))
      (ys.mergeSort fun a b => decide (text' a ≤ text' b)) := by
  obtain ⟨length, related⟩ := List.forall₂_iff_zip.1 h
  have left : (xs.zip ys).map Prod.fst = xs := List.map_fst_zip length.le
  have right : (xs.zip ys).map Prod.snd = ys := List.map_snd_zip length.ge
  have sorted := List.map_mergeSort (f := Prod.fst) (l := xs.zip ys)
    (r := fun a b => decide (text a.1 ≤ text b.1)) (s := fun a b => decide (text a ≤ text b))
    fun _ _ _ _ => rfl
  have sorted' := List.map_mergeSort (f := Prod.snd) (l := xs.zip ys)
    (r := fun a b => decide (text a.1 ≤ text b.1)) (s := fun a b => decide (text' a ≤ text' b))
    fun a ha b hb => by rw [same _ _ (related ha), same _ _ (related hb)]
  rw [left] at sorted
  rw [right] at sorted'
  rw [← sorted, ← sorted', List.forall₂_map_left_iff, List.forall₂_map_right_iff, List.forall₂_same]
  exact fun z hz => related (List.mem_mergeSort.1 hz)

end Sorting

/-! ## Digests that were asked for -/

namespace Session

variable {σ σ₁ σ₂ : Session}

/-- A key that was asked for its digest gives the same answer again. -/
theorem outcome_keyDigest_again {key : ModuleKey} {answer : Except Error Digest}
    (h : key.digest access σ = (answer, σ₁)) (kept : σ₁.KeptBy σ₂) (sets : σ₂.sets = σ.sets) :
    σ₂.outcome (key.digest access) = answer := by
  rw [outcome]
  rw [ModuleKey.digest_eq, ModuleKey.digestBy] at h ⊢
  cases origin : key.origin with
  | known digest =>
    rw [origin] at h
    cases h
    rfl
  | supplied number load =>
    rw [origin] at h
    exact congrArg Prod.fst (remember_of_find? (kept.memo _ _ (find?_of_remember h)))
  | ofModule number identity type =>
    have found (τ : Session) : access.findSet number τ = (.ok (τ.sets.find? (·.number == number)), τ) :=
      rfl
    rw [origin] at h
    dsimp only at h ⊢
    rw [SessionM.bind_of_ok (found σ)] at h
    rw [SessionM.bind_of_ok (found σ₂), sets]
    cases there : σ.sets.find? (·.number == number) with
    | none =>
      rw [there] at h
      exact congrArg Prod.fst h
    | some s =>
      rw [there, ModuleSet.digestOfFound] at h
      rw [ModuleSet.digestOfFound]
      cases member : s.find? identity with
      | none =>
        rw [member] at h
        exact congrArg Prod.fst h
      | some x =>
        rw [member] at h
        replace h : s.digest access x type σ = (answer, σ₁) := h
        have asked := keepsDigest_digest σ s type x
        rw [digestOf, outcome, after, h] at asked
        exact (asked.of_keptBy kept).digestOf_eq

/-- Keys are asked for their digests in turn, up to the first that fails. What they answer is what they say
from then on. -/
theorem outcome_mapM_ofKey {keys : List ModuleKey}
    (kept : (σ.after (keys.mapM (LockedModule.ofKey access))).KeptBy σ₂) (sets : σ₂.sets = σ.sets) :
    σ.outcome (keys.mapM (LockedModule.ofKey access)) = keys.mapM fun key =>
      LockedModule.mk key.name key.commit.plain <$> σ₂.outcome (key.digest access) := by
  induction keys generalizing σ with
  | nil => rfl
  | cons key keys ih =>
    rw [List.mapM_cons] at kept ⊢
    rw [List.mapM_cons]
    rcases asked : key.digest access σ with ⟨e | d, σ₁⟩
    · have run : LockedModule.ofKey access key σ = (.error e, σ₁) := SessionM.bind_of_error asked
      rw [after, SessionM.bind_of_error run] at kept
      rw [outcome, SessionM.bind_of_error run, outcome_keyDigest_again asked kept sets]
      rfl
    · have run : LockedModule.ofKey access key σ = (.ok ⟨key.name, key.commit.plain, d⟩, σ₁) :=
        SessionM.bind_of_ok asked
      have same : σ₂.sets = σ₁.sets := by
        have := Cumulative.sets_eq (x := key.digest access) σ
        rw [asked] at this
        exact sets.trans this.symm
      rw [after, SessionM.bind_of_ok run, ← after, after_bind _ fun _ _ => rfl] at kept
      have before : σ₁.KeptBy (σ₁.after (keys.mapM (LockedModule.ofKey access))) :=
        (Cumulative.before (x := keys.mapM (LockedModule.ofKey access)) σ₁).keptBy
      rw [outcome, SessionM.bind_of_ok run, outcome_keyDigest_again asked (before.trans kept) sets, map_ok,
        ok_bind, ← ih kept same]
      rcases rest : keys.mapM (LockedModule.ofKey access) σ₁ with ⟨e | records, σ₃⟩
      · rw [SessionM.bind_of_error rest, outcome, rest]
        rfl
      · rw [SessionM.bind_of_ok rest, outcome, rest]
        rfl

instance instCumulativeOfKeys (keys : List ModuleKey) : Cumulative (LockFile.ofKeys access keys) := by
  unfold LockFile.ofKeys
  infer_instance

end Session

/-! ## Keys and their records -/

variable {σ : Session} {key : ModuleKey} {r : LockedModule}

/-- Whether a record has the name and the commit of a key, and the digest that a session tells for it. -/
structure LockedModule.Lists (σ : Session) (r : LockedModule) (key : ModuleKey) : Prop where
  name : r.name = key.name
  commit : r.commit = key.commit.plain
  digest : σ.outcome (key.digest access) = .ok r.digest

/-- Whether a key names the module and the commit of another one, and knows the digest that a session tells
for that one. -/
structure ModuleKey.Restores (σ : Session) (key restored : ModuleKey) : Prop where
  name : restored.name = key.name
  commit : restored.commit = key.commit
  digest : ∃ d, restored.origin = .known d ∧ σ.outcome (key.digest access) = .ok d

/-- Whether a record is another one with its commit in plain form. -/
structure LockedModule.Rewrites (r rewritten : LockedModule) : Prop where
  name : rewritten.name = r.name
  digest : rewritten.digest = r.digest
  commit : ∃ c : CommitId, c.IsSpelled r.commit ∧ rewritten.commit = c.plain
  plain : CommitId.IsPlain rewritten.commit

namespace LockedModule

theorem toKey_eq_ok : r.toKey = .ok key ↔
    key.name = r.name ∧ key.commit.IsSpelled r.commit ∧ key.origin = .known r.digest := by
  obtain ⟨name, commit, origin, isSome⟩ := key
  rw [toKey, ← CommitId.parse?_eq_some]
  split
  · next c read =>
    obtain ⟨read, hc⟩ := Option.filter_eq_some_iff.1 read
    have hc : c.isNone = false := by simpa using hc
    rw [mapError_eq_ok, ModuleKey.make, dif_pos hc, read]
    simp [eq_comm]
  · next unread =>
    refine iff_of_false (by simp) ?_
    rintro ⟨-, read, -⟩
    simp [read, isSome] at unread

theorem succeeds_toKey_iff :
    Succeeds r.toKey ↔ ∃ c : CommitId, c.isNone = false ∧ c.IsSpelled r.commit := by
  constructor
  · rintro ⟨key, made⟩
    exact ⟨key.commit, key.isNone_commit, (toKey_eq_ok.1 made).2.1⟩
  · rintro ⟨c, some, spelled⟩
    exact ⟨⟨r.name, c, .known r.digest, some⟩, toKey_eq_ok.2 ⟨rfl, spelled, rfl⟩⟩

end LockedModule

namespace LockFile

/-- The lock file of records. -/
def ofRecords (records : List LockedModule) : LockFile :=
  ⟨records.mergeSort fun a b => decide (a.name.text ≤ b.name.text)⟩

/-- What comes of making a lock file, by the digests that the session tells afterwards. -/
theorem outcome_ofKeys (σ : Session) (keys : List ModuleKey) : σ.outcome (ofKeys access keys) =
    ofRecords <$> keys.mapM fun key => LockedModule.mk key.name key.commit.plain <$>
      (σ.after (ofKeys access keys)).outcome (key.digest access) := by
  have after : σ.after (ofKeys access keys) = σ.after (keys.mapM (LockedModule.ofKey access)) :=
    Session.after_bind _ fun _ _ => rfl
  have sets : (σ.after (ofKeys access keys)).sets = σ.sets := Cumulative.sets_eq _
  rw [← Session.outcome_mapM_ofKey (after ▸ (Session.Before.refl _).keptBy) sets]
  rcases run : keys.mapM (LockedModule.ofKey access) σ with ⟨e | records, σ'⟩
  · rw [Session.outcome, Session.outcome, ofKeys, SessionM.bind_of_error run, run]
    rfl
  · rw [Session.outcome, Session.outcome, ofKeys, SessionM.bind_of_ok run, run]
    rfl

/-- If all digests can be loaded, the lock file has a record for each key. -/
theorem outcome_ofKeys_of_loaded {keys : List ModuleKey}
    (loaded : ∀ key ∈ keys, Succeeds ((σ.after (ofKeys access keys)).outcome (key.digest access))) :
    ∃ records, List.Forall₂ (LockedModule.Lists (σ.after (ofKeys access keys))) records keys ∧
      σ.outcome (ofKeys access keys) = .ok (ofRecords records) := by
  rw [outcome_ofKeys]
  obtain ⟨records, made⟩ := succeeds_mapM.2 fun key hkey => succeeds_map.2 (loaded key hkey)
  refine ⟨records, (mapM_eq_ok.1 made).flip.imp ?_, congrArg (ofRecords <$> ·) made⟩
  intro r key h
  obtain ⟨d, digest, rfl⟩ := map_eq_ok.1 h
  exact ⟨rfl, rfl, digest⟩

/-- Records of keys give the keys back. -/
theorem toKeys_of_lists {records : List LockedModule} {keys : List ModuleKey}
    (lists : List.Forall₂ (LockedModule.Lists σ) records keys) :
    ∃ restored, LockFile.toKeys ⟨records⟩ = .ok restored ∧
      List.Forall₂ (ModuleKey.Restores σ) keys restored := by
  have readable : ∀ r ∈ records, Succeeds r.toKey := by
    intro r hr
    obtain ⟨key, -, listed⟩ := exists_of_mem_right lists.flip hr
    rw [LockedModule.succeeds_toKey_iff, listed.commit]
    exact ⟨key.commit, key.isNone_commit, CommitId.isSpelled_plain⟩
  obtain ⟨restored, made⟩ := succeeds_mapM.2 readable
  refine ⟨restored, made, forall₂_of_common lists (mapM_eq_ok.1 made) ?_⟩
  intro r _ key _ copy listed read
  obtain ⟨name, spelled, origin⟩ := LockedModule.toKey_eq_ok.1 read
  rw [listed.commit] at spelled
  exact ⟨name.trans listed.name, spelled.unique CommitId.isSpelled_plain, r.digest, origin, listed.digest⟩

/-- Records of the keys that were read from other records are those records with plain commits. -/
theorem rewrites_of_lists {l : LockFile} {keys : List ModuleKey} {records : List LockedModule}
    (read : l.toKeys = .ok keys) (lists : List.Forall₂ (LockedModule.Lists σ) records keys) :
    List.Forall₂ LockedModule.Rewrites l.modules records := by
  refine forall₂_of_common (mapM_eq_ok.1 read).flip lists.flip ?_
  intro key _ r _ rewritten made listed
  obtain ⟨name, spelled, origin⟩ := LockedModule.toKey_eq_ok.1 made
  have digest := listed.digest
  rw [Session.outcome_keyDigest_of_known origin] at digest
  exact ⟨listed.name.trans name, (Except.ok.inj digest).symm, ⟨key.commit, spelled, listed.commit⟩,
    listed.commit ▸ key.commit.isPlain_plain⟩

/-- A lock file of keys whose digests can be loaded gives the keys back, stably sorted by their names, each
with its commit and its digest; if a digest cannot be loaded, making the lock file fails with the error of the
first such key. A digest is looked for at most once, so it is what the session says that comes after.
Conversely, a lock file that is made anew of the keys of a given one has the records of that one with plain
commits, again sorted by name. Keys can be read from a lock file exactly when each of its commits is a
spelling of an identifier that stands for a commit. -/
theorem keys_read_back (σ : Session) :
    (∀ keys,
      ((∀ key ∈ keys, Succeeds ((σ.after (ofKeys access keys)).outcome (key.digest access))) →
        ∃ l sorted restored, σ.outcome (ofKeys access keys) = .ok l ∧ l.toKeys = .ok restored ∧
          IsStableSort (fun key => key.name.text) keys sorted ∧
          List.Forall₂ (ModuleKey.Restores (σ.after (ofKeys access keys))) sorted restored) ∧
      ∀ e, σ.outcome (ofKeys access keys) = .error e ↔
        ∃ before key after, keys = before ++ key :: after ∧
          (∀ k ∈ before, Succeeds ((σ.after (ofKeys access keys)).outcome (k.digest access))) ∧
          (σ.after (ofKeys access keys)).outcome (key.digest access) = .error e) ∧
    ∀ l : LockFile,
      (∀ keys, l.toKeys = .ok keys → ∃ l' rewritten, σ.outcome (ofKeys access keys) = .ok l' ∧
        List.Forall₂ LockedModule.Rewrites l.modules rewritten ∧
        IsStableSort (fun r => r.name.text) rewritten l'.modules) ∧
      (Succeeds l.toKeys ↔
        ∀ r ∈ l.modules, ∃ c : CommitId, c.isNone = false ∧ c.IsSpelled r.commit) := by
  refine ⟨fun keys => ⟨fun loaded => ?_, fun e => ?_⟩, fun l => ⟨fun keys read => ?_, ?_⟩⟩
  · obtain ⟨records, lists, made⟩ := outcome_ofKeys_of_loaded loaded
    obtain ⟨restored, read, restores⟩ := toKeys_of_lists
      (forall₂_mergeSort lists fun r key listed => congrArg FullName.text listed.name)
    exact ⟨_, sortedByName keys, restored, made, read, isStableSort_mergeSort _ keys, restores⟩
  · have failed (x : Except Error (List LockedModule)) : ofRecords <$> x = .error e ↔ x = .error e := by
      cases x <;> simp
    have lost (key : ModuleKey) (x : Except Error Digest) :
        LockedModule.mk key.name key.commit.plain <$> x = .error e ↔ x = .error e := by
      cases x <;> simp
    simp only [outcome_ofKeys σ keys, failed, mapM_eq_error_iff, lost, succeeds_map]
  · have loaded (key : ModuleKey) (hkey : key ∈ keys) :
        Succeeds ((σ.after (ofKeys access keys)).outcome (key.digest access)) := by
      obtain ⟨r, -, made⟩ := exists_of_mem_mapM read hkey
      exact ⟨_, Session.outcome_keyDigest_of_known (LockedModule.toKey_eq_ok.1 made).2.2⟩
    obtain ⟨records, lists, made⟩ := outcome_ofKeys_of_loaded loaded
    exact ⟨_, records, made, rewrites_of_lists read lists, isStableSort_mergeSort _ records⟩
  · rw [toKeys, succeeds_mapM]
    simp only [LockedModule.succeeds_toKey_iff]

end LockFile

namespace Sample

/-- A lock file that pins the first module of the sample to its commit, by a URN. -/
def urnLock : LockFile :=
  ⟨[⟨firstKey.name, "URN:UUID:FFFFFFFF-ffff-FFFF-ffff-FFFFFFFFFFFF",
    ⟨.b5, List.replicate 64 1, List.length_replicate⟩⟩]⟩

/-- The keys of two modules come back in the order of their names, and a commit in plain form. -/
theorem keys_read_back_sorted :
    (∃ l restored, ({} : Session).outcome (LockFile.ofKeys access [secondKey, firstKey]) = .ok l ∧
      l.toKeys = .ok restored ∧ restored.map ModuleKey.name = [firstKey.name, secondKey.name]) ∧
    ∃ keys l, urnLock.toKeys = .ok keys ∧ ({} : Session).outcome (LockFile.ofKeys access keys) = .ok l ∧
      l.modules.map LockedModule.commit = ["ffffffffffffffffffffffffffffffff"] := by
  obtain ⟨ofKeys, -⟩ := (LockFile.keys_read_back ({} : Session)).1 [secondKey, firstKey]
  obtain ⟨renewed, readable⟩ := (LockFile.keys_read_back ({} : Session)).2 urnLock
  have spelled : firstKey.commit.IsSpelled "URN:UUID:FFFFFFFF-ffff-FFFF-ffff-FFFFFFFFFFFF" := by
    decide
  constructor
  · obtain ⟨l, sorted, restored, made, read, stable, restores⟩ := ofKeys <| by
      intro key hkey
      obtain rfl | rfl : key = secondKey ∨ key = firstKey := by simpa using hkey
      · exact ⟨_, Session.outcome_keyDigest_of_known rfl⟩
      · exact ⟨_, Session.outcome_keyDigest_of_known rfl⟩
    have order : sorted = [firstKey, secondKey] := by
      have after : ¬ secondKey.name.text ≤ firstKey.name.text := by decide
      rw [stable.unique (isStableSort_mergeSort _ [secondKey, firstKey])]
      simp [List.mergeSort, after]
    rw [order] at restores
    exact ⟨l, restored, made, read, map_eq_map_of_forall₂ (restores.flip.imp fun _ _ same => same.name)⟩
  · obtain ⟨keys, read⟩ := readable.2 (List.forall_mem_singleton.2 ⟨_, firstKey.isNone_commit, spelled⟩)
    obtain ⟨l, rewritten, made, rewrites, stable⟩ := renewed keys read
    refine ⟨keys, l, read, made, ?_⟩
    obtain ⟨r, rfl, same⟩ : ∃ r, rewritten = [r] ∧ r.commit = firstKey.commit.plain := by
      cases rewrites with
      | cons first rest =>
        cases rest
        obtain ⟨c, hc, plain⟩ := first.commit
        exact ⟨_, rfl, hc.unique spelled ▸ plain⟩
    rw [List.perm_singleton.1 stable.perm, List.map_singleton, same]
    rfl

end Sample

end ProtoWorkspace
