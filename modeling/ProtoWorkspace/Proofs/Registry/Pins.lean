import ProtoWorkspace.Proofs.Registry.Calls
import ProtoWorkspace.Proofs.Session.Edited

/-!
# Whether pins tell the truth

The keys under which a published module keeps its dependencies carry digests. A dependency without a
commit is pinned to the commit labeled `main`, whose digest is compared, so that its key tells the
truth. A dependency with a commit of its own is pinned to that commit, and nothing is compared. Hence
the keys in a registry tell the truth just when every dependency with a commit of its own agreed with
what the registry had there at the time.
-/

namespace ProtoWorkspace

open Fallible

namespace Registry

/-- Whether a key has the name and the digest of what a registry has at its commit, if it has
something there. -/
def IsTrue (r : Registry) (key : ModuleKey) : Prop :=
  ∀ other, r.commit? key.commit = some other → key.name = other.name ∧ key.origin = .known other.b5

/-- Whether all keys tell the truth under which modules in a registry keep their dependencies. -/
def IsTruthful (r : Registry) : Prop :=
  ∀ commit stored, r.commit? commit = some stored → ∀ key ∈ stored.dependencies, r.IsTrue key

/-- Whether the dependencies of the module of a call that have commits of their own have the names
and the digests of what a registry has there. -/
def Call.Agrees (c : Call) (r : Registry) : Prop :=
  ∀ ds, (c.sessionAfter r).outcome (c.set.dependencies Session.access c.module) = .ok ds →
    ∀ d ∈ ds, d.module.commit.isNone = false →
      ∀ other, r.commit? d.module.commit = some other →
        d.module.name = some other.name ∧
          (c.sessionAfter r).outcome (c.set.digest Session.access d.module .b5) = .ok other.b5

variable {r : Registry} {c : Call} {key : ModuleKey} {stored : StoredCommit}

/-- Whether a call is at a commit that neither a registry nor a module of its set knows. -/
structure Call.IsFresh (c : Call) (r : Registry) : Prop where
  unused : r.commit? c.commit = none
  unpinned {commit : CommitId} {stored : StoredCommit} : r.commit? commit = some stored →
    ∀ key ∈ stored.dependencies, key.commit ≠ c.commit
  ne {x : Module} : x ∈ c.set.modules → x.commit ≠ c.commit

/-- A registry to which something is added at a new commit tells the truth if it did before and the
added keys do. -/
theorem isTruthful_insert (fresh : c.IsFresh r) (hkeys : ∀ key ∈ stored.dependencies,
    key.commit ≠ c.commit) : (r.insert c.commit stored).IsTruthful ↔
      r.IsTruthful ∧ ∀ key ∈ stored.dependencies, r.IsTrue key := by
  have old : ∀ {commit}, commit ≠ c.commit →
      (r.insert c.commit stored).commit? commit = r.commit? commit := by
    intro commit ne
    rw [commit?_insert, if_neg ne]
  have new : (r.insert c.commit stored).commit? c.commit = some stored := by
    rw [commit?_insert, if_pos rfl]
  constructor
  · intro h
    constructor
    · intro commit before hbefore key hkey other hother
      have used : commit ≠ c.commit := by
        rintro rfl
        cases fresh.unused.symm.trans hbefore
      rw [← old used] at hbefore
      rw [← old (fresh.unpinned (old used ▸ hbefore) key hkey)] at hother
      exact h _ _ hbefore key hkey other hother
    · intro key hkey other hother
      rw [← old (hkeys key hkey)] at hother
      exact h _ _ new key hkey other hother
  · rintro ⟨before, added⟩ commit at_commit hat key hkey other hother
    by_cases here : commit = c.commit
    · subst here
      cases new.symm.trans hat
      rw [old (hkeys key hkey)] at hother
      exact added key hkey other hother
    · rw [old here] at hat
      rw [old (fresh.unpinned hat key hkey)] at hother
      exact before _ _ hat key hkey other hother

/-- A key to which a dependency is pinned tells the truth, unless the dependency has a commit of its own
at which the registry has something else. -/
theorem isTrue_iff_of_pin {x : Module} {digest : Digest} (hname : x.name = some key.name)
    (horigin : key.origin = .known digest) (hpin : r.pin x key.name digest = .ok key.commit)
    (hlabels : ∀ name commit, r.labeled? name mainLabel = some commit →
      ∃ stored, r.stored? name commit = some stored) :
    r.IsTrue key ↔ (x.commit.isNone = false → ∀ other, r.commit? x.commit = some other →
      x.name = some other.name ∧ digest = other.b5) := by
  rcases pin_eq_ok.1 hpin with ⟨hown, hcommit⟩ | ⟨hnone, hlabel, hdigest⟩
  · rw [IsTrue, hcommit, hname, horigin]
    simp [hown]
  · refine iff_of_true (fun other hother => ?_) fun hown => by simp [hnone] at hown
    obtain ⟨stored, hstored⟩ := hlabels _ _ hlabel
    obtain ⟨hcommit, same⟩ := stored?_eq_some.1 hstored
    cases hother.symm.trans hcommit
    rw [hother] at hdigest
    exact ⟨same.symm, horigin.trans (congrArg _ (Option.some.inj hdigest).symm)⟩

namespace Call.Publishes

variable (h : c.Publishes r key stored) (fresh : c.IsFresh r)
variable (hlabels : ∀ name commit, r.labeled? name mainLabel = some commit →
  ∃ stored, r.stored? name commit = some stored)

include h hlabels

/-- The keys that a call adds tell the truth just when the dependencies agree. -/
theorem forall_isTrue_iff :
    (∀ key ∈ stored.dependencies, r.IsTrue key) ↔ c.Agrees r := by
  obtain ⟨ds, hds, keys⟩ := (h.told _ .refl).dependencies
  constructor
  · intro truth ds' hds' d hd hown other hother
    cases hds.symm.trans hds'
    obtain ⟨key', hkey', hname, digest, hdigest, horigin, hpin⟩ := exists_of_mem_right keys.flip hd
    obtain ⟨same, rfl⟩ := (isTrue_iff_of_pin hname horigin hpin hlabels).1 (truth key' hkey') hown
      other hother
    exact ⟨same, hdigest⟩
  · intro agrees key' hkey'
    obtain ⟨d, hd, hname, digest, hdigest, horigin, hpin⟩ := exists_of_mem_right keys hkey'
    rw [isTrue_iff_of_pin hname horigin hpin hlabels]
    intro hown other hother
    obtain ⟨same, hdigest'⟩ := agrees ds hds d hd hown other hother
    exact ⟨same, Except.ok.inj (hdigest.symm.trans hdigest')⟩

include fresh

theorem commit_ne : ∀ key ∈ stored.dependencies, key.commit ≠ c.commit := by
  intro key' hkey'
  obtain ⟨ds, hds, keys⟩ := (h.told _ .refl).dependencies
  obtain ⟨d, hd, hname, digest, hdigest, horigin, hpin⟩ := exists_of_mem_right keys hkey'
  rcases pin_eq_ok.1 hpin with ⟨-, hcommit⟩ | ⟨-, hlabel, -⟩
  · rw [hcommit]
    exact fresh.ne ((c.reachable_after r).mem_modules_of_dependencies (c.mem_sets_after r)
      c.mem_modules hds hd)
  · intro same
    obtain ⟨stored', hstored⟩ := hlabels _ _ hlabel
    rw [same] at hstored
    cases fresh.unused.symm.trans (stored?_eq_some.1 hstored).1

/-- After a call, a registry tells the truth just when it did before and the dependencies agree. -/
theorem isTruthful_iff :
    (r.insert c.commit stored).IsTruthful ↔ r.IsTruthful ∧ c.Agrees r := by
  rw [isTruthful_insert fresh (h.commit_ne fresh hlabels), h.forall_isTrue_iff hlabels]

end Call.Publishes

/-! ## Runs of calls -/

/-- Whether every call is at a commit that no call before it was at, and that no module of a set has
from which something was published up to then. -/
def AreFresh (calls : List Call) : Prop :=
  calls.Pairwise (fun b c => b.commit ≠ c.commit ∧ ∀ x ∈ b.set.modules, x.commit ≠ c.commit) ∧
    ∀ c ∈ calls, ∀ x ∈ c.set.modules, x.commit ≠ c.commit

variable {calls : List Call}

theorem AreFresh.nodup (h : AreFresh calls) : (calls.map Call.commit).Nodup :=
  List.pairwise_map.2 (h.1.imp And.left)

theorem areFresh_concat : AreFresh (calls ++ [c]) ↔ AreFresh calls ∧
    (∀ b ∈ calls, b.commit ≠ c.commit ∧ ∀ x ∈ b.set.modules, x.commit ≠ c.commit) ∧
      ∀ x ∈ c.set.modules, x.commit ≠ c.commit := by
  simp only [AreFresh, List.pairwise_append, List.pairwise_cons, List.mem_append, List.mem_singleton]
  constructor
  · rintro ⟨⟨before, -, between⟩, own⟩
    exact ⟨⟨before, fun b hb => own b (.inl hb)⟩, fun b hb => between b hb c rfl, own c (.inr rfl)⟩
  · rintro ⟨⟨before, own⟩, between, last⟩
    refine ⟨⟨before, ⟨by simp, .nil⟩, fun b hb c' hc' => hc' ▸ between b hb⟩, fun b hb => ?_⟩
    rcases hb with hb | rfl
    · exact own b hb
    · exact last

/-- A label points to what is stored under its name. -/
theorem exists_stored?_of_labeled? (hfresh : (calls.map Call.commit).Nodup) {name : FullName}
    {label : String} {commit : CommitId}
    (h : (History.of calls).registry.labeled? name label = some commit) :
    ∃ stored, (History.of calls).registry.stored? name commit = some stored := by
  rw [labeled?_of_calls] at h
  split at h
  · obtain ⟨key, found, rfl⟩ := Option.map_eq_some_iff.1 h
    obtain ⟨stored, published⟩ := mem_keys_iff.1 (List.mem_of_find?_eq_some found)
    have hname : key.name = name := by simpa using List.find?_some found
    exact ⟨stored, (stored?_of_calls hfresh).2 ⟨key, published, hname, rfl⟩⟩
  · cases h

/-- The commit of a kept key is that of a call or of a module of a set. -/
theorem IsPublished.commit_cases (hfresh : (calls.map Call.commit).Nodup)
    (h : IsPublished calls key stored) {key' : ModuleKey} (hkey' : key' ∈ stored.dependencies) :
    ∃ b ∈ calls, b.commit = key'.commit ∨ ∃ x ∈ b.set.modules, x.commit = key'.commit := by
  obtain ⟨before, c, rest, rfl, published⟩ := h
  obtain ⟨ds, hds, keys⟩ := (published.told _ .refl).dependencies
  obtain ⟨d, hd, -, digest, -, -, hpin⟩ := exists_of_mem_right keys hkey'
  rcases pin_eq_ok.1 hpin with ⟨-, hcommit⟩ | ⟨-, hlabel, -⟩
  · refine ⟨c, by simp, .inr ⟨d.module, ?_, hcommit.symm⟩⟩
    exact (c.reachable_after _).mem_modules_of_dependencies (c.mem_sets_after _) c.mem_modules hds hd
  · have hbefore : (before.map Call.commit).Nodup := by
      rw [List.map_append] at hfresh
      exact hfresh.of_append_left
    obtain ⟨stored', hstored⟩ := exists_stored?_of_labeled? hbefore hlabel
    obtain ⟨key'', published', hcommit⟩ := (commit?_of_calls hbefore).1 (stored?_eq_some.1 hstored).1
    obtain ⟨b, hb, same⟩ := List.mem_map.1 published'.mem_commits
    exact ⟨b, List.mem_append_left _ hb, .inl (same.trans hcommit)⟩

theorem isFresh_of_concat (h : AreFresh (calls ++ [c])) : c.IsFresh (History.of calls).registry := by
  obtain ⟨hfresh, before, own⟩ := areFresh_concat.1 h
  constructor
  · by_contra used
    obtain ⟨stored, hstored⟩ := Option.ne_none_iff_exists'.1 used
    obtain ⟨key, published, hcommit⟩ := (commit?_of_calls hfresh.nodup).1 hstored
    obtain ⟨b, hb, same⟩ := List.mem_map.1 published.mem_commits
    exact (before b hb).1 (same.trans hcommit)
  · intro commit stored hstored key hkey same
    obtain ⟨_, published, -⟩ := (commit?_of_calls hfresh.nodup).1 hstored
    obtain ⟨b, hb, hcommit | ⟨x, hx, hcommit⟩⟩ := published.commit_cases hfresh.nodup hkey
    · exact (before b hb).1 (hcommit.trans same)
    · exact (before b hb).2 x hx (hcommit.trans same)
  · exact own _

/-- The keys under which published modules keep their dependencies tell the truth just when, at every
call that succeeded, each dependency with a commit of its own had the name and the digest of what the
registry had at that commit. -/
theorem isTruthful_of_calls (hfresh : AreFresh calls) : (History.of calls).registry.IsTruthful ↔
    ∀ before c rest, calls = before ++ c :: rest →
      Succeeds (c.outcome (History.of before).registry) → c.Agrees (History.of before).registry := by
  induction calls using List.reverseRecOn with
  | nil => simp [History.of, IsTruthful, commit?]
  | append_singleton calls c ih =>
    have earlier := (areFresh_concat.1 hfresh).1
    have run : (∀ before c' rest, calls ++ [c] = before ++ c' :: rest →
        Succeeds (c'.outcome (History.of before).registry) →
          c'.Agrees (History.of before).registry) ↔
        (History.of calls).registry.IsTruthful ∧
          (Succeeds (c.outcome (History.of calls).registry) →
            c.Agrees (History.of calls).registry) := by
      rw [ih earlier]
      constructor
      · intro h
        refine ⟨fun before c' rest split => h before c' (rest ++ [c]) (by simp [split]), ?_⟩
        exact h calls c [] rfl
      · rintro ⟨h, last⟩ before c' rest split
        rcases concat_eq_append_cons.1 split with ⟨rfl, rfl, rfl⟩ | ⟨rest, rfl, cut⟩
        · exact last
        · exact h before c' rest cut
    rw [run, History.of_concat]
    rcases c.extend_cases (History.of calls) with ⟨e, he, same⟩ | ⟨key, stored, published, grown⟩
    · simp [same, he]
    · rw [grown, published.isTruthful_iff (isFresh_of_concat hfresh)
        fun _ _ => exists_stored?_of_labeled? earlier.nodup]
      simp [published.outcome]

end Registry

namespace Sample

/-- The calls that publish both modules of the sample. -/
def calls : List Registry.Call :=
  [secondCalled, firstCalled]

theorem commit_of_mem_set {x : Module} (hx : x ∈ set.modules) : x.commit = .none := by
  rcases mem_modules_set.1 hx with rfl | rfl <;> rfl

theorem areFresh_calls : Registry.AreFresh calls := by
  have ne : ∀ x ∈ set.modules, x.commit ≠ commit 1 ∧ x.commit ≠ commit 2 := by
    intro x hx
    rw [commit_of_mem_set hx]
    decide
  have apart : commit 1 ≠ commit 2 := by
    decide
  constructor
  · simpa [calls, secondCalled, firstCalled, call] using ⟨apart, fun x hx => (ne x hx).2⟩
  · simpa [calls, secondCalled, firstCalled, call] using ⟨fun x hx => (ne x hx).1, fun x hx => (ne x hx).2⟩

end Sample

/-- In the sample, where no module has a commit of its own, the keys of what is published tell the
truth. -/
theorem Sample.isTruthful_calls : Registry.AreFresh calls ∧
    (∃ key ∈ (Registry.History.of calls).keys, key.name = fullName "a" (by decide)) ∧
      (Registry.History.of calls).registry.IsTruthful := by
  obtain ⟨key, key', hname, keys⟩ := exists_calls
  refine ⟨areFresh_calls, ⟨key', keys ▸ List.mem_cons_self, hname⟩, ?_⟩
  refine (Registry.isTruthful_of_calls areFresh_calls).2 ?_
  intro before c rest split _ ds hds d hd hown
  have hc : c ∈ calls := by
    rw [split]
    simp
  have inside := (c.reachable_after _).mem_modules_of_dependencies (c.mem_sets_after _) c.mem_modules
    hds hd
  simp only [calls, List.mem_cons, List.not_mem_nil, or_false] at hc
  have none : d.module.commit = .none := by
    rcases hc with rfl | rfl <;> exact commit_of_mem_set inside
  rw [none] at hown
  cases hown

namespace Sample

/-! The first module with another version of the second one, which stands at the commit at which the old
version was published. -/

def pinnedAddition : Addition :=
  .ofLocal (.memory ⟨[("b.proto", newData)]⟩) "b" { name := second.name, commit := some (commit 1) }

def pinnedSecond : Module :=
  { second with
    commit := commit 1
    inputs := pinnedAddition.inputs
    named_of_commit := fun _ => rfl }

def pinnedSet : ModuleSet := ⟨0, parser, [first, pinnedSecond], by decide, by decide⟩

def pinnedSession : Session :=
  ({} : Session).after (Session.build parser [addition "a" isValid_a, pinnedAddition])

theorem mem_modules_pinnedSet {x : Module} :
    x ∈ pinnedSet.modules ↔ x = first ∨ x = pinnedSecond := by
  simp [pinnedSet]

theorem sets_pinnedSession : pinnedSession.sets = [pinnedSet] := rfl

theorem pinnedSet_mem_sets : pinnedSet ∈ pinnedSession.sets :=
  sets_pinnedSession ▸ List.mem_singleton.2 rfl

theorem reachable_pinnedSession : Session.Reachable loads pinnedSession := by
  refine ⟨{}, .single (.build _ _ _ fun a ha keys hkeys => ?_)⟩
  simp only [List.mem_cons, List.not_mem_nil, or_false] at ha
  rcases ha with rfl | rfl <;> cases hkeys

theorem hasPlainPaths_pinnedSession :
    ∀ t ∈ pinnedSession.sets, t.HasPlainPaths pinnedSession.disk := by
  rw [sets_pinnedSession]
  refine List.forall_mem_singleton.2 ?_
  exact ModuleSet.hasPlainPaths_of_memory <| List.forall_mem_cons.2 ⟨⟨_, rfl, by decide⟩,
    List.forall_mem_singleton.2 ⟨_, rfl, by decide⟩⟩

def pinnedDirect : Access (Except Error) :=
  .direct {} [pinnedSet]

theorem isPlain_pinnedDirect : pinnedDirect.IsPlain {} [pinnedSet] :=
  Access.isPlain_direct _ _

theorem dependencies_pinned_first :
    pinnedSet.dependencies pinnedDirect first = .ok [⟨pinnedSecond, true⟩] := by
  cbv

theorem dependencies_pinnedSecond : pinnedSet.dependencies pinnedDirect pinnedSecond = .ok [] := by
  cbv

theorem contents_pinned_first : first.contents pinnedDirect = .ok [("a.proto", ⟨#[]⟩)] := by
  cbv

theorem contents_pinnedSecond :
    pinnedSecond.contents pinnedDirect = .ok [("b.proto", newData)] := by
  cbv

theorem digest_pinnedSecond : pinnedSet.digest pinnedDirect pinnedSecond .b5 =
    .ok (.ofStream .b5 (secondStream newData .b5)) :=
  (ModuleSet.digest_b5_eq_ok isPlain_pinnedDirect (mem_modules_pinnedSet.2 (.inr rfl)) rfl).2
    ⟨[], [], _, dependencies_pinnedSecond, by simp, .nil, contents_pinnedSecond, rfl⟩

theorem digest_pinned_first : pinnedSet.digest pinnedDirect first .b5 =
    .ok (.ofStream .b5 (firstStream newData .b5)) := by
  refine (ModuleSet.digest_b5_eq_ok isPlain_pinnedDirect (mem_modules_pinnedSet.2 (.inl rfl)) rfl).2
    ⟨_, _, _, dependencies_pinned_first, ?_, .cons digest_pinnedSecond .nil, contents_pinned_first,
      rfl⟩
  intro d hd _ back
  rw [List.mem_singleton.1 hd] at back
  obtain ⟨e, he, -⟩ := back.exists_mem dependencies_pinnedSecond
  cases he

theorem succeeds_push_old : Succeeds
    (({} : Registry).push (commit 1) (setWith oldData) (directWith oldData) (secondWith oldData)) := by
  refine Registry.succeeds_push rfl ⟨_, contents_secondWith oldData⟩ (dependencies_secondWith oldData)
    (by simp) ⟨none, rfl⟩ ⟨none, rfl⟩ (fun type => ⟨_, digest_secondWith oldData type⟩) (by decide)

/-- The new version of the second module is pinned to its own commit, whatever is stored there. -/
theorem succeeds_push_pinned (r : Registry) :
    Succeeds (r.push (commit 2) pinnedSet pinnedDirect first) := by
  refine Registry.succeeds_push rfl ⟨_, contents_pinned_first⟩ dependencies_pinned_first
    (fun d hd => ?_) ⟨none, rfl⟩ ⟨none, rfl⟩ (fun type => ?_) (by decide)
  · rw [List.mem_singleton.1 hd]
    refine ⟨⟨fullName "b" (by decide), commit 1, .known (.ofStream .b5 (secondStream newData .b5)),
      by decide⟩, Registry.pinnedKey_eq_ok.2 ⟨rfl, _, digest_pinnedSecond, ?_, rfl⟩⟩
    exact Registry.pin_eq_ok.2 (.inl ⟨by decide, rfl⟩)
  · cases type with
    | b4 => exact ⟨_, (ModuleSet.digest_b4_eq_ok isPlain_pinnedDirect).2
        ⟨none, none, _, rfl, rfl, contents_pinned_first, rfl⟩⟩
    | b5 => exact ⟨_, digest_pinned_first⟩

def oldCall : Registry.Call where
  loads := loads
  session := sessionWith oldData
  isReachable := reachable_sessionWith oldData
  set := setWith oldData
  mem_sets := setWith_mem_sets oldData
  module := secondWith oldData
  mem_modules := (mem_modules_setWith oldData).2 (.inr rfl)
  commit := commit 1
  proper := isNone_commit_one

def pinnedCall : Registry.Call where
  loads := loads
  session := pinnedSession
  isReachable := reachable_pinnedSession
  set := pinnedSet
  mem_sets := pinnedSet_mem_sets
  module := first
  mem_modules := mem_modules_pinnedSet.2 (.inl rfl)
  commit := commit 2
  proper := isNone_commit_two

/-- The dependency is kept at its commit, under the digest of the new version. -/
theorem exists_key_of_isSnapshot_pinned {r : Registry} {stored : StoredCommit}
    (h : r.IsSnapshot pinnedSet pinnedDirect first stored) : ∃ key ∈ stored.dependencies,
      key.commit = commit 1 ∧ key.origin = .known (.ofStream .b5 (secondStream newData .b5)) := by
  have pinned := h.forall₂_pinnedKey dependencies_pinned_first
  obtain ⟨key, rest, hkey, -, keys⟩ := List.forall₂_cons_left_iff.1 pinned
  obtain ⟨-, digest, hdigest, hpin, horigin⟩ := Registry.pinnedKey_eq_ok.1 hkey
  cases hdigest.symm.trans digest_pinnedSecond
  refine ⟨key, keys ▸ List.mem_cons_self, ?_, horigin⟩
  rcases Registry.pin_eq_ok.1 hpin with ⟨-, hcommit⟩ | ⟨hnone, -⟩
  · exact hcommit
  · exact absurd hnone (by decide)

theorem areFresh_pinned : Registry.AreFresh [oldCall, pinnedCall] := by
  have old : ∀ x ∈ (setWith oldData).modules, x.commit = .none := by
    intro x hx
    rcases (mem_modules_setWith oldData).1 hx with rfl | rfl <;> rfl
  have new : ∀ x ∈ pinnedSet.modules, x.commit ≠ commit 2 := by
    intro x hx
    rcases mem_modules_pinnedSet.1 hx with rfl | rfl <;> decide
  constructor
  · simp only [List.pairwise_cons, List.mem_singleton, forall_eq, List.not_mem_nil,
      false_imp_iff, implies_true, List.Pairwise.nil, and_true]
    refine ⟨by decide, fun x hx => ?_⟩
    rw [old x hx]
    decide
  · intro c hc x hx
    simp only [List.mem_cons, List.not_mem_nil, or_false] at hc
    rcases hc with rfl | rfl
    · rw [old x hx]
      decide
    · exact new x hx

theorem outcome_oldCall (r : Registry) : oldCall.outcome r =
    r.push (commit 1) (setWith oldData) (directWith oldData) (secondWith oldData) := by
  refine (oldCall.outcome_eq r).trans <| (reachable_sessionWith oldData).outcome_push (fun t ht => ?_)
    (setWith_mem_sets oldData) ((mem_modules_setWith oldData).2 (.inr rfl))
  rw [List.mem_singleton.1 ht]
  exact hasPlainPaths_setWith oldData _

theorem outcome_pinnedCall (r : Registry) : pinnedCall.outcome r =
    r.push (commit 2) pinnedSet pinnedDirect first :=
  (pinnedCall.outcome_eq r).trans <| reachable_pinnedSession.outcome_push hasPlainPaths_pinnedSession
    pinnedSet_mem_sets (mem_modules_pinnedSet.2 (.inl rfl))

end Sample

/-- In the sample, the key of a dependency that was edited after it was published at its commit has
another digest than what is stored there. -/
theorem Sample.not_isTruthful_pinned : ∃ calls : List Registry.Call, Registry.AreFresh calls ∧
    (∀ c ∈ calls, c.module.isLocal = true) ∧
      ¬ (Registry.History.of calls).registry.IsTruthful := by
  refine ⟨[oldCall, pinnedCall], areFresh_pinned, ?_, fun truthful => ?_⟩
  · intro c hc
    simp only [List.mem_cons, List.not_mem_nil, or_false] at hc
    rcases hc with rfl | rfl <;> rfl
  · obtain ⟨⟨r, key⟩, hpush⟩ := succeeds_push_old
    obtain ⟨stored, snapshot, rfl, -⟩ := Registry.push_eq_ok hpush
    -- the dependency is kept at the commit at which its old version is stored
    obtain ⟨⟨r', key'⟩, hpush'⟩ := succeeds_push_pinned (({} : Registry).insert (commit 1) stored)
    obtain ⟨stored', snapshot', rfl, -⟩ := Registry.push_eq_ok hpush'
    have outcome := (outcome_oldCall {}).trans hpush
    have outcome' := (outcome_pinnedCall _).trans hpush'
    have registry : (Registry.History.of [oldCall, pinnedCall]).registry =
        (({} : Registry).insert (commit 1) stored).insert (commit 2) stored' := by
      let before : Registry.History := ⟨({} : Registry).insert (commit 1) stored, [key]⟩
      have published : oldCall.extend {} = before := Registry.Call.extend_of_ok (h := {}) outcome
      have published' := Registry.Call.extend_of_ok (h := before) outcome'
      change (pinnedCall.extend (oldCall.extend {})).registry = _
      rw [published, published']
    obtain ⟨dep, hdep, hcommit, horigin⟩ := exists_key_of_isSnapshot_pinned snapshot'
    have told := truthful (commit 2) stored' (by rw [registry, Registry.commit?_insert, if_pos rfl])
      dep hdep stored (by
        rw [registry, hcommit, Registry.commit?_insert, if_neg (by decide),
          Registry.commit?_insert, if_pos rfl])
    have recorded := Except.ok.inj (snapshot.b5.symm.trans (digest_secondWith oldData .b5))
    rw [horigin, recorded] at told
    exact hash_secondStream_ne .b5 (congrArg Digest.value (DigestOrigin.known.inj told.2)).symm

end ProtoWorkspace
