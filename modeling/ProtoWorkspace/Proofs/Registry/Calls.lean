import ProtoWorkspace.Proofs.Registry.Steps
import ProtoWorkspace.Proofs.Registry.Told

/-!
# Calls to publish

Modules of any sets are published in one registry, in whatever sessions they were made, and a call
may fail. The registry then stays as it is. What a successful call stored is delivered ever after
under the key that the call gave, and under no other name, and the label `main` of a name stands for
the last key with that name. All of this follows from what one call adds to the registry.
-/

namespace ProtoWorkspace

open Relation Fallible

theorem ModuleKey.eq_of_parts {a b : ModuleKey} (hname : a.name = b.name)
    (hcommit : a.commit = b.commit) (horigin : a.origin = b.origin) : a = b := by
  cases a
  cases b
  simp_all

/-- A list with one more element is cut in front of that element, or in front of an earlier one. -/
theorem concat_eq_append_cons {α : Type} {xs before rest : List α} {x y : α} :
    xs ++ [x] = before ++ y :: rest ↔
      before = xs ∧ y = x ∧ rest = [] ∨ ∃ rest', rest = rest' ++ [x] ∧ xs = before ++ y :: rest' := by
  constructor
  · intro split
    rcases List.eq_nil_or_concat rest with rfl | ⟨rest, last, rfl⟩
    · obtain ⟨rfl, same⟩ := List.append_inj' split rfl
      exact .inl ⟨rfl, (List.singleton_inj.1 same).symm, rfl⟩
    · rw [List.concat_eq_append, ← List.cons_append, ← List.append_assoc] at split
      obtain ⟨rfl, same⟩ := List.append_inj' split rfl
      exact .inr ⟨rest, by rw [List.concat_eq_append, List.singleton_inj.1 same], rfl⟩
  · rintro (⟨rfl, rfl, rfl⟩ | ⟨rest, rfl, rfl⟩)
    · rfl
    · simp

namespace Registry

theorem digest_eq_ok {r : Registry} {key : ModuleKey} {type : DigestType} {digest : Digest} :
    r.digest type key = .ok digest ↔
      ∃ stored, r.stored? key.name key.commit = some stored ∧ digest = stored.digest type := by
  rw [Registry.digest, bind_eq_ok]
  refine exists_congr fun stored => and_congr find_eq_ok ?_
  rw [pure_eq_ok, Except.ok.injEq]
  cases type <;> exact eq_comm

/-! ## Calls -/

/-- A call to publish a module of a set of a session at a commit. -/
structure Call where
  loads : Nat → Except Error Digest
  session : Session
  isReachable : Session.Reachable loads session
  set : ModuleSet
  mem_sets : set ∈ session.sets
  module : Module
  mem_modules : module ∈ set.modules
  commit : CommitId
  /-- What stands for no commit is never drawn. -/
  proper : commit.isNone = false

/-- A registry, and the keys that the calls gave which published in it, the latest ones first. -/
structure History where
  registry : Registry := {}
  keys : List ModuleKey := []

namespace Call

/-- What comes of a call: a key or an error, and in any case a registry and a session. -/
def run (c : Call) (r : Registry) : (Except Error ModuleKey × Registry) × Session :=
  publish c.commit c.set c.module r c.session

/-- The registry after a call, be it that it failed. -/
def registryAfter (c : Call) (r : Registry) : Registry :=
  (c.run r).1.2

/-- The session of a call afterwards. -/
def sessionAfter (c : Call) (r : Registry) : Session :=
  (c.run r).2

def outcome (c : Call) (r : Registry) : Except Error (Registry × ModuleKey) :=
  (c.registryAfter r, ·) <$> (c.run r).1.1

/-- A history with one more call. -/
def extend (h : History) (c : Call) : History where
  registry := c.registryAfter h.registry
  keys :=
    match c.outcome h.registry with
    | .ok (_, key) => key :: h.keys
    | .error _ => h.keys

theorem run_eq (c : Call) (r : Registry) : c.run r =
    match r.push c.commit c.set Session.access c.module c.session with
    | (.ok (r', key), σ) => ((.ok key, r'), σ)
    | (.error e, σ) => ((.error e, r), σ) :=
  publish_eq_push c.proper

theorem outcome_eq (c : Call) (r : Registry) :
    c.outcome r = c.session.outcome (r.push c.commit c.set Session.access c.module) := by
  unfold outcome registryAfter Session.outcome
  rw [run_eq]
  rcases r.push c.commit c.set Session.access c.module c.session with ⟨_ | ⟨r', key⟩, σ⟩ <;> rfl

theorem sessionAfter_eq (c : Call) (r : Registry) :
    c.sessionAfter r = c.session.after (r.push c.commit c.set Session.access c.module) := by
  unfold sessionAfter Session.after
  rw [run_eq]
  rcases r.push c.commit c.set Session.access c.module c.session with ⟨_ | ⟨r', key⟩, σ⟩ <;> rfl

/-- A call that fails has written nothing. -/
theorem registryAfter_of_error {c : Call} {r : Registry} {e : Error} (h : c.outcome r = .error e) :
    c.registryAfter r = r := by
  rw [outcome_eq] at h
  unfold registryAfter
  rw [run_eq]
  rcases hrun : r.push c.commit c.set Session.access c.module c.session with ⟨_ | result, σ⟩
  · rfl
  · rw [Session.outcome, hrun] at h
    cases h

theorem registryAfter_of_ok {c : Call} {r r' : Registry} {key : ModuleKey}
    (h : c.outcome r = .ok (r', key)) : c.registryAfter r = r' := by
  obtain ⟨key', -, same⟩ := map_eq_ok.1 h
  exact congrArg Prod.fst same

theorem extend_of_error {h : History} {c : Call} {e : Error} (failed : c.outcome h.registry = .error e) :
    c.extend h = h := by
  rw [extend, failed, registryAfter_of_error failed]

theorem extend_of_ok {h : History} {c : Call} {r : Registry} {key : ModuleKey}
    (published : c.outcome h.registry = .ok (r, key)) : c.extend h = ⟨r, key :: h.keys⟩ := by
  rw [extend, published, registryAfter_of_ok published]

theorem before_sessionAfter (c : Call) (r : Registry) : c.session.Before (c.sessionAfter r) := by
  rw [sessionAfter_eq]
  exact Cumulative.before c.session

/-- Whether a call publishes in a registry what its session tells of the module, then and ever
after. -/
structure Publishes (c : Call) (r : Registry) (key : ModuleKey) (stored : StoredCommit) :
    Prop where
  outcome : c.outcome r = .ok (r.insert c.commit stored, key)
  name : key.name = stored.name
  commit : key.commit = c.commit
  origin : key.origin = .known stored.b5
  told : ∀ τ, Session.Reaches c.loads (c.sessionAfter r) τ → τ.Tells r c.set c.module stored

theorem mem_sets_after (c : Call) (r : Registry) : c.set ∈ (c.sessionAfter r).sets :=
  (c.before_sessionAfter r).sets.subset c.mem_sets

theorem reachable_after (c : Call) (r : Registry) :
    Session.Reachable c.loads (c.sessionAfter r) := by
  rw [sessionAfter_eq]
  exact c.isReachable.query (.push r c.commit c.mem_sets c.mem_modules)

variable {c : Call} {r r' : Registry} {key : ModuleKey}

/-- A call that succeeds publishes. -/
theorem publishes_of_outcome (h : c.outcome r = .ok (r', key)) :
    ∃ stored, r' = r.insert c.commit stored ∧ c.Publishes r key stored := by
  have hpush := h
  rw [outcome_eq] at hpush
  obtain ⟨stored, rfl, hname, hcommit, horigin, snapshots⟩ :=
    c.isReachable.exists_snapshot c.mem_sets c.mem_modules hpush
  rw [← sessionAfter_eq] at snapshots
  refine ⟨stored, rfl, h, hname, hcommit, horigin, fun τ hτ => ?_⟩
  have hs := hτ.before.sets.subset (c.mem_sets_after r)
  exact ((c.reachable_after r).of_reaches hτ).tells hs c.mem_modules fun υ hυ =>
    snapshots υ (hτ.trans hυ)

end Call

/-- A call fails and leaves a history as it is, or publishes. -/
theorem Call.extend_cases (h : History) (c : Call) :
    (∃ e, c.outcome h.registry = .error e ∧ c.extend h = h) ∨
      ∃ key stored, c.Publishes h.registry key stored ∧
        c.extend h = ⟨h.registry.insert c.commit stored, key :: h.keys⟩ := by
  cases houtcome : c.outcome h.registry with
  | error e => exact .inl ⟨e, rfl, extend_of_error houtcome⟩
  | ok result =>
    obtain ⟨stored, hr, published⟩ := publishes_of_outcome houtcome
    exact .inr ⟨result.2, stored, published, hr ▸ extend_of_ok houtcome⟩

theorem Call.Publishes.unique {c : Call} {r : Registry} {key key' : ModuleKey}
    {stored stored' : StoredCommit} (h : c.Publishes r key stored)
    (h' : c.Publishes r key' stored') : key = key' ∧ stored = stored' := by
  have same := Except.ok.inj (h.outcome.symm.trans h'.outcome)
  have commits := congrArg Registry.commits (congrArg Prod.fst same)
  exact ⟨congrArg Prod.snd same, (Prod.mk.inj (List.cons.inj commits).1).2⟩

/-- The history of a list of calls. -/
def History.of (calls : List Call) : History :=
  calls.foldl Call.extend {}

/-- Whether one of the calls published something under a key. -/
def IsPublished (calls : List Call) (key : ModuleKey) (stored : StoredCommit) : Prop :=
  ∃ before c rest, calls = before ++ c :: rest ∧
    c.Publishes (History.of before).registry key stored

variable {calls : List Call} {c : Call} {key key' : ModuleKey} {stored stored' : StoredCommit}

theorem History.of_concat : History.of (calls ++ [c]) = c.extend (History.of calls) :=
  List.foldl_concat ..

theorem not_isPublished_nil : ¬ IsPublished [] key stored := by
  rintro ⟨before, c, rest, split, -⟩
  simp at split

theorem isPublished_concat : IsPublished (calls ++ [c]) key stored ↔
    IsPublished calls key stored ∨ c.Publishes (History.of calls).registry key stored := by
  constructor
  · rintro ⟨before, c', rest, split, published⟩
    rcases concat_eq_append_cons.1 split with ⟨rfl, rfl, rfl⟩ | ⟨rest, rfl, rfl⟩
    · exact .inr published
    · exact .inl ⟨before, c', rest, rfl, published⟩
  · intro h
    rcases h with ⟨before, c', rest, rfl, published⟩ | published
    · exact ⟨before, c', rest ++ [c], by simp, published⟩
    · exact ⟨calls, c, [], rfl, published⟩

theorem IsPublished.name (h : IsPublished calls key stored) : key.name = stored.name := by
  obtain ⟨_, _, _, -, published⟩ := h
  exact published.name

theorem IsPublished.origin (h : IsPublished calls key stored) : key.origin = .known stored.b5 := by
  obtain ⟨_, _, _, -, published⟩ := h
  exact published.origin

theorem IsPublished.mem_commits (h : IsPublished calls key stored) :
    key.commit ∈ calls.map Call.commit := by
  obtain ⟨before, c, rest, rfl, published⟩ := h
  simp [published.commit]

/-! ## What a run of calls keeps -/

/-- The keys of a history are those under which something was published. -/
theorem mem_keys_iff : key ∈ (History.of calls).keys ↔ ∃ stored, IsPublished calls key stored := by
  induction calls using List.reverseRecOn with
  | nil => simp [History.of, not_isPublished_nil]
  | append_singleton calls c ih =>
    simp only [History.of_concat, isPublished_concat, exists_or, ← ih]
    rcases c.extend_cases (History.of calls) with ⟨e, he, same⟩ | ⟨key₀, stored₀, published, grown⟩
    · have none : ¬ ∃ stored, c.Publishes (History.of calls).registry key stored := by
        rintro ⟨stored, h⟩
        cases he.symm.trans h.outcome
      rw [same]
      simp [none]
    · rw [grown, List.mem_cons, or_comm]
      refine or_congr_right ⟨?_, ?_⟩
      · rintro rfl
        exact ⟨stored₀, published⟩
      · rintro ⟨stored, h⟩
        exact (h.unique published).1

/-- There is one label for each key, which points to the commit of the key. -/
theorem labels_of_calls : (History.of calls).registry.labels =
    (History.of calls).keys.map fun key => ((key.name, mainLabel), key.commit) := by
  induction calls using List.reverseRecOn with
  | nil => rfl
  | append_singleton calls c ih =>
    rw [History.of_concat]
    rcases c.extend_cases (History.of calls) with ⟨e, -, same⟩ | ⟨key, stored, published, grown⟩
    · rw [same, ih]
    · rw [grown, List.map_cons, ← ih, published.name, published.commit]
      rfl

/-- A label stands for the last key with its name. -/
theorem labeled?_of_calls (name : FullName) (label : String) :
    (History.of calls).registry.labeled? name label =
      if label = mainLabel then
        ((History.of calls).keys.find? (·.name == name)).map ModuleKey.commit
      else none := by
  rw [labeled?, labels_of_calls]
  induction (History.of calls).keys with
  | nil => simp
  | cons key keys ih =>
    rw [List.map_cons, List.lookup_cons, ih, List.find?_cons]
    by_cases same : key.name = name ∧ label = mainLabel
    · simp [same]
    · have other : (name, label) ≠ (key.name, mainLabel) := by
        intro h
        obtain ⟨hname, hlabel⟩ := Prod.mk.inj h
        exact same ⟨hname.symm, hlabel⟩
      rw [beq_false_of_ne other]
      by_cases hlabel : label = mainLabel
      · have hname : key.name ≠ name := fun hname => same ⟨hname, hlabel⟩
        simp [beq_false_of_ne hname]
      · simp [hlabel]

variable {name : FullName} {commit : CommitId} (hfresh : (calls.map Call.commit).Nodup)

include hfresh

/-- What is stored at a commit is what was published there. -/
theorem commit?_of_calls : (History.of calls).registry.commit? commit = some stored ↔
    ∃ key, IsPublished calls key stored ∧ key.commit = commit := by
  induction calls using List.reverseRecOn with
  | nil => simp [History.of, commit?, not_isPublished_nil]
  | append_singleton calls c ih =>
    rw [List.map_append, List.nodup_append] at hfresh
    obtain ⟨hfresh, -, unused⟩ := hfresh
    simp only [History.of_concat, isPublished_concat, or_and_right, exists_or, ← ih hfresh]
    rcases c.extend_cases (History.of calls) with ⟨e, he, same⟩ | ⟨key₀, stored₀, published, grown⟩
    · have none : ¬ ∃ key, c.Publishes (History.of calls).registry key stored ∧
          key.commit = commit := by
        rintro ⟨key, h, -⟩
        cases he.symm.trans h.outcome
      rw [same]
      simp [none]
    · rw [grown, commit?_insert]
      by_cases here : commit = c.commit
      · have before : (History.of calls).registry.commit? commit ≠ some stored := by
          intro h
          obtain ⟨key, h, hcommit⟩ := (ih hfresh).1 h
          exact unused _ h.mem_commits c.commit (by simp) (hcommit.trans here)
        rw [if_pos here]
        constructor
        · intro h
          cases h
          exact .inr ⟨key₀, published, published.commit.trans here.symm⟩
        · rintro (h | ⟨key, h, -⟩)
          · exact absurd h before
          · rw [(h.unique published).2]
      · have other : ¬ ∃ key, c.Publishes (History.of calls).registry key stored ∧
            key.commit = commit := by
          rintro ⟨key, h, hcommit⟩
          exact here (hcommit.symm.trans h.commit)
        rw [if_neg here]
        simp [other]

theorem stored?_of_calls : (History.of calls).registry.stored? name commit = some stored ↔
    ∃ key, IsPublished calls key stored ∧ key.name = name ∧ key.commit = commit := by
  rw [stored?_eq_some, commit?_of_calls hfresh]
  constructor
  · rintro ⟨⟨key, h, hcommit⟩, hname⟩
    exact ⟨key, h, h.name.trans hname, hcommit⟩
  · rintro ⟨key, h, hname, hcommit⟩
    exact ⟨⟨key, h, hcommit⟩, h.name.symm.trans hname⟩

theorem IsPublished.unique (h : IsPublished calls key stored) (h' : IsPublished calls key' stored')
    (same : key.commit = key'.commit) : key = key' ∧ stored = stored' := by
  have there := (commit?_of_calls hfresh).2 ⟨key, h, same⟩
  have there' := (commit?_of_calls hfresh).2 ⟨key', h', rfl⟩
  obtain rfl : stored = stored' := Option.some.inj (there.symm.trans there')
  exact ⟨ModuleKey.eq_of_parts (h.name.trans h'.name.symm) same (h.origin.trans h'.origin.symm), rfl⟩

/-- A key is made for what is stored under a name at a commit, and is the one under which it was
published. -/
theorem make_of_calls :
    (∃ stored, (History.of calls).registry.stored? name commit = some stored ∧
      ModuleKey.make name commit (.known stored.b5) = .ok key) ↔
      key ∈ (History.of calls).keys ∧ key.name = name ∧ key.commit = commit := by
  simp only [stored?_of_calls hfresh, ModuleKey.make_eq_ok, mem_keys_iff]
  constructor
  · rintro ⟨stored, ⟨key', h, hname', hcommit'⟩, hname, hcommit, horigin⟩
    obtain rfl : key = key' := ModuleKey.eq_of_parts (hname.trans hname'.symm)
      (hcommit.trans hcommit'.symm) (horigin.trans h.origin.symm)
    exact ⟨⟨stored, h⟩, hname, hcommit⟩
  · rintro ⟨⟨stored, h⟩, hname, hcommit⟩
    exact ⟨stored, ⟨key, h, hname, hcommit⟩, hname, hcommit, h.origin⟩

/-- Whether a registry delivers exactly what calls published, under the keys that they gave. -/
structure History.Delivers (h : History) (calls : List Call) : Prop where
  mem_keys {key : ModuleKey} : key ∈ h.keys ↔ ∃ stored, IsPublished calls key stored
  /-- At a commit there is one content of one module. -/
  unique {key key' : ModuleKey} {stored stored' : StoredCommit} :
    IsPublished calls key stored → IsPublished calls key' stored' → key.commit = key'.commit →
      key = key' ∧ stored = stored'
  /-- There is no label but `main`, which points to the commit of the last key of a name. -/
  labels (name : FullName) (label : String) : h.registry.labeled? name label =
    if label = mainLabel then (h.keys.find? (·.name == name)).map ModuleKey.commit else none
  keyForRef_main (name : FullName) : h.registry.keyForRef name mainLabel =
    match h.keys.find? (·.name == name) with
    | some key => .ok key
    | none => .error (.provider (.notFound (name.text ++ ":" ++ mainLabel)))
  keyForRef {name : FullName} {reference : String} {commit : CommitId} {key : ModuleKey} :
    h.registry.labeled? name reference = none → CommitId.parse? reference = some commit →
      (h.registry.keyForRef name reference = .ok key ↔
        key ∈ h.keys ∧ key.name = name ∧ key.commit = commit)
  datas {keys : List ModuleKey} {datas : List ModuleData} :
    h.registry.provider.datas keys = .ok datas ↔
      List.Forall₂ (fun key d => ∃ published stored, IsPublished calls published stored ∧
        published.isSame key = true ∧ d = stored.dataFor key) keys datas
  digests {keys : List ModuleKey} {type : DigestType} {digests : List Digest} :
    h.registry.provider.digests keys type = .ok digests ↔
      List.Forall₂ (fun key digest => ∃ published stored, IsPublished calls published stored ∧
        published.isSame key = true ∧ digest = stored.digest type) keys digests

theorem find_of_calls : (History.of calls).registry.find key = .ok stored ↔
    ∃ published, IsPublished calls published stored ∧ published.isSame key = true := by
  simp [find_eq_ok, stored?_of_calls hfresh, ModuleKey.isSame]

theorem keyForRef_main_of_calls (name : FullName) :
    (History.of calls).registry.keyForRef name mainLabel =
      match (History.of calls).keys.find? (·.name == name) with
      | some key => .ok key
      | none => .error (.provider (.notFound (name.text ++ ":" ++ mainLabel))) := by
  have unread : CommitId.parse? mainLabel = none := by decide
  rw [keyForRef, labeled?_of_calls, if_pos rfl, unread]
  cases last : (History.of calls).keys.find? (·.name == name) with
  | none => rfl
  | some key =>
    have hname : key.name = name := by simpa using List.find?_some last
    have hkey := List.mem_of_find?_eq_some last
    obtain ⟨stored, there, made⟩ := (make_of_calls hfresh).2 ⟨hkey, hname, rfl⟩
    simp [there, made]

theorem keyForRef_of_calls {name : FullName} {reference : String} {commit : CommitId}
    (hlabel : (History.of calls).registry.labeled? name reference = none)
    (hread : CommitId.parse? reference = some commit) :
    (History.of calls).registry.keyForRef name reference = .ok key ↔
      key ∈ (History.of calls).keys ∧ key.name = name ∧ key.commit = commit := by
  rw [← make_of_calls hfresh, keyForRef, hlabel, hread]
  cases there : (History.of calls).registry.stored? name commit <;> simp [there]

/-- After calls at different commits, a registry delivers exactly what they published. -/
theorem delivers_of_calls : (History.of calls).Delivers calls where
  mem_keys := mem_keys_iff
  unique := IsPublished.unique hfresh
  labels := labeled?_of_calls
  keyForRef_main := keyForRef_main_of_calls hfresh
  keyForRef := keyForRef_of_calls hfresh
  datas := by
    intro keys datas
    refine mapM_eq_ok.trans (forall₂_congr_of_mem fun key _ d => ?_)
    rw [data_eq_ok]
    simp only [← find_eq_ok, find_of_calls hfresh]
    grind
  digests := by
    intro keys type digests
    refine mapM_eq_ok.trans (forall₂_congr_of_mem fun key _ digest => ?_)
    rw [digest_eq_ok]
    simp only [← find_eq_ok, find_of_calls hfresh]
    grind

omit hfresh in
/-- Whatever is published, each call at a commit of its own, a call that fails leaves the registry as
it is, and one that succeeds stores what its session tells of the module. The registry then delivers
exactly what was published, under the keys that the calls gave, and the label `main` stands for the
last key of each name. -/
theorem calls_delivered (calls : List Call) (hfresh : (calls.map Call.commit).Nodup) :
    (∀ before c rest, calls = before ++ c :: rest →
      (∀ e, c.outcome (History.of before).registry = .error e →
        History.of (before ++ [c]) = History.of before) ∧
      ∀ r key, c.outcome (History.of before).registry = .ok (r, key) →
        History.of (before ++ [c]) = ⟨r, key :: (History.of before).keys⟩ ∧
          ∃ stored, c.Publishes (History.of before).registry key stored) ∧
    (History.of calls).Delivers calls := by
  refine ⟨fun before c rest _ => ⟨fun e he => ?_, fun r key h => ?_⟩, delivers_of_calls hfresh⟩
  · rw [History.of_concat, Call.extend_of_error he]
  · obtain ⟨stored, -, published⟩ := Call.publishes_of_outcome h
    exact ⟨History.of_concat.trans (Call.extend_of_ok h), stored, published⟩

end Registry

namespace Sample

/-- A call to publish a module of the sample. -/
def call {x : Module} (hx : x ∈ set.modules) (digit : Fin 16) (proper : (commit digit).isNone = false) :
    Registry.Call where
  loads := loads
  session := session
  isReachable := reachable_session
  set := set
  mem_sets := set_mem_sets
  module := x
  mem_modules := hx
  commit := commit digit
  proper := proper

theorem outcome_call {x : Module} (hx : x ∈ set.modules) (digit : Fin 16)
    (proper : (commit digit).isNone = false) (r : Registry) : (call hx digit proper).outcome r =
      session.outcome (r.push (commit digit) set Session.access x) :=
  Registry.Call.outcome_eq (call hx digit proper) r

def secondCalled : Registry.Call :=
  call (mem_modules_set.2 (.inr rfl)) 1 isNone_commit_one

def firstCalled : Registry.Call :=
  call (mem_modules_set.2 (.inl rfl)) 2 isNone_commit_two

/-- In the sample, both modules can be published, the second one first. -/
theorem exists_calls : ∃ key key', key'.name = fullName "a" (by decide) ∧
    (Registry.History.of [secondCalled, firstCalled]).keys = [key', key] := by
  have reads : set.ReadsImports (session.directWorld loads).io _ :=
    ModuleSet.readsImports_direct (isLoadable_set session.disk)
  obtain ⟨stored, key, r, key', hpush, hpush'⟩ :=
    exists_pushes reachable_session.isSound_directWorld.plain reads
  rw [← reachable_session.outcome_push hasPlainPaths_sets set_mem_sets
    (mem_modules_set.2 (.inr rfl))] at hpush
  obtain ⟨stored', snapshot, -, hname, -⟩ := Registry.push_eq_ok hpush'
  rw [← reachable_session.outcome_push hasPlainPaths_sets set_mem_sets
    (mem_modules_set.2 (.inl rfl))] at hpush'
  refine ⟨key, key', hname.trans (Option.some.inj snapshot.name).symm, ?_⟩
  have outcome : secondCalled.outcome {} = .ok (({} : Registry).insert (commit 1) stored, key) :=
    (outcome_call _ 1 rfl {}).trans hpush
  have outcome' : firstCalled.outcome (({} : Registry).insert (commit 1) stored) = .ok (r, key') :=
    (outcome_call _ 2 rfl _).trans hpush'
  let before : Registry.History := ⟨({} : Registry).insert (commit 1) stored, [key]⟩
  have published : secondCalled.extend {} = before := Registry.Call.extend_of_ok (h := {}) outcome
  have published' : firstCalled.extend before = ⟨r, [key', key]⟩ :=
    Registry.Call.extend_of_ok (h := before) outcome'
  change (firstCalled.extend (secondCalled.extend {})).keys = _
  rw [published, published']

end Sample

/-- In the sample, the label `main` stands for the commit at which the first module was
published. -/
theorem Sample.keyForRef_main_first : ∃ (calls : List Registry.Call) (key : ModuleKey),
    (calls.map Registry.Call.commit).Nodup ∧ key ∈ (Registry.History.of calls).keys ∧
      (Registry.History.of calls).Delivers calls ∧
      (Registry.History.of calls).registry.keyForRef key.name Registry.mainLabel = .ok key := by
  obtain ⟨key, key', hname, keys⟩ := exists_calls
  have different : ([secondCalled, firstCalled].map Registry.Call.commit).Nodup := by
    decide
  obtain ⟨-, delivers⟩ := Registry.calls_delivered _ different
  refine ⟨_, key', different, keys ▸ List.mem_cons_self, delivers, ?_⟩
  rw [delivers.keyForRef_main, keys]
  simp

end ProtoWorkspace
