import Mathlib.Tactic
import ProtoWorkspace.Proofs.Dependencies.Walk
import ProtoWorkspace.Proofs.ModuleSet.Merge

/-!
# What a built set contains

When a set is built, each unnamed addition is one of its modules, and for each name that was added
there is one module: the local addition of the name, if there is one, and otherwise a remote one for
all of the name. The modules stand in the order in which their identities were first added.
-/

namespace ProtoWorkspace

open Fallible

namespace Addition

/-- Whether a module is what an addition says. -/
structure Makes (a : Addition) (x : Module) : Prop where
  name : x.name = a.name
  bucketId : x.bucketId = a.bucketId
  description : x.description = a.label
  commit : x.commit = a.commit
  isTarget : x.isTarget = a.isTarget
  isLocal : x.isLocal = a.isLocal
  inputs : x.inputs = a.inputs

theorem makes_of_toModule {a : Addition} {source : Source} {x : Module}
    (h : a.toModule source = .ok x) : a.Makes x := by
  obtain ⟨-, bucketId, description, name, commit, isTarget, isLocal, inputs⟩ := toModule_eq_ok h
  exact ⟨name, bucketId, description, commit, isTarget, isLocal, inputs⟩

theorem Makes.identity {a : Addition} {x : Module} (h : a.Makes x) : x.identity = a.identity := by
  rw [Module.identity, Addition.identity, h.name, h.bucketId]

/-- The local additions of a name. -/
def localsOf (additions : List Addition) (name : FullName) : List Addition :=
  additions.filter fun a => a.isLocal && a.name == some name

end Addition

/-- What the module of a name has from the additions of the name. -/
structure Module.Represents (x : Module) (additions : List Addition) (name : FullName) : Prop where
  name_eq : x.name = some name
  isLocal_iff : x.isLocal = true ↔ ∃ a ∈ additions, a.name = some name ∧ a.isLocal = true
  /-- The one local addition of the name is the module. -/
  of_local : x.isLocal = true → ∃ a, Addition.localsOf additions name = [a] ∧ a.Makes x
  /-- The additions of the name agree on the commit, and it is a target if one of them is. -/
  of_remote : x.isLocal = false →
    (∀ a ∈ additions, a.name = some name → a.commit = x.commit) ∧
      (x.isTarget = true ↔ ∃ a ∈ additions, a.name = some name ∧ a.isTarget = true)

namespace ModuleSet

open Addition

/-- What a set contains that was built of the given additions. -/
structure Holds (t : ModuleSet) (additions : List Addition) : Prop where
  /-- Each unnamed addition is one module. -/
  unnamed : List.Forall₂ Makes (additions.filter (·.name.isNone))
    (t.modules.filter (·.name.isNone))
  /-- Each name that was added has one module. -/
  named : ∀ a ∈ additions, ∀ name, a.name = some name →
    ∃ x ∈ t.modules, x.Represents additions name ∧ ∀ y ∈ t.modules, y.name = some name → y = x
  /-- An identity stands where it was added first. -/
  order : t.identities = (additions.map Addition.identity).eraseDups
  identities : t.identities.Nodup
  directories : ((t.modules.map Module.bucketId).filter (· ≠ "")).Nodup
  find : ∀ id ≠ "", ∀ x, t.find? id = some x ↔ x ∈ t.modules ∧ x.identity = id
  findBucket : ∀ id ≠ "", ∀ x, t.findBucket? id = some x ↔ x ∈ t.modules ∧ x.bucketId = id

theorem eraseDups_of_nodup {l : List String} (h : l.Nodup) : l.eraseDups = l := by
  induction l with
  | nil => rfl
  | cons a rest ih =>
    obtain ⟨ha, hrest⟩ := List.nodup_cons.1 h
    have others : (rest.filter fun b => !b == a) = rest := by
      refine List.filter_eq_self.2 fun b hb => ?_
      simpa using fun same : b = a => ha (same ▸ hb)
    rw [List.eraseDups_cons, others, ih hrest]

/-- The first element that passes a test is the only one that does. -/
theorem find?_eq_some_iff_of_unique {l : List Module} {p : Module → Bool} {x : Module}
    (unique : ∀ y ∈ l, x ∈ l → p x = true → p y = true → y = x) :
    l.find? p = some x ↔ x ∈ l ∧ p x = true := by
  constructor
  · intro h
    exact ⟨List.mem_of_find?_eq_some h, List.find?_some h⟩
  · rintro ⟨hx, hp⟩
    obtain ⟨y, hy⟩ := Option.isSome_iff_exists.1 (List.find?_isSome.2 ⟨x, hx, hp⟩)
    rw [hy, unique y (List.mem_of_find?_eq_some hy) hx hp (List.find?_some hy)]

theorem find?_eq_some {t : ModuleSet} {id : String} {x : Module} :
    t.find? id = some x ↔ x ∈ t.modules ∧ x.identity = id := by
  rw [find?, find?_eq_some_iff_of_unique, beq_iff_eq]
  intro y hy hx hxid hyid
  exact eq_of_identity hy hx ((beq_iff_eq.1 hyid).trans (beq_iff_eq.1 hxid).symm)

theorem eq_of_bucketId {t : ModuleSet} {x y : Module} (hx : x ∈ t.modules) (hy : y ∈ t.modules)
    (hne : x.bucketId ≠ "") (same : x.bucketId = y.bucketId) : x = y := by
  have different := t.nodup_bucketId
  rw [List.filter_map] at different
  refine List.inj_on_of_nodup_map different (List.mem_filter.2 ⟨hx, ?_⟩)
    (List.mem_filter.2 ⟨hy, ?_⟩) same
  · simpa using hne
  · simpa using same ▸ hne

theorem findBucket?_eq_some {t : ModuleSet} {id : String} (hid : id ≠ "") {x : Module} :
    t.findBucket? id = some x ↔ x ∈ t.modules ∧ x.bucketId = id := by
  rw [findBucket?, if_neg hid, find?_eq_some_iff_of_unique, beq_iff_eq]
  intro y hy hx hxid hyid
  rw [beq_iff_eq] at hxid hyid
  exact eq_of_bucketId hy hx (hyid ▸ hid) (hyid.trans hxid.symm)

section

variable {number : Nat} {parser : ImportParser} {additions : List Addition} {t : ModuleSet}
  {kept : List (Source × Addition)}

theorem map_identity_of_made
    (made : List.Forall₂ (fun p x => p.2.Makes x) kept t.modules) :
    kept.map (·.2.identity) = t.identities :=
  map_eq_map_of_forall₂ (made.imp fun _ _ h => h.identity.symm)

/-- Where all additions are kept, they are the modules of the set, in their order. -/
theorem makes_of_build (h : build number parser additions = .ok t)
    (all : mergeAll (placed number additions) = .ok (placed number additions)) :
    List.Forall₂ Makes additions t.modules := by
  obtain ⟨-, -, kept, hkept, hmodules⟩ := build_eq_ok h
  obtain rfl := Except.ok.inj (all.symm.trans hkept)
  rw [← map_snd_placed number additions, List.forall₂_map_left_iff]
  exact (mapM_eq_ok.1 hmodules).imp fun _ _ => makes_of_toModule

theorem makes_of_build_isLocal (h : build number parser additions = .ok t)
    (hl : ∀ a ∈ additions, a.isLocal = true) : List.Forall₂ Makes additions t.modules :=
  makes_of_build h (mergeAll_of_isLocal fun p hp => hl p.2 (mem_of_mem_placed hp))

/-- What is kept of a name that has a local addition is one local addition, the only one of the
name. -/
theorem localsOf_eq_of_mem {name : FullName} {p : Source × Addition}
    (settled : Settles (placed number additions) kept)
    (different : (kept.map (·.2.identity)).Nodup) (hp : p ∈ kept) (hname : p.2.name = some name)
    (hlocal : p.2.isLocal = true) : localsOf additions name = [p.2] := by
  let ofName : Source × Addition → Bool := fun q => q.2.isLocal && q.2.name == some name
  have present : p ∈ kept.filter ofName := by
    simp [ofName, hp, hname, hlocal]
  have single : kept.filter ofName = [p] := by
    have alike : ∀ i ∈ (kept.filter ofName).map (·.2.identity), i = name.text := by
      intro i hi
      obtain ⟨q, hq, rfl⟩ := List.mem_map.1 hi
      obtain ⟨-, hname⟩ : q.2.isLocal = true ∧ q.2.name = some name := by
        simpa [ofName] using (List.mem_filter.1 hq).2
      rw [Addition.identity, hname, identityOf]
    have few := different.sublist ((List.filter_sublist (p := ofName)).map _)
    rw [List.eq_replicate_of_mem alike, List.nodup_replicate, List.length_map] at few
    have : (kept.filter ofName).length = 1 := by
      have := List.length_pos_of_mem present
      omega
    obtain ⟨q, hq⟩ := List.length_eq_one_iff.1 this
    rw [hq] at present ⊢
    rw [List.mem_singleton.1 present]
  have narrower : ∀ l : List (Source × Addition),
      (l.filter (·.2.stays)).filter ofName = l.filter ofName := by
    intro l
    rw [List.filter_filter]
    refine List.filter_congr fun q _ => ?_
    by_cases h : q.2.isLocal = true <;> simp [ofName, Addition.stays, h]
  have arrived : (placed number additions).filter ofName = [p] := by
    have := settled.stays.filter ofName
    rw [narrower, narrower, single] at this
    exact List.perm_singleton.1 this.symm
  have := congrArg (List.map Prod.snd) arrived
  rw [localsOf, ← map_snd_placed number additions, List.filter_map]
  exact this

theorem represents_of_mem {name : FullName} {p : Source × Addition} {x : Module}
    (settled : Settles (placed number additions) kept)
    (different : (kept.map (·.2.identity)).Nodup) (hp : p ∈ kept) (hname : p.2.name = some name)
    (made : p.2.Makes x) : x.Represents additions name := by
  by_cases hlocal : p.2.isLocal = true
  · have only := localsOf_eq_of_mem settled different hp hname hlocal
    have added : p.2 ∈ localsOf additions name := by simp [only]
    have nowRemote : x.isLocal ≠ false := by simp [made.isLocal, hlocal]
    refine ⟨made.name.trans hname, ?_, fun _ => ⟨p.2, only, made⟩, fun h => absurd h nowRemote⟩
    simp only [made.isLocal, hlocal, true_iff]
    exact ⟨p.2, (List.mem_filter.1 added).1, hname, hlocal⟩
  · have remote := Bool.eq_false_of_not_eq_true hlocal
    obtain ⟨agree, target⟩ :=
      settled.remote p hp (stays_eq_false.2 ⟨remote, by simp [hname]⟩)
    have agree' : ∀ a ∈ additions, a.name = some name →
        a.isLocal = false ∧ a.commit = p.2.commit := by
      intro a ha same
      obtain ⟨q, hq, rfl⟩ := exists_mem_placed number ha
      exact agree q hq (same.trans hname.symm)
    refine ⟨made.name.trans hname, ?_, fun h => ?_, fun _ => ⟨fun a ha same => ?_, ?_⟩⟩
    · rw [made.isLocal]
      constructor
      · exact fun h => absurd h hlocal
      · rintro ⟨a, ha, same, isLocal⟩
        rw [(agree' a ha same).1] at isLocal
        cases isLocal
    · exact absurd (made.isLocal ▸ h) hlocal
    · rw [made.commit]
      exact (agree' a ha same).2
    · rw [made.isTarget, target, hname]
      constructor
      · rintro ⟨q, hq, same, isTarget⟩
        exact ⟨q.2, mem_of_mem_placed hq, same, isTarget⟩
      · rintro ⟨a, ha, same, isTarget⟩
        obtain ⟨q, hq, rfl⟩ := exists_mem_placed number ha
        exact ⟨q, hq, same, isTarget⟩

/-- A set holds what its additions say: unnamed ones as they are, one module for each name, in the
order in which identities were first added. -/
theorem holds_of_build (h : build number parser additions = .ok t) : t.Holds additions := by
  obtain ⟨kept, settled, made⟩ := exists_kept_of_build h
  replace made : List.Forall₂ (fun p x => p.2.Makes x) kept t.modules :=
    made.imp fun _ _ => makes_of_toModule
  have identities : kept.map (·.2.identity) = t.identities := map_identity_of_made made
  have different : (kept.map (·.2.identity)).Nodup := identities ▸ t.nodup_identity
  refine ⟨?_, ?_, ?_, t.nodup_identity, t.nodup_bucketId, fun id _ x => find?_eq_some,
    fun id hid x => findBucket?_eq_some hid⟩
  · have alone : List.Forall₂ (fun p x => p.2.Makes x) (kept.filter (·.2.name.isNone))
        (t.modules.filter (·.name.isNone)) :=
      List.rel_filter (fun p x makes => by simp [makes.name]) made
    rw [settled.unnamed] at alone
    rw [← map_snd_placed number additions, List.filter_map, List.forall₂_map_left_iff]
    exact alone
  · intro a ha name hname
    obtain ⟨p, hp, rfl⟩ := exists_mem_placed number ha
    obtain ⟨q, hq, same⟩ := settled.covers p hp
    obtain ⟨x, hx, makes⟩ := exists_of_mem_right made.flip hq
    have represents := represents_of_mem settled different hq (same.trans hname) makes
    refine ⟨x, hx, represents, fun y hy hyname => eq_of_identity hy hx ?_⟩
    rw [Module.identity_of_name hyname, Module.identity_of_name represents.name_eq]
  · have order := settled.order
    rw [eraseDups_of_nodup different, identities] at order
    conv_rhs => rw [← map_snd_placed number additions, List.map_map]
    exact order

end

end ModuleSet

namespace Sample

/-! A local and two remote modules of one name, the latter at different commits. -/

theorem isValid_registry : NamePart.IsValid "registry" := by decide

theorem isValid_owner : NamePart.IsValid "owner" := by decide

theorem isValid_shared : NamePart.IsValid "shared" := by decide

def sharedName : FullName :=
  ⟨"registry", "owner", "shared", isValid_registry, isValid_owner, isValid_shared⟩

def sharedLocal : Addition :=
  .ofLocal (.memory ⟨[]⟩) "shared" { name := some sharedName }

def sharedCommit (version : Fin 15) : CommitId :=
  ⟨List.replicate 32 version.succ, List.length_replicate⟩

theorem isNone_sharedCommit (version : Fin 15) : (sharedCommit version).isNone = false := by
  decide +revert

def sharedRemote (version : Fin 15) : Addition :=
  .ofRemote ⟨sharedName, sharedCommit version, .supplied 0 fun _ => .error (.internal "no digest"),
      isNone_sharedCommit version⟩
    ⟨.ready (.memory ⟨[]⟩), .ready none, .ready none, .ready []⟩ true

def olderRemote : Addition :=
  sharedRemote 0

def newerRemote : Addition :=
  sharedRemote 1

/-- A local module that comes first takes the place of all remote ones. -/
theorem holds_sharedLocal : ∃ t, ModuleSet.build 0 .standard [sharedLocal, olderRemote, newerRemote] =
    .ok t ∧ t.Holds [sharedLocal, olderRemote, newerRemote] :=
  ⟨_, rfl, ModuleSet.holds_of_build rfl⟩

end Sample

end ProtoWorkspace
