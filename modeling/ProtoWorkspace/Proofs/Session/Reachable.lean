import Mathlib.Logic.Relation
import ProtoWorkspace.Proofs.ModuleSet.Build
import ProtoWorkspace.Proofs.Session.Digests

/-!
# The sessions that there can be

A session starts on a disk. In it sets are built and given other targets, and anything is asked about
the modules of the sets that were made and about keys, in any order and as often as one likes,
whether it succeeds or fails. Every session that comes about in this way is described by a world.
-/

namespace ProtoWorkspace

open Relation

/-- What comes of something done in a session. -/
def Session.outcome {α : Type} (σ : Session) (x : SessionM α) : Except Error α :=
  (x σ).1

def Session.after {α : Type} (σ : Session) (x : SessionM α) : Session :=
  (x σ).2

/-- What can be asked where the given sets were made: questions about their modules, the digests of
known keys, and to publish a module. -/
inductive Query (disk : Disk) (loads : Nat → Except Error Digest) (sets : List ModuleSet) :
    {α : Type} → SessionM α → Prop where
  | openBucket {s : ModuleSet} {x : Module} (hs : s ∈ sets) (hx : x ∈ s.modules) :
    Query disk loads sets (x.openBucket Session.access)
  | fileIndex {s : ModuleSet} {x : Module} (hs : s ∈ sets) (hx : x ∈ s.modules) :
    Query disk loads sets (x.fileIndex Session.access)
  | read {s : ModuleSet} {x : Module} (hs : s ∈ sets) (hx : x ∈ s.modules) (path : String) :
    Query disk loads sets (x.read Session.access path)
  | contents {s : ModuleSet} {x : Module} (hs : s ∈ sets) (hx : x ∈ s.modules) :
    Query disk loads sets (x.contents Session.access)
  | yaml {s : ModuleSet} {x : Module} (hs : s ∈ sets) (hx : x ∈ s.modules) :
    Query disk loads sets (x.yaml Session.access)
  | lock {s : ModuleSet} {x : Module} (hs : s ∈ sets) (hx : x ∈ s.modules) :
    Query disk loads sets (x.lock Session.access)
  | declaredKeys {s : ModuleSet} {x : Module} (hs : s ∈ sets) (hx : x ∈ s.modules) :
    Query disk loads sets (x.declaredKeys Session.access)
  | provider {s : ModuleSet} (hs : s ∈ sets) (path : String) :
    Query disk loads sets (s.provider Session.access path)
  | dependencies {s : ModuleSet} {x : Module} (hs : s ∈ sets) (hx : x ∈ s.modules) :
    Query disk loads sets (s.dependencies Session.access x)
  | digest {s : ModuleSet} {x : Module} (hs : s ∈ sets) (hx : x ∈ s.modules)
    (type : DigestType) : Query disk loads sets (s.digest Session.access x type)
  | keyDigest {key : ModuleKey} (hk : key.IsKnown disk loads sets.length) :
    Query disk loads sets (key.digest Session.access)
  | push (r : Registry) (fresh : CommitId) {s : ModuleSet} {x : Module} (hs : s ∈ sets)
    (hx : x ∈ s.modules) : Query disk loads sets (r.push fresh s Session.access x)

variable {disk : Disk} {loads : Nat → Except Error Digest}

theorem Query.cumulative {sets : List ModuleSet} {α : Type} {x : SessionM α} (h : Query disk loads sets x) :
    Cumulative x := by
  cases h <;> infer_instance

/-- Whatever is asked, there is an answer of the world that it follows. -/
theorem Query.exists_follows {w : World} (hw : w.IsSound) {α : Type} {x : SessionM α}
    (h : Query w.disk w.loads (w.sets.take w.made) x) : ∃ y, Follows w [] x y := by
  have any : ∀ {n}, Above n [] := by simp [Above]
  have mem : ∀ {s}, s ∈ w.sets.take w.made → s ∈ w.sets ∧ s.number < w.made :=
    fun hs => hw.inOrder.of_mem_take hs
  cases h with
  | openBucket hs hx => exact ⟨_, .openBucket hw (mem hs).1 hx any⟩
  | fileIndex hs hx => exact ⟨_, .fileIndex hw (mem hs).1 hx any⟩
  | read hs hx path => exact ⟨_, .read hw (mem hs).1 hx any path⟩
  | contents hs hx => exact ⟨_, .contents hw (mem hs).1 hx any⟩
  | yaml hs hx => exact ⟨_, .yaml hw (mem hs).1 hx any⟩
  | lock hs hx => exact ⟨_, .lock hw (mem hs).1 hx any⟩
  | declaredKeys hs hx => exact ⟨_, .declaredKeys hw (mem hs).1 hx any⟩
  | provider hs path => exact ⟨_, .provider hw (mem hs).1 any path⟩
  | dependencies hs hx => exact ⟨_, .dependencies hw (mem hs).1 hx any⟩
  | digest hs hx type => exact ⟨_, .digest hw (mem hs).1 (mem hs).2 hx⟩
  | keyDigest hk =>
    refine ⟨_, .digestOfKey hw (hk.mono ?_)⟩
    rw [List.length_take]
    exact min_le_left _ _
  | push r fresh hs hx => exact ⟨_, .push hw r (mem hs).1 (mem hs).2 fresh hx⟩

/-- What may happen next in a session. Sets are built from additions whose keys are known; `loads`
tells what is loaded for the numbers of keys. -/
inductive Session.Step (loads : Nat → Except Error Digest) : Session → Session → Prop where
  | build (σ : Session) (parser : ImportParser) (additions : List Addition)
    (hk : ∀ a ∈ additions, ∀ keys, a.inputs.declaredKeys.on σ.disk = .ok keys →
      ∀ key ∈ keys, key.IsKnown σ.disk loads σ.sets.length) :
    Step loads σ (σ.after (Session.build parser additions))
  | retarget (σ : Session) {s : ModuleSet} (hs : s ∈ σ.sets) (identities : List String) :
    Step loads σ (σ.after (Session.retarget s identities))
  | query (σ : Session) {α : Type} {x : SessionM α} (hx : Query σ.disk loads σ.sets x) :
    Step loads σ (σ.after x)
  | number (σ : Session) : Step loads σ (σ.after Session.freshNumber)
  | tell (σ : Session) (record : Log.Record) : Step loads σ (σ.enter (.told record))

/-- Whether one session can become another. -/
def Session.Reaches (loads : Nat → Except Error Digest) : Session → Session → Prop :=
  ReflTransGen (Session.Step loads)

/-- Whether a session can come about. -/
def Session.Reachable (loads : Nat → Except Error Digest) (σ : Session) : Prop :=
  ∃ disk, Session.Reaches loads { disk := disk } σ

namespace Session

theorem addSet_cases (make : Nat → Except Error ModuleSet) (σ : Session) :
    (∃ t, make σ.sets.length = .ok t ∧ σ.outcome (addSet make) = .ok t ∧
        σ.after (addSet make) = { σ with sets := σ.sets ++ [t] }) ∨
      ∃ e, make σ.sets.length = .error e ∧ σ.outcome (addSet make) = .error e ∧
        σ.after (addSet make) = σ := by
  have run : addSet make σ =
      ((MonadExcept.ofExcept (make σ.sets.length) : SessionM ModuleSet) >>= fun set => do
        modify fun s => { s with sets := s.sets ++ [set] }
        return set : SessionM ModuleSet) σ := SessionM.bind_of_ok rfl
  cases h : make σ.sets.length with
  | ok t =>
    rw [h] at run
    exact .inl ⟨t, rfl, congrArg Prod.fst run, congrArg Prod.snd run⟩
  | error e =>
    rw [h] at run
    exact .inr ⟨e, rfl, congrArg Prod.fst run, congrArg Prod.snd run⟩

theorem build_cases (parser : ImportParser) (additions : List Addition) (σ : Session) :
    (∃ t, ModuleSet.build σ.sets.length parser additions = .ok t ∧
        σ.outcome (build parser additions) = .ok t ∧
        σ.after (build parser additions) =
          { σ with sets := σ.sets ++ [t] }.enter (.built t.modules.length)) ∨
      ∃ e, ModuleSet.build σ.sets.length parser additions = .error e ∧
        σ.outcome (build parser additions) = .error e ∧
        σ.after (build parser additions) = σ := by
  rcases addSet_cases (fun number => ModuleSet.build number parser additions) σ with
    ⟨t, ht, ho, ha⟩ | ⟨e, he, ho, ha⟩
  · have run : build parser additions σ =
        (.ok t, { σ with sets := σ.sets ++ [t] }.enter (.built t.modules.length)) :=
      (SessionM.bind_of_ok (Prod.ext ho ha)).trans (SessionM.bind_of_ok rfl)
    exact .inl ⟨t, ht, congrArg Prod.fst run, congrArg Prod.snd run⟩
  · have run : build parser additions σ = (.error e, σ) :=
      SessionM.bind_of_error (Prod.ext ho ha)
    exact .inr ⟨e, he, congrArg Prod.fst run, congrArg Prod.snd run⟩

/-- What comes of building a set in a session is what comes of building it. -/
theorem outcome_build_eq (parser : ImportParser) (additions : List Addition) (σ : Session) :
    σ.outcome (build parser additions) =
      ModuleSet.build σ.sets.length parser additions := by
  rcases build_cases parser additions σ with ⟨t, built, outcome, -⟩ | ⟨e, built, outcome, -⟩
  · rw [built, outcome]
  · rw [built, outcome]

/-- A set that can be built is built, and then is one of the sets that were made. -/
theorem outcome_build {σ : Session} {parser : ImportParser} {additions : List Addition} {t : ModuleSet}
    (h : ModuleSet.build σ.sets.length parser additions = .ok t) :
    σ.outcome (build parser additions) = .ok t ∧ t ∈ (σ.after (build parser additions)).sets := by
  rcases build_cases parser additions σ with ⟨t', ht', outcome, after⟩ | ⟨e, he, -, -⟩
  · rw [h] at ht'
    cases ht'
    rw [after]
    exact ⟨outcome, List.mem_append_right _ (List.mem_singleton.2 rfl)⟩
  · rw [h] at he
    cases he

/-- Additions that were published with keys that know their digests can be built at any time. -/
theorem Step.of_known {σ : Session} {parser : ImportParser} {additions : List Addition}
    (h : ∀ a ∈ additions, ∃ keys, a.inputs.declaredKeys = .ready keys ∧
      ∀ key ∈ keys, ∃ digest, key.origin = .known digest) :
    Step loads σ (σ.after (Session.build parser additions)) := by
  refine .build σ parser additions fun a ha keys hkeys key hkey => ?_
  obtain ⟨keys', hready, hknown⟩ := h a ha
  rw [hready] at hkeys
  cases hkeys
  obtain ⟨digest, horigin⟩ := hknown key hkey
  simp only [ModuleKey.IsKnown, horigin]

theorem retarget_cases (s : ModuleSet) (identities : List String) (σ : Session) :
    (∃ t, s.retarget σ.sets.length identities = .ok t ∧
        σ.after (retarget s identities) = { σ with sets := σ.sets ++ [t] }) ∨
      σ.after (retarget s identities) = σ := by
  rcases addSet_cases (fun number => s.retarget number identities) σ with
    ⟨t, ht, -, h⟩ | ⟨e, -, -, h⟩
  · exact .inl ⟨t, ht, h⟩
  · exact .inr h

end Session

theorem SetsInOrder.append {sets : List ModuleSet} (h : SetsInOrder disk loads sets)
    {t : ModuleSet} (hn : t.number = sets.length)
    (hle : ∀ x ∈ t.modules, x.source.set ≤ t.number)
    (hsource : ∀ x ∈ t.modules, ∀ s, s ∈ sets ∨ s = t → ∀ y ∈ s.modules, x.source = y.source →
      x.inputs = y.inputs ∧ x.description = y.description)
    (hkeys : ∀ x ∈ t.modules, ∀ keys, x.inputs.declaredKeys.on disk = .ok keys →
      ∀ key ∈ keys, key.IsKnown disk loads t.number) :
    SetsInOrder disk loads (sets ++ [t]) where
  number_eq {i s} hs := by
    by_cases hi : i < sets.length
    · rw [List.getElem?_append_left hi] at hs
      exact h.number_eq hs
    · rw [List.getElem?_append_right (Nat.le_of_not_lt hi)] at hs
      obtain ⟨hlast, rfl⟩ := List.getElem?_eq_some_iff.1 hs
      simp only [List.length_singleton] at hlast
      simp only [List.getElem_singleton]
      omega
  source_le {s x} hs hx := by
    rcases List.mem_append.1 hs with hs | hs
    · exact h.source_le hs hx
    · obtain rfl := List.mem_singleton.1 hs
      exact hle x hx
  source {s s' x y} hs hs' hx hy same := by
    simp only [List.mem_append, List.mem_singleton] at hs hs'
    rcases hs with hs | rfl
    · rcases hs' with hs' | rfl
      · exact h.source hs hs' hx hy same
      · obtain ⟨inputs, description⟩ := hsource y hy s (.inl hs) x hx same.symm
        exact ⟨inputs.symm, description.symm⟩
    · exact hsource x hx s' hs' y hy same
  keys {s x keys} hs hx := by
    rcases List.mem_append.1 hs with hs | hs
    · exact h.keys hs hx
    · obtain rfl := List.mem_singleton.1 hs
      exact hkeys x hx keys

theorem SetsInOrder.build {sets : List ModuleSet} (h : SetsInOrder disk loads sets)
    {parser : ImportParser} {additions : List Addition} {t : ModuleSet}
    (ht : ModuleSet.build sets.length parser additions = .ok t)
    (hk : ∀ a ∈ additions, ∀ keys, a.inputs.declaredKeys.on disk = .ok keys →
      ∀ key ∈ keys, key.IsKnown disk loads sets.length) :
    SetsInOrder disk loads (sets ++ [t]) := by
  obtain ⟨hn, -⟩ := ModuleSet.build_eq_ok ht
  have origin := fun x hx => ModuleSet.exists_addition_of_mem_build ht (x := x) hx
  refine h.append hn (fun x hx => ((origin x hx).1.trans hn.symm).le) ?_ ?_
  · intro x hx s hs y hy same
    obtain ⟨hset, a, ha, hinputs, hlabel⟩ := origin x hx
    rcases hs with hs | rfl
    · -- the sources of earlier sets have lower numbers
      have earlier := h.source_le hs hy
      rw [← same, hset] at earlier
      exact absurd (h.number_lt hs) (Nat.not_lt_of_le earlier)
    · obtain ⟨-, b, hb, hinputs', hlabel'⟩ := origin y hy
      rw [← same, ha] at hb
      cases hb
      exact ⟨hinputs.trans hinputs'.symm, hlabel.trans hlabel'.symm⟩
  · intro x hx keys hkeys key hkey
    obtain ⟨-, a, ha, hinputs, -⟩ := origin x hx
    rw [hinputs] at hkeys
    rw [hn]
    exact hk a (List.mem_of_getElem? ha) keys hkeys key hkey

theorem ModuleSet.retarget_eq_ok {s t : ModuleSet} {number : Nat} {identities : List String}
    (h : s.retarget number identities = .ok t) :
    t.number = number ∧
      t.modules = s.modules.map fun m => m.withTarget (identities.contains m.identity) := by
  unfold ModuleSet.retarget at h
  split at h
  · cases h
  · cases h
    exact ⟨rfl, rfl⟩

theorem SetsInOrder.retarget {sets : List ModuleSet} (h : SetsInOrder disk loads sets)
    {s t : ModuleSet} (hs : s ∈ sets) {identities : List String}
    (ht : s.retarget sets.length identities = .ok t) : SetsInOrder disk loads (sets ++ [t]) := by
  obtain ⟨hn, hmodules⟩ := ModuleSet.retarget_eq_ok ht
  have hlt := h.number_lt hs
  have origin : ∀ x ∈ t.modules, ∃ y ∈ s.modules,
      x.source = y.source ∧ x.inputs = y.inputs ∧ x.description = y.description := by
    intro x hx
    rw [hmodules] at hx
    obtain ⟨y, hy, rfl⟩ := List.mem_map.1 hx
    exact ⟨y, hy, rfl, rfl, rfl⟩
  refine h.append hn ?_ ?_ ?_
  · intro x hx
    obtain ⟨y, hy, hsource, -⟩ := origin x hx
    rw [hsource, hn]
    exact (h.source_le hs hy).trans hlt.le
  · intro x hx s' hs' y hy same
    obtain ⟨x', hx', hsource, hinputs, hdescription⟩ := origin x hx
    have original : ∃ s'' ∈ sets, ∃ y' ∈ s''.modules,
        y.source = y'.source ∧ y.inputs = y'.inputs ∧ y.description = y'.description := by
      rcases hs' with hs' | rfl
      · exact ⟨s', hs', y, hy, rfl, rfl, rfl⟩
      · exact ⟨s, hs, origin y hy⟩
    obtain ⟨s'', hs'', y', hy', hsource', hinputs', hdescription'⟩ := original
    obtain ⟨inputs, description⟩ :=
      h.source hs hs'' hx' hy' (hsource.symm.trans (same.trans hsource'))
    exact ⟨hinputs.trans (inputs.trans hinputs'.symm),
      hdescription.trans (description.trans hdescription'.symm)⟩
  · intro x hx keys hkeys key hkey
    obtain ⟨y, hy, -, hinputs, -⟩ := origin x hx
    rw [hinputs] at hkeys
    rw [hn]
    exact (h.keys hs hy hkeys key hkey).mono hlt.le

namespace Session

variable {σ σ' : Session}

theorem Step.before (h : Step loads σ σ') : σ.Before σ' := by
  cases h with
  | build parser additions hk =>
    rcases build_cases parser additions σ with ⟨t, -, -, h⟩ | ⟨e, -, -, h⟩
    · rw [h]
      exact ⟨rfl, List.prefix_append _ _, fun _ _ => id⟩
    · rw [h]
      exact .refl σ
  | retarget hs identities =>
    rcases retarget_cases _ identities σ with ⟨t, -, h⟩ | h
    · rw [h]
      exact ⟨rfl, List.prefix_append _ _, fun _ _ => id⟩
    · rw [h]
      exact .refl σ
  | query hx => exact hx.cumulative.before σ
  | number => exact ⟨rfl, List.prefix_refl _, fun _ _ => id⟩
  | tell record => exact σ.before_enter _

theorem Reaches.before (h : Reaches loads σ σ') : σ.Before σ' := by
  induction h with
  | refl => exact .refl σ
  | tail _ step ih => exact ih.trans step.before

theorem Reachable.of_reaches (h : Reachable loads σ) (hr : Reaches loads σ σ') :
    Reachable loads σ' := by
  obtain ⟨disk, h⟩ := h
  exact ⟨disk, h.trans hr⟩

theorem Reachable.query (h : Reachable loads σ) {α : Type} {x : SessionM α}
    (hx : Query σ.disk loads σ.sets x) : Reachable loads (σ.after x) :=
  h.of_reaches (.single (.query σ hx))

theorem Step.setsInOrder (h : Step loads σ σ') (hσ : SetsInOrder σ.disk loads σ.sets) :
    SetsInOrder σ'.disk loads σ'.sets := by
  cases h with
  | build parser additions hk =>
    rcases build_cases parser additions σ with ⟨t, ht, -, h⟩ | ⟨e, -, -, h⟩
    · rw [h]
      exact hσ.build ht hk
    · rwa [h]
  | retarget hs identities =>
    rcases retarget_cases _ identities σ with ⟨t, ht, h⟩ | h
    · rw [h]
      exact hσ.retarget hs ht
    · rwa [h]
  | query hx =>
    rw [after, (hx.cumulative.before σ).disk, hx.cumulative.sets_eq σ]
    exact hσ
  | number => exact hσ
  | tell record => exact hσ

theorem Reachable.setsInOrder (h : Reachable loads σ) : SetsInOrder σ.disk loads σ.sets := by
  obtain ⟨disk, h⟩ := h
  induction h with
  | refl =>
    exact {
      number_eq := by simp
      source_le := by simp
      source := by simp
      keys := by simp }
  | tail _ step ih => exact step.setsInOrder ih

end Session

end ProtoWorkspace
