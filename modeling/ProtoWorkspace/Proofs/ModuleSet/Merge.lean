import Mathlib.Tactic
import ProtoWorkspace.Proofs.ModuleSet.Build

/-!
# What is left of the additions of a name

Merging an addition with those that are kept does one of five things (`Merges`). What they keep, one
addition after the other, is how the kept ones come from all that arrived (`Settles`): additions that
are local or have no name are all kept, and of the others one for each name that has no local
addition. Then the set is built unless the kept ones clash.
-/

namespace ProtoWorkspace

open Fallible

namespace Addition

def identity (a : Addition) : String :=
  identityOf a.name a.bucketId

/-- Whether merging keeps the addition in any case. -/
def stays (a : Addition) : Bool :=
  a.isLocal || a.name.isNone

theorem stays_eq_false {a : Addition} : a.stays = false ↔ a.isLocal = false ∧ a.name.isSome := by
  simp [stays]

theorem stays_of_isLocal {a : Addition} (h : a.isLocal = true) : a.stays = true := by
  simp [stays, h]

theorem identity_of_name_eq {a b : Addition} (hn : a.name.isSome) (h : a.name = b.name) :
    a.identity = b.identity := by
  obtain ⟨name, hname⟩ := Option.isSome_iff_exists.1 hn
  rw [identity, identity, ← h, hname, identityOf, identityOf]

end Addition

namespace ModuleSet

open Addition

/-- How an addition comes to those that are kept, when no remote ones of its name disagree: what is
kept before and after. -/
inductive Merges (new : Source × Addition) :
    List (Source × Addition) → List (Source × Addition) → Prop
  | appended {kept} (other : ∀ p ∈ kept, new.2.name.isSome → p.2.name ≠ new.2.name) :
      Merges new kept (kept ++ [new])
  /-- A second local one of a name is kept too, and the set is refused for it. -/
  | beside {kept old} (mem : old ∈ kept) (named : new.2.name.isSome)
      (same : old.2.name = new.2.name) (first : old.2.isLocal = true)
      (second : new.2.isLocal = true) : Merges new kept (kept ++ [new])
  | dropped {kept old} (mem : old ∈ kept) (named : new.2.name.isSome)
      (same : old.2.name = new.2.name) (first : old.2.isLocal = true)
      (second : new.2.isLocal = false) : Merges new kept kept
  | replaced {before old after} (named : new.2.name.isSome) (same : old.2.name = new.2.name)
      (first : old.2.isLocal = false) (second : new.2.isLocal = true) :
      Merges new (before ++ old :: after) (before ++ new :: after)
  | joined {before old after} (named : new.2.name.isSome) (same : old.2.name = new.2.name)
      (first : old.2.isLocal = false) (second : new.2.isLocal = false)
      (agree : old.2.commit = new.2.commit) :
      Merges new (before ++ old :: after)
        (before ++ (old.1, { old.2 with isTarget := old.2.isTarget || new.2.isTarget }) :: after)

variable {new : Source × Addition} {done kept result : List (Source × Addition)}

theorem Merges.cons {old : Source × Addition} (h : Merges new kept result)
    (other : new.2.name.isSome → old.2.name ≠ new.2.name) :
    Merges new (old :: kept) (old :: result) := by
  cases h with
  | appended others =>
    show Merges new (old :: kept) (old :: kept ++ [new])
    exact .appended (List.forall_mem_cons.2 ⟨other, others⟩)
  | beside mem named same first second =>
    show Merges new (old :: kept) (old :: kept ++ [new])
    exact .beside (List.mem_cons_of_mem _ mem) named same first second
  | dropped mem named same first second =>
    exact .dropped (List.mem_cons_of_mem _ mem) named same first second
  | @replaced before _ _ named same first second =>
    exact @Merges.replaced _ (old :: before) _ _ named same first second
  | @joined before _ _ named same first second agree =>
    exact @Merges.joined _ (old :: before) _ _ named same first second agree

theorem merges_of_merge (h : merge new kept = .ok result) : Merges new kept result := by
  induction kept generalizing result with
  | nil =>
    cases h
    show Merges new [] ([] ++ [new])
    exact .appended (by simp)
  | cons old rest ih =>
    have later : (new.2.name.isSome → old.2.name ≠ new.2.name) →
        (old :: ·) <$> merge new rest = .ok result → Merges new (old :: rest) result := by
      intro other h
      obtain ⟨merged, hmerged, rfl⟩ := map_eq_ok.1 h
      exact (ih hmerged).cons other
    unfold merge at h
    split at h
    · next hnone => exact later (by simp [hnone]) h
    · next name hname =>
      have named : new.2.name.isSome := by simp [hname]
      split at h
      · next other => exact later (fun _ => hname ▸ other) h
      · next same =>
        replace same : old.2.name = new.2.name := by rw [hname]; exact not_not.1 same
        split at h
        · next first second =>
          cases h
          exact .beside List.mem_cons_self named same first second
        · next first second =>
          cases h
          exact .dropped List.mem_cons_self named same first second
        · next first second =>
          cases h
          exact @Merges.replaced _ [] _ _ named same first second
        · next first second =>
          split at h
          · next agree =>
            cases h
            exact @Merges.joined _ [] _ _ named same first second agree
          · cases h

/-- Merging fails only on a kept remote addition of the name with another commit. -/
theorem succeeds_merge (h : ∀ p ∈ kept, p.2.isLocal = false → new.2.isLocal = false →
    new.2.name.isSome → p.2.name = new.2.name → p.2.commit = new.2.commit) :
    Succeeds (merge new kept) := by
  induction kept with
  | nil => exact succeeds_ok _
  | cons old rest ih =>
    obtain ⟨hold, hrest⟩ := List.forall_mem_cons.1 h
    unfold merge
    split
    · exact succeeds_map.2 (ih hrest)
    · next name hname =>
      split
      · exact succeeds_map.2 (ih hrest)
      · next same =>
        split
        · exact succeeds_ok _
        · exact succeeds_ok _
        · exact succeeds_ok _
        · next first second =>
          have agree : old.2.commit = new.2.commit :=
            hold first second (by simp [hname]) (by rw [hname]; exact not_not.1 same)
          rw [if_pos agree]
          exact succeeds_ok _

/-! ## What a step keeps -/

/-- A name is kept twice only for two local additions. -/
def IsDistinct (kept : List (Source × Addition)) : Prop :=
  kept.Pairwise fun p q =>
    p.2.name.isSome → p.2.name = q.2.name → p.2.isLocal = true ∧ q.2.isLocal = true

/-- A kept remote addition has its name for itself. -/
theorem IsDistinct.alone {before after : List (Source × Addition)} {old : Source × Addition}
    (h : IsDistinct (before ++ old :: after)) (named : old.2.name.isSome)
    (remote : old.2.isLocal = false) : ∀ p ∈ before ++ after, p.2.name ≠ old.2.name := by
  obtain ⟨-, hafter, hbefore⟩ := List.pairwise_append.1 h
  intro p hp same
  rcases List.mem_append.1 hp with hp | hp
  · have := (hbefore p hp old List.mem_cons_self (same ▸ named) same).2
    simp [remote] at this
  · have := ((List.pairwise_cons.1 hafter).1 p hp named same.symm).1
    simp [remote] at this

theorem IsDistinct.isLocal (h : IsDistinct kept) {p q : Source × Addition} (hp : p ∈ kept)
    (hq : q ∈ kept) (named : p.2.name.isSome) (same : p.2.name = q.2.name)
    (first : p.2.isLocal = true) : q.2.isLocal = true := by
  by_contra remote
  obtain ⟨before, after, rfl⟩ := List.append_of_mem hq
  have elsewhere : p ∈ before ++ after := by
    rcases List.mem_append.1 hp with hp | hp
    · exact List.mem_append_left _ hp
    · rcases List.mem_cons.1 hp with rfl | hp
      · exact absurd first remote
      · exact List.mem_append_right _ hp
  exact h.alone (same ▸ named) (Bool.eq_false_of_not_eq_true remote) p elsewhere same

theorem IsDistinct.append {p : Source × Addition} (h : IsDistinct kept)
    (hp : ∀ q ∈ kept, q.2.name.isSome → q.2.name = p.2.name →
      q.2.isLocal = true ∧ p.2.isLocal = true) : IsDistinct (kept ++ [p]) := by
  refine List.pairwise_append.2 ⟨h, List.pairwise_singleton _ _, fun q hq r hr => ?_⟩
  rw [List.mem_singleton.1 hr]
  exact hp q hq

/-- Another addition of the name in the place of a kept one that has its name for itself. -/
theorem IsDistinct.update {before after : List (Source × Addition)} {old p : Source × Addition}
    (h : IsDistinct (before ++ old :: after)) (other : ∀ q ∈ before ++ after, q.2.name ≠ p.2.name) :
    IsDistinct (before ++ p :: after) := by
  obtain ⟨hbefore, hafter, hacross⟩ := List.pairwise_append.1 h
  refine List.pairwise_append.2 ⟨hbefore, List.pairwise_cons.2 ⟨fun q hq _ same => ?_,
    (List.pairwise_cons.1 hafter).2⟩, fun q hq r hr => ?_⟩
  · exact absurd same.symm (other q (List.mem_append_right _ hq))
  · rcases List.mem_cons.1 hr with rfl | hr
    · exact fun _ same => absurd same (other q (List.mem_append_left _ hq))
    · exact hacross q hq r (List.mem_cons_of_mem _ hr)

theorem Merges.isDistinct (h : Merges new kept result) (hk : IsDistinct kept) :
    IsDistinct result := by
  cases h with
  | appended other =>
    exact hk.append fun q hq named same => absurd same (other q hq (same ▸ named))
  | beside mem named same first second =>
    refine hk.append fun q hq _ same' => ⟨?_, second⟩
    exact hk.isLocal mem hq (same ▸ named) (same.trans same'.symm) first
  | dropped => exact hk
  | replaced named same first second =>
    exact hk.update fun q hq => same ▸ hk.alone (same ▸ named) first q hq
  | joined named same first second agree =>
    exact hk.update fun q hq => hk.alone (same ▸ named) first q hq

theorem Merges.stays (h : Merges new kept result) :
    (result.filter (·.2.stays)).Perm ((kept ++ [new]).filter (·.2.stays)) := by
  cases h with
  | appended => exact .refl _
  | beside => exact .refl _
  | dropped mem named same first second =>
    have passes : new.2.stays = false := stays_eq_false.2 ⟨second, named⟩
    simp [passes]
  | @replaced before old after named same first second =>
    have passes : old.2.stays = false := stays_eq_false.2 ⟨first, same ▸ named⟩
    have arrives : new.2.stays = true := stays_of_isLocal second
    simp only [List.filter_append, List.filter_cons, passes, arrives, List.filter_nil,
      Bool.false_eq_true, if_false, if_true, List.append_assoc]
    exact (List.perm_append_singleton _ _).symm.append_left _
  | @joined before old after named same first second agree =>
    have passes : old.2.stays = false := stays_eq_false.2 ⟨first, same ▸ named⟩
    have passes' : new.2.stays = false := stays_eq_false.2 ⟨second, named⟩
    have joined : ({ old.2 with isTarget := old.2.isTarget || new.2.isTarget } : Addition).stays =
        false := passes
    simp [passes, passes', joined]

theorem Merges.unnamed (h : Merges new kept result) :
    result.filter (·.2.name.isNone) = (kept ++ [new]).filter (·.2.name.isNone) := by
  cases h with
  | appended => rfl
  | beside => rfl
  | dropped mem named => simp [Option.isSome_iff_ne_none.1 named]
  | replaced named same =>
    have other := Option.isSome_iff_ne_none.1 named
    simp [other, same ▸ other]
  | joined named same =>
    have other := Option.isSome_iff_ne_none.1 named
    simp [other, same ▸ other]

/-- Merging loses no name. -/
theorem Merges.covers (h : Merges new kept result) {p : Source × Addition}
    (hp : p ∈ kept ++ [new]) : ∃ q ∈ result, q.2.name = p.2.name := by
  cases h with
  | appended => exact ⟨p, hp, rfl⟩
  | beside => exact ⟨p, hp, rfl⟩
  | dropped mem named same first second =>
    rcases List.mem_append.1 hp with hp | hp
    · exact ⟨p, hp, rfl⟩
    · rw [List.mem_singleton.1 hp]
      exact ⟨_, mem, same⟩
  | @replaced before old after named same first second =>
    rw [List.append_assoc, List.cons_append, List.mem_append, List.mem_cons, List.mem_append,
      List.mem_singleton] at hp
    rcases hp with hp | rfl | hp | rfl
    · exact ⟨p, by simp [hp], rfl⟩
    · exact ⟨new, by simp, same.symm⟩
    · exact ⟨p, by simp [hp], rfl⟩
    · exact ⟨p, by simp, rfl⟩
  | @joined before old after named same first second agree =>
    rw [List.append_assoc, List.cons_append, List.mem_append, List.mem_cons, List.mem_append,
      List.mem_singleton] at hp
    rcases hp with hp | rfl | hp | rfl
    · exact ⟨p, by simp [hp], rfl⟩
    · exact ⟨_, List.mem_append_right _ List.mem_cons_self, rfl⟩
    · exact ⟨p, by simp [hp], rfl⟩
    · exact ⟨_, List.mem_append_right _ List.mem_cons_self, same⟩

/-- Merging adds an identity at the end, or it is among the kept ones already. -/
theorem Merges.order (h : Merges new kept result) :
    (result.map (·.2.identity)).eraseDups = ((kept ++ [new]).map (·.2.identity)).eraseDups := by
  have known : ∀ {old : Source × Addition}, old ∈ kept → new.2.name.isSome →
      old.2.name = new.2.name →
      (kept.map (·.2.identity)).eraseDups = ((kept ++ [new]).map (·.2.identity)).eraseDups := by
    intro old mem named same
    have present : new.2.identity ∈ kept.map (·.2.identity) := by
      rw [← identity_of_name_eq (same ▸ named) same]
      exact List.mem_map_of_mem mem
    have nothing : [new.2.identity].removeAll (kept.map (·.2.identity)) = [] := by
      rw [List.removeAll, List.filter_eq_nil_iff]
      simpa using present
    rw [List.map_append, List.eraseDups_append, List.map_singleton, nothing]
    exact (List.append_nil _).symm
  cases h with
  | appended => rfl
  | beside => rfl
  | dropped mem named same first second => exact known mem named same
  | @replaced before old after named same first second =>
    rw [← known (by simp) named same]
    simp [identity_of_name_eq (same ▸ named) same]
  | @joined before old after named same first second agree =>
    rw [← known (by simp) named same]
    simp [Addition.identity]

/-! ## What is kept in the end -/

/-- Whether all additions of a name are remote and one of them speaks for them. -/
def IsJoint (done : List (Source × Addition)) (q : Source × Addition) : Prop :=
  (∀ p ∈ done, p.2.name = q.2.name → p.2.isLocal = false ∧ p.2.commit = q.2.commit) ∧
    (q.2.isTarget = true ↔ ∃ p ∈ done, p.2.name = q.2.name ∧ p.2.isTarget = true)

theorem IsJoint.append {q : Source × Addition} (h : IsJoint done q)
    (other : new.2.name ≠ q.2.name) : IsJoint (done ++ [new]) q := by
  constructor
  · intro p hp same
    rcases List.mem_append.1 hp with hp | hp
    · exact h.1 p hp same
    · rw [List.mem_singleton.1 hp] at same
      exact absurd same other
  · rw [h.2]
    simp [or_and_right, exists_or, other]

theorem isJoint_of_forall_ne (other : ∀ p ∈ done, p.2.name ≠ new.2.name)
    (remote : new.2.isLocal = false) : IsJoint (done ++ [new]) new := by
  have only : ∀ p ∈ done ++ [new], p.2.name = new.2.name → p = new := by
    intro p hp same
    rcases List.mem_append.1 hp with hp | hp
    · exact absurd same (other p hp)
    · exact List.mem_singleton.1 hp
  constructor
  · intro p hp same
    rw [only p hp same]
    exact ⟨remote, rfl⟩
  · constructor
    · exact fun target => ⟨new, by simp, rfl, target⟩
    · rintro ⟨p, hp, same, target⟩
      rwa [only p hp same] at target

theorem IsJoint.join {old : Source × Addition} (h : IsJoint done old)
    (same : old.2.name = new.2.name) (remote : new.2.isLocal = false)
    (agree : old.2.commit = new.2.commit) :
    IsJoint (done ++ [new])
      (old.1, { old.2 with isTarget := old.2.isTarget || new.2.isTarget }) := by
  constructor
  · intro p hp hname
    rcases List.mem_append.1 hp with hp | hp
    · exact h.1 p hp hname
    · rw [List.mem_singleton.1 hp]
      exact ⟨remote, agree.symm⟩
  · rw [Bool.or_eq_true, h.2]
    simp [or_and_right, exists_or, same]

/-- How what is kept comes from the additions that arrived. -/
structure Settles (done kept : List (Source × Addition)) : Prop where
  /-- Local and unnamed additions are kept as they are. -/
  stays : (kept.filter (·.2.stays)).Perm (done.filter (·.2.stays))
  unnamed : kept.filter (·.2.name.isNone) = done.filter (·.2.name.isNone)
  /-- No name is lost. -/
  covers : ∀ p ∈ done, ∃ q ∈ kept, q.2.name = p.2.name
  /-- A remote one is kept for a name that has no local one. -/
  remote : ∀ q ∈ kept, q.2.stays = false → IsJoint done q
  distinct : IsDistinct kept
  /-- The identities stand in the order in which they arrived. -/
  order : (kept.map (·.2.identity)).eraseDups = (done.map (·.2.identity)).eraseDups

theorem Settles.nil : Settles [] [] where
  stays := .refl _
  unnamed := rfl
  covers := by simp
  remote := by simp
  distinct := .nil
  order := rfl

/-- A remote addition that is kept after a step was kept before and has another name, or it is the
new one, or the new one joined it. -/
theorem Settles.isJoint (h : Settles done kept) (m : Merges new kept result)
    {q : Source × Addition} (hq : q ∈ result) (passes : q.2.stays = false) :
    IsJoint (done ++ [new]) q := by
  obtain ⟨remote, named⟩ := stays_eq_false.1 passes
  have before : q ∈ kept → q.2.name ≠ new.2.name → IsJoint (done ++ [new]) q :=
    fun mem other => (h.remote q mem passes).append other.symm
  -- a kept local addition of the name excludes a kept remote one
  have other_of_local : ∀ {old : Source × Addition}, old ∈ kept → old.2.name = new.2.name →
      old.2.isLocal = true → q ∈ kept → q.2.name ≠ new.2.name := by
    intro old mem same first mem' same'
    have := h.distinct.isLocal mem mem' (same.trans same'.symm ▸ named)
      (same.trans same'.symm) first
    simp [remote] at this
  cases m with
  | appended other =>
    rcases List.mem_append.1 hq with hq | hq
    · exact before hq fun same => other q hq (same ▸ named) same
    · rw [List.mem_singleton] at hq
      subst hq
      refine isJoint_of_forall_ne (fun p hp same => ?_) remote
      obtain ⟨r, hr, hname⟩ := h.covers p hp
      exact other r hr named (hname.trans same)
  | beside mem _ same first second =>
    rcases List.mem_append.1 hq with hq | hq
    · exact before hq (other_of_local mem same first hq)
    · rw [List.mem_singleton.1 hq, second] at remote
      cases remote
  | dropped mem _ same first second => exact before hq (other_of_local mem same first hq)
  | @replaced old_before old old_after named' same first second =>
    have elsewhere : q ∈ old_before ++ old_after := by
      rcases List.mem_append.1 hq with hq | hq
      · exact List.mem_append_left _ hq
      · rcases List.mem_cons.1 hq with rfl | hq
        · rw [second] at remote
          cases remote
        · exact List.mem_append_right _ hq
    refine before (List.mem_append.2 ((List.mem_append.1 elsewhere).imp_right
      (List.mem_cons_of_mem _))) ?_
    exact same ▸ h.distinct.alone (same ▸ named') first q elsewhere
  | @joined old_before old old_after named' same first second agree =>
    rcases List.mem_append.1 hq with hq | hq
    · refine before (List.mem_append_left _ hq) ?_
      exact same ▸ h.distinct.alone (same ▸ named') first q (List.mem_append_left _ hq)
    · rcases List.mem_cons.1 hq with rfl | hq
      · exact (h.remote old (by simp) passes).join same second agree
      · refine before (List.mem_append_right _ (List.mem_cons_of_mem _ hq)) ?_
        exact same ▸ h.distinct.alone (same ▸ named') first q (List.mem_append_right _ hq)

theorem Settles.step (h : Settles done kept) (m : Merges new kept result) :
    Settles (done ++ [new]) result where
  stays := by
    refine m.stays.trans ?_
    rw [List.filter_append, List.filter_append]
    exact h.stays.append_right _
  unnamed := by rw [m.unnamed, List.filter_append, List.filter_append, h.unnamed]
  covers := by
    intro p hp
    have arrived : ∃ r ∈ kept ++ [new], r.2.name = p.2.name := by
      rcases List.mem_append.1 hp with hp | hp
      · obtain ⟨r, hr, hname⟩ := h.covers p hp
        exact ⟨r, List.mem_append_left _ hr, hname⟩
      · exact ⟨p, List.mem_append_right _ hp, rfl⟩
    obtain ⟨r, hr, hname⟩ := arrived
    obtain ⟨q, hq, hname'⟩ := m.covers hr
    exact ⟨q, hq, hname'.trans hname⟩
  remote := fun q hq passes => h.isJoint m hq passes
  distinct := m.isDistinct h.distinct
  order := by
    have before : ∀ i, i ∈ kept.map (·.2.identity) ↔ i ∈ done.map (·.2.identity) := by
      intro i
      rw [← List.mem_eraseDups, h.order, List.mem_eraseDups]
    rw [m.order, List.map_append, List.map_append, List.eraseDups_append, List.eraseDups_append,
      h.order]
    simp only [List.removeAll, List.elem_eq_contains, List.contains_eq_mem, before]

theorem settles_mergeAll (h : mergeAll done = .ok kept) : Settles done kept := by
  have prefixes : ∀ (arrived rest : List (Source × Addition)) {start : List (Source × Addition)},
      Settles arrived start → rest.foldlM (fun kept new => merge new kept) start = .ok kept →
        Settles (arrived ++ rest) kept := by
    intro arrived rest
    induction rest generalizing arrived with
    | nil =>
      intro start hs h
      cases h
      rwa [List.append_nil]
    | cons new rest ih =>
      intro start hs h
      rw [List.foldlM_cons] at h
      obtain ⟨next, hnext, h⟩ := bind_eq_ok.1 h
      rw [List.append_cons]
      exact ih _ (hs.step (merges_of_merge hnext)) h
  exact prefixes [] done .nil h

/-- Additions can be merged when the remote ones agree on the commit of their name. -/
theorem succeeds_mergeAll (h : ∀ p ∈ done, ∀ q ∈ done, p.2.isLocal = false → q.2.isLocal = false →
    p.2.name = q.2.name → p.2.commit = q.2.commit) : Succeeds (mergeAll done) := by
  have prefixes : ∀ (rest kept : List (Source × Addition)), rest ⊆ done →
      (∀ p ∈ kept, ∃ q ∈ done, IsAs p q) →
        Succeeds (rest.foldlM (fun kept new => merge new kept) kept) := by
    intro rest
    induction rest with
    | nil => exact fun kept _ _ => succeeds_ok _
    | cons new rest ih =>
      intro kept hrest hkept
      have hnew : new ∈ done := hrest List.mem_cons_self
      have merges : Succeeds (merge new kept) := by
        refine succeeds_merge fun p hp first second _ same => ?_
        obtain ⟨q, hq, -, hpq⟩ := hkept p hp
        rw [hpq] at first same ⊢
        exact h q hq new hnew first second same
      obtain ⟨next, hnext⟩ := merges
      rw [List.foldlM_cons, hnext, ok_bind]
      refine ih next (List.subset_of_cons_subset hrest) fun p hp => ?_
      obtain ⟨q, hq, same⟩ := mem_merge hnext hp
      rcases List.mem_cons.1 hq with rfl | hq
      · exact ⟨q, hnew, same⟩
      · obtain ⟨r, hr, same'⟩ := hkept q hq
        exact ⟨r, hr, same.trans same'⟩
  exact prefixes done [] (List.Subset.refl _) (by simp)

/-! ## Building from what is kept -/

/-- The additions under the sources that the set with a number gives them. -/
def placed (number : Nat) (additions : List Addition) : List (Source × Addition) :=
  additions.zipIdx.map fun (a, position) => (⟨number, position⟩, a)

theorem map_snd_placed (number : Nat) (additions : List Addition) :
    (placed number additions).map Prod.snd = additions := by
  rw [placed, List.map_map]
  exact List.zipIdx_map_fst 0 additions

theorem mem_of_mem_placed {number : Nat} {additions : List Addition} {p : Source × Addition}
    (hp : p ∈ placed number additions) : p.2 ∈ additions := by
  have := List.mem_map_of_mem (f := Prod.snd) hp
  rwa [map_snd_placed] at this

theorem exists_mem_placed (number : Nat) {additions : List Addition} {a : Addition}
    (ha : a ∈ additions) : ∃ p ∈ placed number additions, p.2 = a := by
  rw [← map_snd_placed number additions] at ha
  exact List.mem_map.1 ha

variable {number : Nat} {parser : ImportParser} {additions : List Addition}

theorem exists_kept_of_build {t : ModuleSet} (h : build number parser additions = .ok t) :
    ∃ kept, Settles (placed number additions) kept ∧
      List.Forall₂ (fun p x => p.2.toModule p.1 = .ok x) kept t.modules := by
  obtain ⟨-, -, kept, hkept, hmodules⟩ := build_eq_ok h
  exact ⟨kept, settles_mergeAll hkept, mapM_eq_ok.1 hmodules⟩

end ModuleSet

end ProtoWorkspace
