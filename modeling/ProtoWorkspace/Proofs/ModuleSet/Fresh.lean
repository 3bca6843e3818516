import Mathlib.Tactic
import ProtoWorkspace.Proofs.ModuleSet.Order

/-!
# An addition with a new identity

Merging looks at names only. Hence neither the sources of additions nor an addition with another identity
change what is kept of the rest. A set that is built of some additions and one with a new identity has
the modules of the set that is built without it, and one more; and it can be built whenever that set can
be built and the new addition is valid.
-/

namespace ProtoWorkspace

open Fallible

namespace ModuleSet

open Addition

/-! ## What merging does not look at -/

section Merge

variable {new p : Source × Addition} {done done' kept first last : List (Source × Addition)}

theorem merge_cons_of_eq {old : Source × Addition} {name : FullName}
    (hname : new.2.name = some name) (same : old.2.name = some name) :
    merge new (old :: kept) =
      match old.2.isLocal, new.2.isLocal with
      | true, true => .ok (old :: kept ++ [new])
      | true, false => .ok (old :: kept)
      | false, true => .ok (new :: kept)
      | false, false =>
        if old.2.commit = new.2.commit then
          .ok ((old.1, { old.2 with isTarget := old.2.isTarget || new.2.isTarget }) :: kept)
        else .error (.conflictingCommits name.text old.2.commit.plain new.2.commit.plain) := by
  rw [merge, hname]
  exact if_neg (not_not.2 same)

theorem name_ne_of_identity_ne {a b : Addition} (h : b.identity ≠ a.identity) :
    b.name.isSome → a.name ≠ b.name :=
  fun named same => h (identity_of_name_eq named same.symm)

/-- An addition of another name stays where it is. -/
theorem merge_insert (other : new.2.name.isSome → p.2.name ≠ new.2.name) :
    ∀ {result}, merge new (first ++ last) = .ok result →
      ∃ first' last', result = first' ++ last' ∧
        merge new (first ++ p :: last) = .ok (first' ++ p :: last') := by
  induction first with
  | nil =>
    intro result h
    refine ⟨[], result, rfl, ?_⟩
    rw [List.nil_append, merge_cons_of_ne other, ← List.nil_append last, h]
    rfl
  | cons old rest ih =>
    intro result h
    rw [List.cons_append] at h ⊢
    by_cases meets : new.2.name.isSome ∧ old.2.name = new.2.name
    · obtain ⟨name, hname⟩ := Option.isSome_iff_exists.1 meets.1
      rw [merge_cons_of_eq hname (meets.2.trans hname)] at h ⊢
      cases hold : old.2.isLocal <;> cases hnew : new.2.isLocal <;> simp only [hold, hnew] at h ⊢
      · split at h
        · next agree =>
          cases h
          exact ⟨_ :: rest, last, rfl, if_pos agree⟩
        · cases h
      · cases h
        exact ⟨new :: rest, last, rfl, rfl⟩
      · cases h
        exact ⟨old :: rest, last, rfl, rfl⟩
      · cases h
        exact ⟨old :: rest, last ++ [new], by simp, by simp⟩
    · have apart : new.2.name.isSome → old.2.name ≠ new.2.name := fun named same =>
        meets ⟨named, same⟩
      rw [merge_cons_of_ne apart] at h ⊢
      obtain ⟨merged, hmerged, rfl⟩ := map_eq_ok.1 h
      obtain ⟨first', last', rfl, h'⟩ := ih hmerged
      exact ⟨old :: first', last', rfl, by rw [h']; rfl⟩

/-- An addition with a new identity is kept, and besides it what is kept without it. -/
theorem mergeAll_insert (fresh : ∀ q ∈ first ++ last, q.2.identity ≠ p.2.identity)
    (h : mergeAll (first ++ last) = .ok kept) :
    ∃ before after, kept = before ++ after ∧
      mergeAll (first ++ p :: last) = .ok (before ++ p :: after) := by
  rw [mergeAll, List.foldlM_append] at h ⊢
  obtain ⟨middle, hmiddle, h⟩ := bind_eq_ok.1 h
  rw [hmiddle, ok_bind, List.foldlM_cons]
  have put : merge p middle = .ok (middle ++ [p]) := by
    refine merge_of_forall_ne fun q hq => name_ne_of_identity_ne ?_
    obtain ⟨r, hr, -, same⟩ := mem_mergeAll hmiddle hq
    have identity : q.2.identity = r.2.identity := by
      rw [same]
      rfl
    exact identity ▸ (fresh r (List.mem_append_left _ hr)).symm
  rw [put, ok_bind]
  have later : ∀ rest : List (Source × Addition), (∀ q ∈ rest, q.2.identity ≠ p.2.identity) →
      ∀ before after, rest.foldlM (fun kept new => merge new kept) (before ++ after) = .ok kept →
        ∃ before' after', kept = before' ++ after' ∧
          rest.foldlM (fun kept new => merge new kept) (before ++ p :: after) =
            .ok (before' ++ p :: after') := by
    intro rest
    induction rest with
    | nil =>
      intro _ before after h
      cases h
      exact ⟨before, after, rfl, rfl⟩
    | cons new rest ih =>
      intro others before after h
      obtain ⟨hnew, hrest⟩ := List.forall_mem_cons.1 others
      rw [List.foldlM_cons] at h
      obtain ⟨next, hnext, h⟩ := bind_eq_ok.1 h
      obtain ⟨before', after', rfl, hnext'⟩ := merge_insert (name_ne_of_identity_ne hnew) hnext
      rw [List.foldlM_cons, hnext', ok_bind]
      exact ih hrest before' after' h
  exact later last (fun q hq => fresh q (List.mem_append_right _ hq)) middle [] (by simpa using h)

/-- Merging does not look at sources. -/
theorem merge_map (f : Source → Source) :
    merge (Prod.map f id new) (kept.map (Prod.map f id)) =
      List.map (Prod.map f id) <$> merge new kept := by
  induction kept with
  | nil => rfl
  | cons old rest ih =>
    by_cases meets : new.2.name.isSome ∧ old.2.name = new.2.name
    · obtain ⟨name, hname⟩ := Option.isSome_iff_exists.1 meets.1
      have same := meets.2.trans hname
      have mapped := @merge_cons_of_eq (Prod.map f id new) (rest.map (Prod.map f id))
        (Prod.map f id old) name hname same
      rw [List.map_cons, mapped, merge_cons_of_eq hname same, Prod.map_snd, Prod.map_snd, id, id]
      cases old.2.isLocal <;> cases new.2.isLocal
      · by_cases agree : old.2.commit = new.2.commit <;> simp [agree]
      · simp
      · simp
      · simp
    · have apart : new.2.name.isSome → old.2.name ≠ new.2.name := fun named same =>
        meets ⟨named, same⟩
      have mapped : merge (Prod.map f id new) (Prod.map f id old :: rest.map (Prod.map f id)) =
          (Prod.map f id old :: ·) <$> merge (Prod.map f id new) (rest.map (Prod.map f id)) :=
        merge_cons_of_ne apart
      rw [List.map_cons, mapped, merge_cons_of_ne apart, ih, ← comp_map, ← comp_map]
      rfl

theorem mergeAll_map (f : Source → Source) : mergeAll (done.map (Prod.map f id)) =
    List.map (Prod.map f id) <$> mergeAll done := by
  have prefixes : ∀ start : List (Source × Addition),
      (done.map (Prod.map f id)).foldlM (fun kept new => merge new kept) (start.map (Prod.map f id)) =
        List.map (Prod.map f id) <$> done.foldlM (fun kept new => merge new kept) start := by
    induction done with
    | nil => exact fun start => rfl
    | cons new rest ih =>
      intro start
      rw [List.map_cons, List.foldlM_cons, List.foldlM_cons, merge_map]
      cases merge new start with
      | error e => rfl
      | ok next => exact ih next
  exact prefixes []

/-- What is kept of additions under other sources is the same. -/
theorem mergeAll_congr (same : done.map Prod.snd = done'.map Prod.snd) :
    List.map Prod.snd <$> mergeAll done = List.map Prod.snd <$> mergeAll done' := by
  let forget : Source → Source := fun _ => ⟨0, 0⟩
  have forgotten : ∀ l : List (Source × Addition),
      l.map (Prod.map forget id) = (l.map Prod.snd).map fun a => (⟨0, 0⟩, a) := by
    intro l
    rw [List.map_map]
    rfl
  have kept : ∀ l : List (Source × Addition), List.map Prod.snd <$> mergeAll l =
      List.map Prod.snd <$> mergeAll ((l.map Prod.snd).map fun a => (⟨0, 0⟩, a)) := by
    intro l
    rw [← forgotten, mergeAll_map, ← comp_map]
    refine congrArg (· <$> mergeAll l) (funext fun kept => ?_)
    rw [Function.comp_apply, List.map_map]
    rfl
  rw [kept, same, ← kept]

end Merge

/-! ## Sets with one more module -/

/-- Whether two modules are made of one addition. -/
def AreCopies (x y : Module) : Prop :=
  ∃ a : Addition, a.Makes x ∧ a.Makes y

theorem AreCopies.identity {x y : Module} (h : AreCopies x y) : x.identity = y.identity := by
  obtain ⟨a, made, made'⟩ := h
  rw [made.identity, made'.identity]

section Built

variable {number number' : Nat} {parser parser' : ImportParser} {a : Addition}
  {before after : List Addition} {s t : ModuleSet} {x y : Module}
variable (fresh : ∀ b ∈ before ++ after, b.identity ≠ a.identity)

include fresh

/-- What is kept of additions and a new one is the new one, and what is kept without it. -/
theorem exists_mergeAll_insert (number' : Nat) {kept : List (Source × Addition)}
    (hkept : mergeAll (placed number (before ++ after)) = .ok kept) :
    ∃ first p last, p.2 = a ∧ kept.map Prod.snd = (first ++ last).map Prod.snd ∧
      mergeAll (placed number' (before ++ a :: after)) = .ok (first ++ p :: last) := by
  obtain ⟨head, tail, hsplit, hhead, htail⟩ :=
    List.map_eq_append_iff.1 (map_snd_placed number' (before ++ a :: after))
  obtain ⟨p, rest, rfl, rfl, hrest⟩ := List.map_eq_cons_iff.1 htail
  have others : (placed number (before ++ after)).map Prod.snd = (head ++ rest).map Prod.snd := by
    rw [map_snd_placed, List.map_append, hhead, hrest]
  have kept' := mergeAll_congr others
  rw [hkept, map_ok, eq_comm, map_eq_ok] at kept'
  obtain ⟨kept', hkept', same⟩ := kept'
  have new : ∀ q ∈ head ++ rest, q.2.identity ≠ p.2.identity := by
    intro q hq
    refine fresh q.2 ?_
    rw [← hhead, ← hrest, ← List.map_append]
    exact List.mem_map_of_mem hq
  obtain ⟨first, last, rfl, hmerged⟩ := mergeAll_insert new hkept'
  exact ⟨first, p, last, rfl, same.symm, hsplit ▸ hmerged⟩

variable (hs : build number parser (before ++ after) = .ok s)

include hs

/-- The modules are the new one, and those that there are without it. -/
theorem exists_modules_eq (ht : build number' parser' (before ++ a :: after) = .ok t) :
    ∃ first z last, t.modules = first ++ z :: last ∧ a.Makes z ∧
      List.Forall₂ AreCopies s.modules (first ++ last) := by
  obtain ⟨-, -, kept, hkept, hmodules⟩ := build_eq_ok hs
  obtain ⟨-, -, kept', hkept', hmodules'⟩ := build_eq_ok ht
  obtain ⟨first, p, last, rfl, same, hmerged⟩ := exists_mergeAll_insert fresh number' hkept
  cases hkept'.symm.trans hmerged
  obtain ⟨xs, z, zs, hxs, hz, hzs, hsplit⟩ := mapM_append_cons_eq_ok.1 hmodules'
  refine ⟨xs, z, zs, hsplit, makes_of_toModule hz, ?_⟩
  have made : List.Forall₂ Makes (kept.map Prod.snd) s.modules :=
    List.forall₂_map_left_iff.2 ((mapM_eq_ok.1 hmodules).imp fun _ _ => makes_of_toModule)
  have made' : List.Forall₂ Makes ((first ++ last).map Prod.snd) (xs ++ zs) :=
    List.forall₂_map_left_iff.2 ((List.rel_append (mapM_eq_ok.1 hxs) (mapM_eq_ok.1 hzs)).imp
      fun _ _ => makes_of_toModule)
  rw [← same] at made'
  exact forall₂_of_common made made' fun b _ _ _ _ makes makes' => ⟨b, makes, makes'⟩

/-- With a new addition that is valid and has a new directory, the set can be built too. -/
theorem succeeds_build_insert (valid : Succeeds (a.toModule ⟨0, 0⟩))
    (directory : a.bucketId ≠ "" → ∀ b ∈ before ++ after, b.bucketId ≠ a.bucketId) :
    Succeeds (build number' parser' (before ++ a :: after)) := by
  obtain ⟨kept, hkept, fit⟩ := succeeds_build_iff.1 ⟨s, hs⟩
  obtain ⟨first, p, last, rfl, same, hmerged⟩ := exists_mergeAll_insert fresh number' hkept
  refine succeeds_build_iff.2 ⟨_, hmerged, ?_⟩
  have others : (first ++ last).map (·.2.bare) = kept.map (·.2.bare) := by
    have := congrArg (List.map bare) same
    rw [List.map_map, List.map_map] at this
    exact this.symm
  have perm : ((first ++ p :: last).map (·.2.bare)).Perm (p.2.bare :: kept.map (·.2.bare)) := by
    rw [← others]
    exact List.perm_middle.map _
  have origin : ∀ b ∈ kept.map (·.2.bare), ∃ c ∈ before ++ after,
      b.identity = c.identity ∧ b.bucketId = c.bucketId := by
    intro b hb
    obtain ⟨q, hq, rfl⟩ := List.mem_map.1 hb
    obtain ⟨r, hr, -, hqr⟩ := mem_mergeAll hkept hq
    refine ⟨r.2, mem_of_mem_placed hr, ?_, ?_⟩ <;> rw [hqr] <;> rfl
  refine IsFit.perm ⟨?_, ?_, ?_⟩ perm.symm
  · exact List.forall_mem_cons.2 ⟨succeeds_toModule_bare.2 valid, fit.succeeds⟩
  · refine List.nodup_cons.2 ⟨fun hmem => ?_, fit.identities⟩
    obtain ⟨b, hb, hid⟩ := List.mem_map.1 hmem
    obtain ⟨c, hc, identity, -⟩ := origin b hb
    exact fresh c hc (identity.symm.trans hid)
  · rw [List.map_cons, List.filter_cons]
    split
    · next named =>
      refine List.nodup_cons.2 ⟨fun hmem => ?_, fit.directories⟩
      obtain ⟨b, hb, hid⟩ := List.mem_map.1 (List.mem_filter.1 hmem).1
      obtain ⟨c, hc, -, bucketId⟩ := origin b hb
      have hne : p.2.bucketId ≠ "" := of_decide_eq_true named
      exact directory hne c hc (bucketId.symm.trans hid)
    · exact fit.directories

variable (ht : build number' parser' (before ++ a :: after) = .ok t)

include ht

/-- The new addition makes the one module with its identity. -/
theorem exists_makes : ∃ z ∈ t.modules, a.Makes z ∧
    ∀ y ∈ t.modules, y.identity = a.identity → y = z := by
  obtain ⟨first, z, last, hmodules, makes, -⟩ := exists_modules_eq fresh hs ht
  have hz : z ∈ t.modules := by simp [hmodules]
  exact ⟨z, hz, makes, fun y hy hid => eq_of_identity hy hz (hid.trans makes.identity.symm)⟩

theorem exists_copy_of_mem (hx : x ∈ s.modules) : ∃ y ∈ t.modules, AreCopies x y := by
  obtain ⟨first, z, last, hmodules, -, copies⟩ := exists_modules_eq fresh hs ht
  obtain ⟨y, hy, hxy⟩ := exists_of_mem_right copies.flip hx
  refine ⟨y, ?_, hxy⟩
  rw [hmodules, List.mem_append, List.mem_cons, or_left_comm, ← List.mem_append]
  exact .inr hy

theorem areCopies_of_identity (hx : x ∈ s.modules) (hy : y ∈ t.modules)
    (same : x.identity = y.identity) : AreCopies x y := by
  obtain ⟨y', hy', copies⟩ := exists_copy_of_mem fresh hs ht hx
  obtain rfl := eq_of_identity hy' hy ((AreCopies.identity copies).symm.trans same)
  exact copies

theorem exists_copy (hy : y ∈ t.modules) (hne : y.identity ≠ a.identity) :
    ∃ x ∈ s.modules, AreCopies x y := by
  obtain ⟨first, z, last, hmodules, makes, copies⟩ := exists_modules_eq fresh hs ht
  rw [hmodules, List.mem_append, List.mem_cons, or_left_comm, ← List.mem_append] at hy
  rcases hy with rfl | hy
  · exact absurd makes.identity hne
  · exact exists_of_mem_right copies hy

end Built

end ModuleSet

end ProtoWorkspace
