import ProtoWorkspace.Proofs.Access.Shown
import ProtoWorkspace.Proofs.ModuleSet.Fresh

/-!
# Sets of modules that were moved

A module is moved when its files come from another bucket. Nothing that is done to build a set looks at
files, so that of moved additions the same are kept, and moved modules stand at the same places in both
sets. Hence the one set is that of the counterparts of the modules of the other.
-/

namespace ProtoWorkspace

open Fallible

/-- A module under another source, with its files from another bucket. -/
def Module.movedTo (x : Module) (source : Source) (bucket : Supply Bucket) : Module :=
  { x with source := source, inputs := { x.inputs with bucket := bucket } }

/-- Whether a module is another one with its files from another bucket, which shows the same. Both were
added at the same position to their sets. -/
structure Module.IsMoved (disk : Disk) (x y : Module) : Prop where
  eq : y = x.movedTo y.source y.inputs.bucket
  position : y.source.position = x.source.position
  bucket : Agree (Bucket.ShowsSame disk) (x.inputs.bucket.on disk) (y.inputs.bucket.on disk)

namespace Addition

def movedTo (a : Addition) (bucket : Supply Bucket) : Addition :=
  { a with inputs := { a.inputs with bucket := bucket } }

/-- Whether an addition is another one with its files from another bucket, which shows the same. -/
structure IsMoved (disk : Disk) (a b : Addition) : Prop where
  eq : b = a.movedTo b.inputs.bucket
  bucket : Agree (Bucket.ShowsSame disk) (a.inputs.bucket.on disk) (b.inputs.bucket.on disk)

theorem IsMoved.refl (disk : Disk) (a : Addition) : a.IsMoved disk a :=
  ⟨rfl, .of_eq (Bucket.ShowsSame.refl disk) rfl⟩

theorem toModule_movedTo (a : Addition) (bucket : Supply Bucket) (source source' : Source) :
    (a.movedTo bucket).toModule source' = (·.movedTo source' bucket) <$> a.toModule source := by
  have mapped : ∀ {x y : Except Error Module} {x' y' : Except Error Module}, x = y → x' = y' →
      y = (·.movedTo source' bucket) <$> y' → x = (·.movedTo source' bucket) <$> x' := by
    rintro _ _ _ _ rfl rfl h
    exact h
  rw [toModule, toModule]
  by_cases unidentified : a.bucketId = "" ∧ a.name.isNone
  · exact mapped (dif_pos unidentified) (dif_pos unidentified) rfl
  refine mapped (dif_neg unidentified) (dif_neg unidentified) ?_
  by_cases unnamed : a.isLocal = false ∧ a.name.isNone
  · exact mapped (dif_pos unnamed) (dif_pos unnamed) rfl
  refine mapped (dif_neg unnamed) (dif_neg unnamed) ?_
  by_cases committed : a.name.isNone ∧ a.commit.isNone = false
  · exact mapped (dif_pos committed) (dif_pos committed) rfl
  refine mapped (dif_neg committed) (dif_neg committed) ?_
  change (normalizeAll a.includes >>= _) = _
  cases normalizeAll a.includes with
  | error e => rfl
  | ok includes =>
    change (normalizeAll a.excludes >>= _) = _
    cases normalizeAll a.excludes <;> rfl

end Addition

namespace ModuleSet

open Addition

variable {disk : Disk} {p p' : Source × Addition} {kept kept' : List (Source × Addition)}

/-! ## What is kept -/

/-- Whether an addition at some position was moved to the other one, at the same position. -/
structure ArePlacedAlike (disk : Disk) (p p' : Source × Addition) : Prop where
  position : p'.1.position = p.1.position
  moved : p.2.IsMoved disk p'.2

theorem ArePlacedAlike.withTarget (h : ArePlacedAlike disk p p') (isTarget : Bool) :
    ArePlacedAlike disk (p.1, { p.2 with isTarget := isTarget })
      (p'.1, { p'.2 with isTarget := isTarget }) where
  position := h.position
  moved := ⟨congrArg (fun a : Addition => { a with isTarget := isTarget }) h.moved.eq, h.moved.bucket⟩

theorem ArePlacedAlike.agree_toModule (h : ArePlacedAlike disk p p') :
    Agree (Module.IsMoved disk) (p.2.toModule p.1) (p'.2.toModule p'.1) := by
  rw [h.moved.eq, toModule_movedTo p.2 p'.2.inputs.bucket p.1 p'.1]
  cases hx : p.2.toModule p.1 with
  | error e => exact .error e
  | ok x =>
    refine .ok ⟨rfl, ?_, ?_⟩
    · rw [(toModule_eq_ok hx).1]
      exact h.position
    · rw [(makes_of_toModule hx).inputs]
      exact h.moved.bucket

theorem merge_agree (new : ArePlacedAlike disk p p')
    (h : List.Forall₂ (ArePlacedAlike disk) kept kept') :
    Agree (List.Forall₂ (ArePlacedAlike disk)) (merge p kept) (merge p' kept') := by
  have said : ∀ {q q' : Source × Addition}, ArePlacedAlike disk q q' → q'.2.name = q.2.name ∧
      q'.2.commit = q.2.commit ∧ q'.2.isLocal = q.2.isLocal ∧ q'.2.isTarget = q.2.isTarget := by
    intro q q' same
    rw [same.moved.eq]
    exact ⟨rfl, rfl, rfl, rfl⟩
  obtain ⟨newName, newCommit, newLocal, newTarget⟩ := said new
  induction h with
  | nil => exact .ok (.cons new .nil)
  | @cons old old' rest rest' hold hrest ih =>
    obtain ⟨oldName, oldCommit, oldLocal, oldTarget⟩ := said hold
    by_cases meets : p.2.name.isSome ∧ old.2.name = p.2.name
    · obtain ⟨name, hname⟩ := Option.isSome_iff_exists.1 meets.1
      have same := meets.2.trans hname
      rw [merge_cons_of_eq hname same, merge_cons_of_eq (newName.trans hname) (oldName.trans same),
        oldLocal, newLocal, oldCommit, newCommit, oldTarget, newTarget]
      cases old.2.isLocal <;> cases p.2.isLocal
      · by_cases agree : old.2.commit = p.2.commit
        · simp only [if_pos agree]
          exact .ok (.cons (hold.withTarget _) hrest)
        · simp only [if_neg agree]
          exact .error _
      · exact .ok (.cons new hrest)
      · exact .ok (.cons hold hrest)
      · exact .ok (.cons hold (List.rel_append hrest (.cons new .nil)))
    · have apart : p.2.name.isSome → old.2.name ≠ p.2.name := fun named same => meets ⟨named, same⟩
      have apart' : p'.2.name.isSome → old'.2.name ≠ p'.2.name := by
        rwa [newName, oldName]
      rw [merge_cons_of_ne apart, merge_cons_of_ne apart']
      exact ih.map fun _ _ same => .cons hold same

theorem mergeAll_agree (h : List.Forall₂ (ArePlacedAlike disk) kept kept') :
    Agree (List.Forall₂ (ArePlacedAlike disk)) (mergeAll kept) (mergeAll kept') :=
  Agree.foldlM h (fun _ _ _ _ hkept new => merge_agree new hkept) .nil

/-! ## What is built -/

theorem firstClash_congr {xs ys : List Module}
    (h : List.Forall₂ (fun x y => y.identity = x.identity ∧ y.bucketId = x.bucketId) xs ys)
    (identities buckets : List String) :
    firstClash identities buckets ys = firstClash identities buckets xs := by
  induction h generalizing identities buckets with
  | nil => rfl
  | cons same _ ih => rw [firstClash, firstClash, same.1, same.2, ih]

theorem agree_ofModules {R : Module → Module → Prop} {xs ys : List Module} (number number' : Nat)
    (parser : ImportParser) (h : List.Forall₂ R xs ys)
    (same : ∀ x y, R x y → y.identity = x.identity ∧ y.bucketId = x.bucketId) :
    Agree (fun s t : ModuleSet => List.Forall₂ R s.modules t.modules)
      (ofModules number parser xs) (ofModules number' parser ys) := by
  have clash := firstClash_congr (h.imp same) [] []
  unfold ofModules
  split
  · next e he =>
    split
    · next e' he' =>
      obtain rfl : e' = e := Option.some.inj (he'.symm.trans (clash.trans he))
      exact .error _
    · next he' => cases he'.symm.trans (clash.trans he)
  · next he =>
    split
    · next e' he' => cases he'.symm.trans (clash.trans he)
    · exact .ok h

variable {number number' : Nat} {parser : ImportParser} {additions additions' : List Addition}
variable {s t : ModuleSet} (moved : List.Forall₂ (Addition.IsMoved disk) additions additions')

include moved

theorem placed_alike : List.Forall₂ (ArePlacedAlike disk) (placed number additions)
    (placed number' additions') := by
  have positions : ∀ k, List.Forall₂
      (fun p p' : Addition × Nat => p'.2 = p.2 ∧ p.1.IsMoved disk p'.1)
      (additions.zipIdx k) (additions'.zipIdx k) := by
    intro k
    induction moved generalizing k with
    | nil => exact .nil
    | cons first _ ih =>
      rw [List.zipIdx_cons, List.zipIdx_cons]
      exact .cons ⟨rfl, first⟩ (ih (k + 1))
  rw [placed, placed, List.forall₂_map_left_iff, List.forall₂_map_right_iff]
  exact (positions 0).imp fun _ _ same => ⟨same.1, same.2⟩

/-- Moved additions are built to sets of moved modules, or to no set for the same reason. -/
theorem agree_build : Agree (fun s t : ModuleSet => List.Forall₂ (Module.IsMoved disk) s.modules t.modules)
    (build number parser additions) (build number' parser additions') := by
  refine (mergeAll_agree (placed_alike moved)).bind fun kept kept' same => ?_
  have modules : Agree (List.Forall₂ (Module.IsMoved disk))
      (kept.mapM fun (p : Source × Addition) => p.2.toModule p.1)
      (kept'.mapM fun (p : Source × Addition) => p.2.toModule p.1) :=
    .mapM (same.imp fun _ _ alike => alike.agree_toModule)
  refine modules.bind fun xs ys same => agree_ofModules number number' parser same ?_
  intro x y moved
  rw [moved.eq]
  exact ⟨rfl, rfl⟩

/-- The module of a set that has the files of a module of another set. -/
def counterpart (t : ModuleSet) (x : Module) : Module :=
  match t.find? x.identity with
  | some y => x.movedTo y.source y.inputs.bucket
  | none => x

omit moved in
/-- A counterpart is the module itself, apart from its source and its bucket. -/
theorem exists_counterpart_eq (t : ModuleSet) (x : Module) :
    ∃ source bucket, t.counterpart x = x.movedTo source bucket := by
  unfold counterpart
  split
  · exact ⟨_, _, rfl⟩
  · exact ⟨x.source, x.inputs.bucket, rfl⟩

omit moved in
theorem counterpart_eq {x y : Module} (h : x.IsMoved disk y) (hy : y ∈ t.modules) :
    t.counterpart x = y := by
  have identity : y.identity = x.identity := by
    rw [h.eq]
    rfl
  rw [counterpart, find?_eq_some.2 ⟨hy, identity⟩]
  exact h.eq.symm

section Counterparts

omit moved

variable (h : List.Forall₂ (Module.IsMoved disk) s.modules t.modules)

include h

theorem modules_eq_map_counterpart : t.modules = s.modules.map t.counterpart := by
  have itself : List.Forall₂ (· = ·) t.modules t.modules := List.forall₂_refl _
  rw [← List.forall₂_eq_eq_eq, List.forall₂_map_right_iff]
  refine forall₂_of_common itself h.flip ?_
  rintro y hy _ - x rfl moved
  exact (counterpart_eq moved hy).symm

theorem counterpart_mem {x : Module} (hx : x ∈ s.modules) : t.counterpart x ∈ t.modules :=
  modules_eq_map_counterpart h ▸ List.mem_map_of_mem hx

theorem isMoved_counterpart {x : Module} (hx : x ∈ s.modules) : x.IsMoved disk (t.counterpart x) := by
  obtain ⟨y, hy, moved⟩ := exists_of_mem_right h.flip hx
  rwa [counterpart_eq moved hy]

end Counterparts

end ModuleSet

end ProtoWorkspace
