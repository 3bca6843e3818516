import ProtoWorkspace.Proofs.Dependencies.Image
import ProtoWorkspace.Proofs.Session.Dependencies

/-!
# Files that share a mark

The imports of a file are kept under its mark, a text made of its module and its path. Different files
can have the same mark, when there is a NUL character in the identity of a module and in a path. Then the
file that is asked for first counts for both, for as long as the session lasts. Where files with the same
mark import the same, everything is as if the imports were read anew.
-/

namespace ProtoWorkspace

open ModuleSet

theorem append_cons_inj_left {α : Type} {c : α} {as bs ps qs : List α} (ha : c ∉ as) (hb : c ∉ bs)
    (h : as ++ c :: ps = bs ++ c :: qs) : as = bs ∧ ps = qs := by
  have reversed := congrArg List.reverse h
  simp only [List.reverse_append, List.reverse_cons, List.append_assoc, List.cons_append,
    List.nil_append] at reversed
  obtain ⟨later, first⟩ := append_cons_inj (by simpa using ha) (by simpa using hb) reversed
  exact ⟨List.reverse_injective first, List.reverse_injective later⟩

/-- Different files have different marks, also as long as the identities of their modules hold no NUL
character. -/
theorem ModuleSet.fileMark_inj_of_identity {x y : Module} {path path' : String}
    (hx : '\x00' ∉ x.identity.toList) (hy : '\x00' ∉ y.identity.toList)
    (h : fileMark x path = fileMark y path') : x.identity = y.identity ∧ path = path' := by
  have chars := congrArg String.toList h
  rw [toList_fileMark, toList_fileMark] at chars
  obtain ⟨identity, path⟩ := append_cons_inj_left hx hy chars
  exact ⟨String.toList_injective identity, String.toList_injective path⟩

theorem ModuleSet.hasTrueMarks_of_identity {s : ModuleSet} {disk : Disk}
    (plain : ∀ x ∈ s.modules, '\x00' ∉ x.identity.toList) : s.HasTrueMarks disk := by
  intro x hx path _ y hy path' _ same
  obtain ⟨identity, rfl⟩ := fileMark_inj_of_identity (plain x hx) (plain y hy) same
  rw [eq_of_identity hx hy identity]

namespace Session

variable {loads : Nat → Except Error Digest} {σ : Session} {s : ModuleSet} {x : Module} {path : String}

theorem outcome_importsOf_of_some {answer : Except Error (List String)}
    (kept : σ.memo.find? (.imports s.number (fileMark x path)) = some answer) :
    σ.outcome (s.importsOf access x path) = answer :=
  congrArg Prod.fst (remember_of_find? kept)

/-- A file whose mark was not asked for yet is read, and what it imports is kept. -/
theorem Reachable.outcome_importsOf_of_none (h : Reachable loads σ) (hs : s ∈ σ.sets)
    (hx : x ∈ s.modules) (hl : x.IsLoadable σ.disk) (hp : x.HasProtoOn σ.disk path)
    (new : σ.memo.find? (.imports s.number (fileMark x path)) = none) :
    σ.outcome (s.importsOf access x path) = s.importsOn σ.disk x path ∧
      (σ.after (s.importsOf access x path)).memo.find? (.imports s.number (fileMark x path)) =
        some (s.importsOn σ.disk x path) := by
  let q : Question := .imports s.number (fileMark x path)
  have fits : (σ.world loads).Fits loads σ := h.fits_world
  have described : (σ.world loads).Describes [q] (σ.enter (.asked q)) :=
    (h.describes fits).ask List.not_mem_nil new
  have above : Above 1 [q] := by
    intro q' hq'
    rw [List.mem_singleton.1 hq']
    exact Nat.lt_succ_self 1
  -- reading the file keeps no imports, so that the world still allows what is kept
  have allowed : (σ.world loads).Allows
      (s.readImports access x path (σ.enter (.asked q))).2 := by
    intro number mark a ha
    rw [Follows.KeepsNoImports.readImports] at ha
    exact fits.allows number mark a ha
  obtain ⟨-, read⟩ := Follows.readImports fits.sound hs hx above path _ described allowed
  rw [readImports_eq fits.sound.plain hl hp] at read
  have run : s.importsOf access x path σ = _ := remember_of_none new (s.readImports access x path)
  rw [outcome, after, run]
  exact ⟨read, (Memo.find?_store_self _ _ _).trans (congrArg some read)⟩

section Marks

variable (h : Reachable loads σ) (hs : s ∈ σ.sets) (marks : s.HasTrueMarks σ.disk) (hx : x ∈ s.modules)

include h hs marks hx

theorem Reachable.outcome_importsOf (hl : x.IsLoadable σ.disk) (hp : x.HasProtoOn σ.disk path) :
    σ.outcome (s.importsOf access x path) = s.importsOn σ.disk x path := by
  cases kept : σ.memo.find? (.imports s.number (fileMark x path)) with
  | none => exact (h.outcome_importsOf_of_none hs hx hl hp kept).1
  | some answer =>
    rw [outcome_importsOf_of_some kept]
    exact ((h.describes h.fits_world).read _ _ kept).eq_importsOn h.setsInOrder hs marks hx hp

/-- The world of a session gives the dependencies that are found when all imports are read anew. -/
theorem Reachable.dependencies_world :
    s.dependencies (σ.world loads).io x = s.dependencies (.direct σ.disk σ.sets) x := by
  have plain := Access.isPlain_direct σ.disk σ.sets
  have plain' := h.fits_world.sound.plain
  have image : IsImage s s (.direct σ.disk σ.sets) (σ.world loads).io id := by
    refine ⟨(List.map_id _).symm, fun _ => rfl, fun _ => rfl, fun y _ => ?_, ?_⟩
    · rw [id, plain.fileIndex_eq, plain'.fileIndex_eq]
      rfl
    · intro y hy paths hpaths file hfile
      have hl : y.IsLoadable σ.disk := plain.succeeds_protoPaths.1 ⟨paths, hpaths⟩
      have hp : y.HasProtoOn σ.disk file := (plain.mem_protoPaths hpaths).1 hfile
      exact (h.importsKept_eq hs marks hy hl hp).trans (readImports_eq plain hl hp).symm
  rw [← id_map (s.dependencies (.direct σ.disk σ.sets) x), ← List.map_id_fun]
  exact image.dependencies plain plain' hx

theorem Reachable.outcome_dependencies_of_marks : σ.outcome (s.dependencies access x) =
    s.dependencies (.direct σ.disk σ.sets) x := by
  have before : σ.Before (σ.after (s.dependencies access x)) := Cumulative.before σ
  have sets : (σ.after (s.dependencies access x)).sets = σ.sets := Cumulative.sets_eq σ
  have later := h.query (.dependencies hs hx)
  rw [h.outcome_dependencies_world hs hx, later.dependencies_world (before.sets.subset hs)
    (before.disk ▸ marks) hx, before.disk, sets]

end Marks

end Session

/-- In a set where Protobuf files with the same mark import the same, the imports of every file are those
that are found in it, and dependencies are those of reading all imports anew, whatever was asked before.
In any set, the first request for a mark gives the imports of the file that is asked for, and every later
one, for whichever file with the mark, gives the same. -/
theorem Session.Reachable.importsOf_eq_first {loads : Nat → Except Error Digest} {σ : Session}
    {s : ModuleSet} (h : Session.Reachable loads σ) (hs : s ∈ σ.sets) :
    (s.HasTrueMarks σ.disk → ∀ x ∈ s.modules,
      σ.outcome (s.dependencies Session.access x) = s.dependencies (.direct σ.disk σ.sets) x ∧
        (x.IsLoadable σ.disk → ∀ path, x.HasProtoOn σ.disk path →
          σ.outcome (s.importsOf Session.access x path) = s.importsOn σ.disk x path)) ∧
    ∀ x ∈ s.modules, x.IsLoadable σ.disk → ∀ path, x.HasProtoOn σ.disk path →
      σ.memo.find? (.imports s.number (fileMark x path)) = none →
      σ.outcome (s.importsOf Session.access x path) = s.importsOn σ.disk x path ∧
        ∀ σ', (σ.after (s.importsOf Session.access x path)).Before σ' → ∀ y path',
          fileMark y path' = fileMark x path →
            σ'.outcome (s.importsOf Session.access y path') = s.importsOn σ.disk x path := by
  refine ⟨fun marks x hx => ⟨h.outcome_dependencies_of_marks hs marks hx,
    fun hl path hp => h.outcome_importsOf hs marks hx hl hp⟩, fun x hx hl path hp new => ?_⟩
  obtain ⟨first, kept⟩ := h.outcome_importsOf_of_none hs hx hl hp new
  refine ⟨first, fun σ' before y path' same => Session.outcome_importsOf_of_some ?_⟩
  rw [same]
  exact before.memo _ _ kept

namespace Sample

/-! Two modules whose files share a mark, and a third one that the file of the first imports. -/

def markedParser : ImportParser where
  number := none
  parse path _ := .ok (if path = "b\x00c.proto" then ["x.proto"] else [])

def markedAddition (bucketId path : String) : Addition :=
  .ofLocal (.memory ⟨[(path, ⟨#[]⟩)]⟩) bucketId {}

def markedModule (position : Nat) (bucketId path : String) (h : bucketId ≠ "") : Module where
  source := ⟨0, position⟩
  bucketId := bucketId
  description := bucketId
  name := none
  commit := .none
  isTarget := false
  isLocal := true
  includes := []
  excludes := []
  inputs := (markedAddition bucketId path).inputs
  identified := .inl h
  named_of_remote := nofun
  named_of_commit := nofun

def outer : Module := markedModule 0 "a" "b\x00c.proto" (by decide)

def inner : Module := markedModule 1 "a\x00b" "c.proto" (by decide)

def innermost : Module := markedModule 2 "x" "x.proto" (by decide)

def markedSet : ModuleSet :=
  ⟨0, markedParser, [outer, inner, innermost], by decide, by decide⟩

/-- The session in which the set was built. -/
def markedSession : Session :=
  ({} : Session).after (Session.build markedParser [markedAddition "a" "b\x00c.proto",
    markedAddition "a\x00b" "c.proto", markedAddition "x" "x.proto"])

theorem sets_markedSession : markedSession.sets = [markedSet] := rfl

theorem reachable_markedSession : Session.Reachable loads markedSession := by
  refine ⟨{}, .single (.build _ _ _ fun a ha keys hkeys => ?_)⟩
  simp only [List.mem_cons, List.not_mem_nil, or_false] at ha
  rcases ha with rfl | rfl | rfl <;> cases hkeys

theorem markedSet_mem : markedSet ∈ markedSession.sets :=
  sets_markedSession ▸ List.mem_cons_self

theorem isLoadable_outer (disk : Disk) : outer.IsLoadable disk :=
  ⟨_, rfl, rfl, "b\x00c.proto", List.mem_cons_self, by decide⟩

theorem hasProtoOn_outer (disk : Disk) : outer.HasProtoOn disk "b\x00c.proto" :=
  ⟨_, rfl, List.mem_cons_self, by decide⟩

theorem hasProtoOn_inner (disk : Disk) : inner.HasProtoOn disk "c.proto" :=
  ⟨_, rfl, List.mem_cons_self, by decide⟩

theorem fileMark_inner : fileMark inner "c.proto" = fileMark outer "b\x00c.proto" := by
  decide

theorem importsOn_inner (disk : Disk) : markedSet.importsOn disk inner "c.proto" = .ok [] := rfl

end Sample

/-- In the sample with the shared mark, the imports of the first file are given for the second one too
after they were asked for; in the sample without one, the first module has its dependency. -/
theorem Sample.importsOf_inner_after_outer :
    (markedSession.after (markedSet.importsOf Session.access outer "b\x00c.proto")).outcome
        (markedSet.importsOf Session.access inner "c.proto") = .ok ["x.proto"] ∧
      session.outcome (set.dependencies Session.access first) =
        set.dependencies (.direct session.disk session.sets) first := by
  obtain ⟨-, shared⟩ := reachable_markedSession.importsOf_eq_first markedSet_mem
  obtain ⟨own, -⟩ := reachable_session.importsOf_eq_first set_mem_sets
  constructor
  · exact (shared outer List.mem_cons_self (isLoadable_outer _) _ (hasProtoOn_outer _) rfl).2 _
      (.refl _) inner "c.proto" fileMark_inner
  · exact (own (hasPlainPaths_set _).hasTrueMarks first (mem_modules_set.2 (.inl rfl))).1

/-- After the imports of one file were asked for, those that a session gives for a file of another module
of the set are not the ones that are found in that file. -/
theorem Sample.importsOf_ne_importsOn : ∃ (σ : Session) (s : ModuleSet) (x y : Module)
    (path path' : String), Session.Reachable loads σ ∧ s ∈ σ.sets ∧ x ∈ s.modules ∧ y ∈ s.modules ∧
      x ≠ y ∧ x.HasProtoOn σ.disk path ∧ y.HasProtoOn σ.disk path' ∧
      s.importsOn σ.disk y path' = .ok [] ∧
      (σ.after (s.importsOf Session.access x path)).outcome (s.importsOf Session.access y path') =
        .ok ["x.proto"] := by
  refine ⟨markedSession, markedSet, outer, inner, "b\x00c.proto", "c.proto", reachable_markedSession,
    markedSet_mem, List.mem_cons_self, List.mem_cons_of_mem _ List.mem_cons_self, ?_,
    hasProtoOn_outer _, hasProtoOn_inner _, importsOn_inner _, ?_⟩
  · exact fun same => absurd (congrArg Module.bucketId same) (by decide)
  · obtain ⟨-, kept⟩ := reachable_markedSession.outcome_importsOf_of_none markedSet_mem
      List.mem_cons_self (isLoadable_outer _) (hasProtoOn_outer _) rfl
    rw [← fileMark_inner] at kept
    exact Session.outcome_importsOf_of_some kept

end ProtoWorkspace
