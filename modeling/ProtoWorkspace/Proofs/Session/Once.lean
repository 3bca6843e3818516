import Mathlib.Tactic
import ProtoWorkspace.Proofs.ModuleSet.Contents
import ProtoWorkspace.Proofs.Session.Dependencies
import ProtoWorkspace.Proofs.Session.Retargeted
import ProtoWorkspace.Proofs.Session.Ways

/-!
# Inputs are used once

In every session that can come about, what the modules of a set are made of is loaded once at most, also
for the sets that came of it by giving targets, and a file is read once at most for its imports and for
each digest. What no module was made of is never used.
-/

namespace ProtoWorkspace

open Fallible

namespace ModuleSet

variable {number : Nat} {parser : ImportParser} {additions : List Addition} {t : ModuleSet}

/-- Modules of a built set with one source are the same. -/
theorem eq_of_source_of_build (h : build number parser additions = .ok t) {x y : Module}
    (hx : x ∈ t.modules) (hy : y ∈ t.modules) (same : x.source = y.source) : x = y := by
  obtain ⟨-, a, ha, made⟩ := exists_made_of_mem_build h hx
  obtain ⟨-, b, hb, made'⟩ := exists_made_of_mem_build h hy
  rw [same, hb] at ha
  cases ha
  obtain ⟨-, bucketId, -, name, -⟩ := Addition.toModule_eq_ok made
  obtain ⟨-, bucketId', -, name', -⟩ := Addition.toModule_eq_ok made'
  apply eq_of_identity hx hy
  rw [Module.identity, Module.identity, name, name', bucketId, bucketId']

/-- A set that came of another has its modules, with other targets at most. -/
theorem CameOf.exists_modules_eq {s : ModuleSet} (h : t.CameOf s) :
    ∃ isTarget : Module → Bool, t.modules = s.modules.map fun x => x.withTarget (isTarget x) := by
  induction h with
  | refl =>
    refine ⟨Module.isTarget, ?_⟩
    exact (List.map_id' s.modules).symm
  | @tail u t _ step ih =>
    obtain ⟨number, identities, step⟩ := step
    obtain ⟨isTarget, modules⟩ := ih
    refine ⟨fun x => decide (x.identity ∈ identities), ?_⟩
    rw [modules_of_retarget step, modules, List.map_map]
    rfl

end ModuleSet

/-- Whether the modules of each set have different sources, and every source is that of a module of the
set that it names. -/
structure AreSourced (sets : List ModuleSet) : Prop where
  distinct {s : ModuleSet} {x y : Module} : s ∈ sets → x ∈ s.modules → y ∈ s.modules →
    x.source = y.source → x = y
  origin {t : ModuleSet} {y : Module} : t ∈ sets → y ∈ t.modules →
    ∃ s ∈ sets, s.number = y.source.set ∧ ∃ x ∈ s.modules, x.source = y.source

namespace AreSourced

variable {sets : List ModuleSet} {t : ModuleSet}

theorem append (h : AreSourced sets)
    (distinct : ∀ x ∈ t.modules, ∀ y ∈ t.modules, x.source = y.source → x = y)
    (origin : ∀ y ∈ t.modules, ∃ s ∈ sets ++ [t], s.number = y.source.set ∧
      ∃ x ∈ s.modules, x.source = y.source) : AreSourced (sets ++ [t]) where
  distinct {s x y} hs hx hy := by
    rcases List.mem_append.1 hs with hs | hs
    · exact h.distinct hs hx hy
    · obtain rfl := List.mem_singleton.1 hs
      exact distinct x hx y hy
  origin {s y} hs hy := by
    rcases List.mem_append.1 hs with hs | hs
    · obtain ⟨u, hu, rest⟩ := h.origin hs hy
      exact ⟨u, List.mem_append_left _ hu, rest⟩
    · obtain rfl := List.mem_singleton.1 hs
      exact origin y hy

theorem build (h : AreSourced sets) {parser : ImportParser} {additions : List Addition}
    (ht : ModuleSet.build sets.length parser additions = .ok t) : AreSourced (sets ++ [t]) := by
  refine h.append (fun x hx y hy => ModuleSet.eq_of_source_of_build ht hx hy) fun y hy => ?_
  have number := (ModuleSet.build_eq_ok ht).1
  have source := (ModuleSet.exists_addition_of_mem_build ht hy).1
  exact ⟨t, List.mem_append_right _ (List.mem_singleton.2 rfl), number.trans source.symm, y, hy, rfl⟩

theorem retarget (h : AreSourced sets) {s : ModuleSet} (hs : s ∈ sets) {number : Nat}
    {identities : List String} (ht : s.retarget number identities = .ok t) :
    AreSourced (sets ++ [t]) := by
  have came {y : Module} (hy : y ∈ t.modules) : ∃ x ∈ s.modules, x.retargeted identities = y := by
    rw [ModuleSet.modules_of_retarget ht] at hy
    exact List.mem_map.1 hy
  apply h.append
  · intro x hx y hy same
    obtain ⟨x', hx', rfl⟩ := came hx
    obtain ⟨y', hy', rfl⟩ := came hy
    rw [h.distinct hs hx' hy' same]
  · intro y hy
    obtain ⟨y', hy', rfl⟩ := came hy
    obtain ⟨u, hu, rest⟩ := h.origin hs hy'
    exact ⟨u, List.mem_append_left _ hu, rest⟩

end AreSourced

/-! ## The journal of a session -/

/-- Outside of all questions only files are read, whatever is asked. -/
theorem Query.runs {disk : Disk} {loads : Nat → Except Error Digest} {sets : List ModuleSet}
    {α : Type} {x : SessionM α} (h : Query disk loads sets x)
    (numbered : ModuleSet.AreNumbered sets) : Runs sets x (fun _ => True) (AreFiles sets) := by
  have none := AreFiles.nil sets
  cases h with
  | openBucket hs hx => exact (Module.asks_openBucket hs hx).runs none
  | fileIndex hs hx => exact ((Module.asks_fileIndex hs hx).mono fun _ _ => trivial).runs none
  | @read s x hs hx path =>
    refine (Module.runs_read hs hx path).mono (fun _ => id) fun own h use hu => ?_
    exact ⟨s, hs, x, hx, path, List.mem_singleton.1 (h.subset hu)⟩
  | contents hs hx => exact Module.runs_contents_files hs hx
  | yaml hs hx => exact (Module.asks_yaml hs hx).runs none
  | lock hs hx => exact (Module.asks_lock hs hx).runs none
  | declaredKeys hs hx => exact (Module.asks_declaredKeys hs hx).runs none
  | provider hs path => exact (ModuleSet.asks_provider hs path).runs none
  | dependencies hs hx =>
    exact ((ModuleSet.asks_dependencies hs hx numbered).mono fun _ _ => trivial).runs none
  | digest hs hx type => exact (ModuleSet.asks_digest numbered hs hx type).runs none
  | keyDigest hk => exact (ModuleKey.asks_digest numbered _).runs none
  | push r fresh hs hx => exact Registry.runs_push numbered r fresh hs hx

namespace Session

variable {loads : Nat → Except Error Digest} {σ σ' : Session}

/-- Whether a session is orderly and its journal is a passage outside of whose questions only files are
read. -/
structure IsAccounted (σ : Session) : Prop where
  orderly : σ.IsOrderly σ.sets
  passage : ∃ own, Passage (Lawful σ.sets) own σ.journal ∧ AreFiles σ.sets own

theorem IsAccounted.addSet (h : σ.IsAccounted) (t : ModuleSet) :
    IsAccounted { σ with sets := σ.sets ++ [t] } where
  orderly := ⟨rfl, fun q a kept =>
    (h.orderly.answers q a kept).mono fun _ => List.mem_append_left [t]⟩
  passage := by
    obtain ⟨own, passage, files⟩ := h.passage
    refine ⟨own, passage.mono fun q inner lawful => ?_, ?_⟩
    · exact lawful.mono fun _ => List.mem_append_left [t]
    · exact files.mono fun _ => List.mem_append_left [t]

theorem IsAccounted.enter (h : σ.IsAccounted) {happening : Happening} (aside : happening.IsAside) :
    (σ.enter happening).IsAccounted where
  orderly := h.orderly.enter happening
  passage := by
    obtain ⟨own, passage, files⟩ := h.passage
    exact ⟨own, passage.aside aside, files⟩

theorem IsAccounted.runs (h : σ.IsAccounted) {α : Type} {x : SessionM α} {V : α → Prop}
    (hx : Runs σ.sets x V (AreFiles σ.sets)) : (σ.after x).IsAccounted := by
  obtain ⟨own, passage, files⟩ := h.passage
  obtain ⟨orderly, -, own', happenings, journal, passage', files'⟩ := hx σ h.orderly
  have same : (σ.after x).sets = σ.sets := orderly.sets_eq
  refine ⟨same ▸ orderly, own' ++ own, ?_, ?_⟩
  · rw [same, after, journal]
    exact passage.append passage'
  · rw [same]
    intro use hu
    exact (List.mem_append.1 hu).elim (files' use) (files use)

theorem Step.isAccounted (h : Step loads σ σ') (hσ : σ.IsAccounted)
    (numbered : ModuleSet.AreNumbered σ.sets) : σ'.IsAccounted := by
  cases h with
  | build parser additions hk =>
    rcases build_cases parser additions σ with ⟨t, -, -, after⟩ | ⟨e, -, -, after⟩
    · rw [after]
      exact (hσ.addSet t).enter (Happening.isAside_built _)
    · rwa [after]
  | retarget hs identities =>
    rcases retarget_cases _ identities σ with ⟨t, -, after⟩ | after
    · rw [after]
      exact hσ.addSet t
    · rwa [after]
  | query hx => exact hσ.runs (hx.runs numbered)
  | number => exact ⟨⟨hσ.orderly.sets_eq, hσ.orderly.answers⟩, hσ.passage⟩
  | tell record => exact hσ.enter (Happening.isAside_told record)

theorem Step.areSourced (h : Step loads σ σ') (hσ : AreSourced σ.sets) : AreSourced σ'.sets := by
  cases h with
  | build parser additions hk =>
    rcases build_cases parser additions σ with ⟨t, built, -, after⟩ | ⟨e, -, -, after⟩
    · rw [after]
      exact hσ.build built
    · rwa [after]
  | retarget hs identities =>
    rcases retarget_cases _ identities σ with ⟨t, made, after⟩ | after
    · rw [after]
      exact hσ.retarget hs made
    · rwa [after]
  | query hx =>
    rw [after, hx.cumulative.sets_eq σ]
    exact hσ
  | number => exact hσ
  | tell record => exact hσ

theorem Reachable.areNumbered (h : Reachable loads σ) : ModuleSet.AreNumbered σ.sets :=
  fun _ hs _ ht => h.setsInOrder.eq_of_number hs ht

theorem Reachable.areSourced (h : Reachable loads σ) : AreSourced σ.sets := by
  obtain ⟨disk, h⟩ := h
  induction h with
  | refl => exact ⟨by simp, by simp⟩
  | tail _ step ih => exact step.areSourced ih

theorem Reachable.isAccounted (h : Reachable loads σ) : σ.IsAccounted := by
  obtain ⟨disk, h⟩ := h
  induction h with
  | refl =>
    refine ⟨⟨rfl, fun q a kept => ?_⟩, [], .start, .nil _⟩
    rw [Memo.find?_empty] at kept
    cases kept
  | tail before step ih =>
    exact step.isAccounted ih (Reachable.areNumbered ⟨disk, before⟩)

/-- What is used is a file outside of all questions, or belongs to the question that is open. -/
theorem Reachable.mem_uses (h : Reachable loads σ) {use : Option Question × Use}
    (hu : use ∈ σ.uses) :
    (use.1 = none ∧ ∃ s ∈ σ.sets, ∃ x ∈ s.modules, ∃ path, use.2 = ⟨x.source, .file path⟩) ∨
      ∃ q, use.1 = some q ∧ Belongs σ.sets q use.2 := by
  obtain ⟨own, passage, files⟩ := h.isAccounted.passage
  rw [Session.uses, ← List.append_nil σ.journal] at hu
  rcases passage.mem_usesIn hu with earlier | ⟨outside, inOwn⟩ | ⟨q, inner, asked, lawful, inInner⟩
  · cases earlier
  · exact .inl ⟨outside, files _ inOwn⟩
  · exact .inr ⟨q, asked, lawful.belongs _ inInner⟩

/-- On the way to a question nothing is used twice. -/
theorem Reachable.count_uses_le_one (h : Reachable loads σ) (q : Question) (use : Use) :
    σ.uses.count (some q, use) ≤ 1 := by
  obtain ⟨own, passage, -⟩ := h.isAccounted.passage
  have few := passage.count_usesIn_le (fun _ _ lawful => lawful.distinct) [] (some q, use)
  -- no question is open at the start, so what is used outside of all questions does not count
  have outside : (own.map (Prod.mk (openQuestions []).head?)).count (some q, use) = 0 := by
    apply List.count_eq_zero_of_not_mem
    intro member
    obtain ⟨u, -, same⟩ := List.mem_map.1 member
    cases same
  have once : timesAskedIn σ.journal (some q) ≤ 1 := by
    have asked := (h.describes h.fits_world).once q
    change σ.timesAsked q ≤ 1
    rw [asked]
    split <;> omega
  have before : (usesIn []).count (some q, use) = 0 := rfl
  rw [List.append_nil, before, outside] at few
  dsimp only at few
  rw [Session.uses]
  omega

/-! ## How often something is used -/

/-- How often an input of the modules with a source was used. -/
def timesUsed (σ : Session) (source : Source) (input : Input) : Nat :=
  σ.count fun event => event.use? == some ⟨source, input⟩

/-- How often an input was used where the innermost open question satisfies a test. -/
def timesUsedFor (σ : Session) (source : Source) (input : Input) (test : Question → Bool) : Nat :=
  σ.uses.countP fun use => use.2 == ⟨source, input⟩ && use.1.any test

end Session

/-- Whether a question is for the imports of a file of the set with a number. -/
def Question.isImportsIn (number : Nat) : Question → Bool
  | .imports n _ => n == number
  | _ => false

/-- Whether a question is for the digests of a type of modules of the set with a number. -/
def Question.isDigestIn (number : Nat) (type : DigestType) : Question → Bool
  | .digest n _ type' => n == number && type' == type
  | _ => false

namespace Session

variable {loads : Nat → Except Error Digest} {σ : Session}

theorem timesUsed_eq_countP_uses (σ : Session) (source : Source) (input : Input) :
    σ.timesUsed source input = σ.uses.countP fun use => use.2 == ⟨source, input⟩ :=
  (σ.count_use ⟨source, input⟩).trans (countP_usesIn _ _).symm

theorem Reachable.countP_uses_le_one (h : Reachable loads σ) {test : Option Question × Use → Bool}
    (q : Question) (use : Use)
    (only : ∀ u ∈ σ.uses, test u = true → u = (some q, use)) : σ.uses.countP test ≤ 1 := by
  refine le_trans (List.countP_mono_left fun u hu passes => ?_) (h.count_uses_le_one q use)
  exact beq_iff_eq.2 (only u hu passes)

/-- What is no file is used on the way to one question only. -/
theorem exists_only_question (source : Source) {input : Input} (other : ∀ path, input ≠ .file path) :
    ∃ q₀, ∀ sets q, Belongs sets q ⟨source, input⟩ → q = q₀ := by
  cases input with
  | file path => exact absurd rfl (other path)
  | bucket =>
    refine ⟨.bucket source, ?_⟩
    rintro sets q ⟨⟩
    rfl
  | listing =>
    refine ⟨.fileIndex source, ?_⟩
    rintro sets q ⟨⟩
    rfl
  | yaml =>
    refine ⟨.yaml source, ?_⟩
    rintro sets q ⟨⟩
    rfl
  | lock =>
    refine ⟨.lock source, ?_⟩
    rintro sets q ⟨⟩
    rfl
  | keys =>
    refine ⟨.declaredKeys source, ?_⟩
    rintro sets q ⟨⟩
    rfl

theorem Reachable.timesUsed_le_one (h : Reachable loads σ) (source : Source) {input : Input}
    (other : ∀ path, input ≠ .file path) : σ.timesUsed source input ≤ 1 := by
  obtain ⟨q₀, only⟩ := exists_only_question source other
  rw [timesUsed_eq_countP_uses]
  refine h.countP_uses_le_one q₀ ⟨source, input⟩ fun use hu passes => ?_
  have same : use.2 = ⟨source, input⟩ := beq_iff_eq.1 passes
  rcases h.mem_uses hu with ⟨-, s, -, x, -, path, file⟩ | ⟨q, asked, belongs⟩
  · rw [same, Use.mk.injEq] at file
    exact absurd file.2 (other path)
  · rw [same] at belongs
    rw [only _ q belongs] at asked
    exact Prod.ext asked same

/-- If a file is read on the way to a question, this is for its imports or for a digest of its module,
which are asked in a set. -/
theorem Reachable.asked_of_mem_uses (h : Reachable loads σ) {q : Question} {source : Source}
    {path : String} (hu : (some q, ⟨source, .file path⟩) ∈ σ.uses) :
    ∃ t ∈ σ.sets, ∃ y ∈ t.modules, y.source = source ∧
      (q = .imports t.number (ModuleSet.fileMark y path) ∨
        ∃ type, q = .digest t.number y.identity type) := by
  rcases h.mem_uses hu with ⟨outside, -⟩ | ⟨q', asked, belongs⟩
  · cases outside
  · obtain rfl := Option.some.inj asked
    exact belongs.of_file

/-- What is used on the way to only one of the questions that satisfy a test is used once for them. -/
theorem Reachable.timesUsedFor_le_one (h : Reachable loads σ) {source : Source} {input : Input}
    {test : Question → Bool} (q₀ : Question)
    (only : ∀ q, (some q, ⟨source, input⟩) ∈ σ.uses → test q = true → q = q₀) :
    σ.timesUsedFor source input test ≤ 1 := by
  refine h.countP_uses_le_one q₀ ⟨source, input⟩ ?_
  rintro ⟨asked, use⟩ hu passes
  obtain ⟨same, asks⟩ := Bool.and_eq_true_iff.1 passes
  obtain rfl : use = _ := beq_iff_eq.1 same
  cases asked with
  | none => cases asks
  | some q => rw [only q hu asks]

section Files

variable (h : Reachable loads σ) {s : ModuleSet} (hs : s ∈ σ.sets) {x : Module} (hx : x ∈ s.modules)
  (path : String)

include h hs hx

/-- In a set, a file is read once at most for its imports. -/
theorem Reachable.timesUsedFor_imports_le_one :
    σ.timesUsedFor x.source (.file path) (Question.isImportsIn s.number) ≤ 1 := by
  refine h.timesUsedFor_le_one (.imports s.number (ModuleSet.fileMark x path)) fun q hu test => ?_
  obtain ⟨t, ht, y, hy, source, rfl | ⟨type, rfl⟩⟩ := h.asked_of_mem_uses hu
  · obtain rfl := h.areNumbered t ht s hs (beq_iff_eq.1 test)
    rw [h.areSourced.distinct ht hy hx source]
  · cases test

/-- In a set, a file is read once at most for each type of digest. -/
theorem Reachable.timesUsedFor_digest_le_one (type : DigestType) :
    σ.timesUsedFor x.source (.file path) (Question.isDigestIn s.number type) ≤ 1 := by
  refine h.timesUsedFor_le_one (.digest s.number x.identity type) fun q hu test => ?_
  obtain ⟨t, ht, y, hy, source, rfl | ⟨type', rfl⟩⟩ := h.asked_of_mem_uses hu
  · cases test
  · obtain ⟨number, sameType⟩ := Bool.and_eq_true_iff.1 test
    obtain rfl := h.areNumbered t ht s hs (beq_iff_eq.1 number)
    obtain rfl := beq_iff_eq.1 sameType
    rw [h.areSourced.distinct ht hy hx source]

end Files

/-- Whatever is used is of a module of a set. -/
theorem Reachable.exists_source_of_mem_uses (h : Reachable loads σ) {use : Option Question × Use}
    (hu : use ∈ σ.uses) : ∃ s ∈ σ.sets, ∃ x ∈ s.modules, x.source = use.2.source := by
  rcases h.mem_uses hu with ⟨-, s, hs, x, hx, path, file⟩ | ⟨q, -, belongs⟩
  · exact ⟨s, hs, x, hx, (congrArg Use.source file).symm⟩
  · exact belongs.exists_source

/-- What was used stays used. -/
theorem Reachable.timesUsed_le_after (h : Reachable loads σ) {α : Type} {x : SessionM α}
    (hx : Query σ.disk loads σ.sets x) (source : Source) (input : Input) :
    σ.timesUsed source input ≤ (σ.after x).timesUsed source input := by
  obtain ⟨-, -, -, happenings, journal, -⟩ := hx.runs h.areNumbered σ h.isAccounted.orderly
  rw [timesUsed, timesUsed, count_use, count_use, after, journal, List.countP_append]
  exact Nat.le_add_left _ _

/-- What no module of a set was made of is never used. -/
theorem Reachable.timesUsed_eq_zero (h : Reachable loads σ) {s : ModuleSet} (hs : s ∈ σ.sets)
    {position : Nat} (dropped : ∀ x ∈ s.modules, x.source ≠ ⟨s.number, position⟩) (input : Input) :
    σ.timesUsed ⟨s.number, position⟩ input = 0 := by
  rw [timesUsed_eq_countP_uses, List.countP_eq_zero]
  intro use hu passes
  have same : use.2 = ⟨⟨s.number, position⟩, input⟩ := beq_iff_eq.1 passes
  obtain ⟨t, ht, y, hy, source⟩ := h.exists_source_of_mem_uses hu
  obtain ⟨u, hu, number, x, hx, source'⟩ := h.areSourced.origin ht hy
  rw [source, same] at number source'
  obtain rfl := h.areNumbered u hu s hs number
  exact dropped x hx source'

end Session

/-- What the modules of a built set were made of is loaded once at most in a whole session, whether it
loads or fails, and the paths of a bucket are walked once at most. The sets that came of the set share
this with it, since they have its modules with other targets at most. In each of the sets a file is read
once at most for its imports and once at most for each type of digest, and on the way to no other
question. Additions of which no module was made are never used. -/
theorem Session.Reachable.inputs_used_once {loads : Nat → Except Error Digest} {σ : Session}
    (h : Session.Reachable loads σ) {s : ModuleSet} (hs : s ∈ σ.sets) {parser : ImportParser}
    {additions : List Addition} (built : ModuleSet.build s.number parser additions = .ok s) :
    (∀ t ∈ σ.sets, t.CameOf s → ∃ isTarget : Module → Bool,
      t.modules = s.modules.map fun x => x.withTarget (isTarget x)) ∧
    (∀ x ∈ s.modules, x.source.set = s.number ∧
      (∃ a, additions[x.source.position]? = some a ∧ x.inputs = a.inputs) ∧
      ∀ input, (∀ path, input ≠ .file path) → σ.timesUsed x.source input ≤ 1) ∧
    (∀ t ∈ σ.sets, ∀ x ∈ t.modules, ∀ path,
      σ.timesUsedFor x.source (.file path) (Question.isImportsIn t.number) ≤ 1 ∧
      ∀ type, σ.timesUsedFor x.source (.file path) (Question.isDigestIn t.number type) ≤ 1) ∧
    (∀ q source path, (some q, ⟨source, .file path⟩) ∈ σ.uses → ∃ t ∈ σ.sets,
      q.isImportsIn t.number = true ∨ ∃ type, q.isDigestIn t.number type = true) ∧
    ∀ position, (∀ x ∈ s.modules, x.source.position ≠ position) →
      ∀ input, σ.timesUsed ⟨s.number, position⟩ input = 0 := by
  refine ⟨fun t _ came => came.exists_modules_eq, fun x hx => ?_, fun t ht x hx path => ?_,
    fun q source path hu => ?_, fun position dropped input => ?_⟩
  · obtain ⟨set, a, ha, inputs⟩ := ModuleSet.exists_addition_of_mem_build built hx
    exact ⟨set, ⟨a, ha, inputs.1⟩, fun input other => h.timesUsed_le_one x.source other⟩
  · exact ⟨h.timesUsedFor_imports_le_one ht hx path, h.timesUsedFor_digest_le_one ht hx path⟩
  · obtain ⟨t, ht, y, -, -, rfl | ⟨type, rfl⟩⟩ := h.asked_of_mem_uses hu
    · exact ⟨t, ht, .inl (beq_self_eq_true _)⟩
    · exact ⟨t, ht, .inr ⟨type, by simp [Question.isDigestIn]⟩⟩
  · exact h.timesUsed_eq_zero hs (fun x hx same => dropped x hx (congrArg Source.position same)) input

namespace Sample

/-! Two modules that are loaded when they are needed: a local one, whose configuration file cannot be read,
and a remote one. A second remote module has the name of the local one. -/

def unreadableFirst : Module :=
  { first with
    inputs := { first.inputs with
      yaml := .deferred fun _ => .error (.unreadable "buf.yaml" "permission denied") } }

def fetchedSecond : Module :=
  { second with
    bucketId := ""
    commit := olderRemote.commit
    isLocal := false
    inputs := { olderRemote.inputs with bucket := .deferred fun _ => .ok (bucket "b") }
    identified := .inr rfl
    named_of_remote := fun _ => rfl
    named_of_commit := fun _ => rfl }

def fetchedSet : ModuleSet := ⟨0, parser, [unreadableFirst, fetchedSecond], by decide, by decide⟩

def fetchedAdditions : List Addition :=
  [{ addition "a" isValid_a with inputs := unreadableFirst.inputs },
    { olderRemote with name := second.name, isTarget := false, inputs := fetchedSecond.inputs },
    { olderRemote with
      name := first.name
      inputs := { olderRemote.inputs with
        bucket := .deferred fun _ => .error (.provider (.unavailable "offline")) } }]

theorem build_fetchedAdditions : ModuleSet.build 0 parser fetchedAdditions = .ok fetchedSet := rfl

theorem mem_fetchedSet : unreadableFirst ∈ fetchedSet.modules ∧ fetchedSecond ∈ fetchedSet.modules :=
  ⟨List.mem_cons_self, List.mem_cons_of_mem _ List.mem_cons_self⟩

def builtSession : Session :=
  ({} : Session).after (Session.build parser fetchedAdditions)

/-- The session in which the configuration file of the local module was asked for, and which files the
remote one has. -/
def fetchedSession : Session :=
  (builtSession.after (unreadableFirst.yaml Session.access)).after
    (fetchedSecond.fileIndex Session.access)

theorem sets_fetchedSession : fetchedSession.sets = [fetchedSet] :=
  (Cumulative.sets_eq _).trans (Cumulative.sets_eq (x := unreadableFirst.yaml Session.access) builtSession)

theorem reachable_fetchedSession : Session.Reachable loads fetchedSession := by
  have built : Session.Reachable loads builtSession := by
    refine ⟨{}, .single (.build _ _ _ fun a ha keys given => ?_)⟩
    simp only [fetchedAdditions, List.mem_cons, List.not_mem_nil, or_false] at ha
    rcases ha with rfl | rfl | rfl
    · cases given
    · cases given
      exact List.forall_mem_nil _
    · cases given
      exact List.forall_mem_nil _
  have yaml : Query builtSession.disk loads builtSession.sets (unreadableFirst.yaml Session.access) :=
    .yaml (List.mem_singleton.2 rfl) mem_fetchedSet.1
  refine (built.query yaml).query (.fileIndex ?_ mem_fetchedSet.2)
  exact (yaml.cumulative.before _).sets.subset (List.mem_singleton.2 rfl)

set_option maxRecDepth 10000 in
theorem uses_fetchedSession : fetchedSession.uses.map Prod.snd =
    [⟨fetchedSecond.source, .listing⟩, ⟨fetchedSecond.source, .bucket⟩,
      ⟨unreadableFirst.source, .yaml⟩] := by
  cbv

/-- The session in which then the dependencies of the local module were asked for, for which the files of all
modules are listed. -/
def resolvedSession : Session :=
  fetchedSession.after (fetchedSet.dependencies Session.access unreadableFirst)

/-- The session in which then its digest was asked for as well, for which its configuration file is needed. -/
def digestedSession : Session :=
  resolvedSession.after (fetchedSet.digest Session.access unreadableFirst .b4)

end Sample

/-- In the sample, the files of the remote module were loaded and listed once, and the configuration file of
the local one was loaded once, although it could not be read. Of the other remote module, whose place the
local one took, nothing was loaded. -/
theorem Sample.used_once_fetched :
    ModuleSet.build fetchedSet.number parser fetchedAdditions = .ok fetchedSet ∧
    digestedSession.timesUsed fetchedSecond.source .bucket = 1 ∧
    digestedSession.timesUsed fetchedSecond.source .listing = 1 ∧
    digestedSession.timesUsed unreadableFirst.source .yaml = 1 ∧
    ∀ input, digestedSession.timesUsed ⟨0, 2⟩ input = 0 := by
  have resolving : Query fetchedSession.disk loads fetchedSession.sets
      (fetchedSet.dependencies Session.access unreadableFirst) :=
    .dependencies (sets_fetchedSession ▸ List.mem_cons_self) mem_fetchedSet.1
  have resolved : Session.Reachable loads resolvedSession := reachable_fetchedSession.query resolving
  have still : fetchedSet ∈ resolvedSession.sets :=
    (resolving.cumulative.before _).sets.subset (sets_fetchedSession ▸ List.mem_cons_self)
  have digesting : Query resolvedSession.disk loads resolvedSession.sets
      (fetchedSet.digest Session.access unreadableFirst .b4) :=
    .digest still mem_fetchedSet.1 .b4
  have asked : Session.Reachable loads digestedSession := resolved.query digesting
  obtain ⟨-, loaded, -, -, dropped⟩ := asked.inputs_used_once
    ((digesting.cumulative.before _).sets.subset still) build_fetchedAdditions
  -- what was used at first counts still, and nothing counts twice
  have once {x : Module} (hx : x ∈ fetchedSet.modules) {input : Input} (other : ∀ path, input ≠ .file path)
      (used : fetchedSession.timesUsed x.source input = 1) : digestedSession.timesUsed x.source input = 1 := by
    have more : 1 ≤ digestedSession.timesUsed x.source input :=
      used ▸ (reachable_fetchedSession.timesUsed_le_after resolving _ _).trans
        (resolved.timesUsed_le_after digesting _ _)
    exact le_antisymm ((loaded x hx).2.2 input other) more
  have used {source : Source} {input : Input}
      (hu : (fetchedSession.uses.map Prod.snd).count ⟨source, input⟩ = 1) :
      fetchedSession.timesUsed source input = 1 := by
    rw [Session.timesUsed_eq_countP_uses]
    rwa [List.count, List.countP_map] at hu
  refine ⟨build_fetchedAdditions, ?_, ?_, ?_, dropped 2 ?_⟩
  · exact once mem_fetchedSet.2 (by simp) (used (uses_fetchedSession ▸ by decide))
  · exact once mem_fetchedSet.2 (by simp) (used (uses_fetchedSession ▸ by decide))
  · exact once mem_fetchedSet.1 (by simp) (used (uses_fetchedSession ▸ by decide))
  · intro x hx
    simp only [fetchedSet, List.mem_cons, List.not_mem_nil, or_false] at hx
    rcases hx with rfl | rfl
    · decide
    · decide

end ProtoWorkspace
