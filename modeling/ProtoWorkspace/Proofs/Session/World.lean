import ProtoWorkspace.Proofs.Session.Cumulative

/-!
# What is behind a session

A world is what the answers in a session are about: the disk, all the sets that are ever made, and a
plain way to them. A session is described by a world when every answer that it keeps is the one that
the plain way gives, and when nothing was asked for twice. Something done in a session follows
something done by the plain way when it has the same outcome and leaves a session that the world
still describes. This is kept by putting things together, so that it holds of every question.

The imports of files are the one exception. They are kept under a text that two files may share, and
then the file that was asked for first counts for both. Hence a world may say what the imports of
files are taken to be, as long as this is what the session will have kept in the end.
-/

namespace ProtoWorkspace

/-- What the answers in a session are about. -/
structure World where
  io : Access (Except Error)
  disk : Disk
  /-- All sets that are ever made. -/
  sets : List ModuleSet
  /-- How many of them were made so far. -/
  made : Nat
  /-- What is loaded for the numbers of keys. -/
  loads : Nat → Except Error Digest

/-- Whether what a key refers to was there before the set with a number: its number stands for what
it loads, or it is the key of a module of an earlier set. -/
def ModuleKey.IsKnown (key : ModuleKey) (disk : Disk) (loads : Nat → Except Error Digest)
    (number : Nat) : Prop :=
  match key.origin with
  | .known _ => True
  | .supplied n load => load disk = loads n
  | .ofModule n _ _ => n < number

theorem ModuleKey.IsKnown.mono {key : ModuleKey} {disk : Disk} {loads : Nat → Except Error Digest}
    {n k : Nat} (h : key.IsKnown disk loads n) (hnk : n ≤ k) : key.IsKnown disk loads k := by
  cases ho : key.origin with
  | known digest => simp only [IsKnown, ho]
  | supplied number load => simpa only [IsKnown, ho] using h
  | ofModule number identity type =>
    have before : number < n := by
      simpa only [IsKnown, ho] using h
    simpa only [IsKnown, ho] using lt_of_lt_of_le before hnk

/-- Whether sets have their positions as numbers, sources were there before the sets with modules
from them, modules from one source are made of the same, and remote modules were published with
known keys. -/
structure SetsInOrder (disk : Disk) (loads : Nat → Except Error Digest)
    (sets : List ModuleSet) : Prop where
  number_eq {i : Nat} {s : ModuleSet} : sets[i]? = some s → s.number = i
  source_le {s : ModuleSet} {x : Module} : s ∈ sets → x ∈ s.modules → x.source.set ≤ s.number
  source {s t : ModuleSet} {x y : Module} : s ∈ sets → t ∈ sets → x ∈ s.modules →
    y ∈ t.modules → x.source = y.source → x.inputs = y.inputs ∧ x.description = y.description
  keys {s : ModuleSet} {x : Module} {keys : List ModuleKey} : s ∈ sets → x ∈ s.modules →
    x.inputs.declaredKeys.on disk = .ok keys → ∀ key ∈ keys, key.IsKnown disk loads s.number

theorem SetsInOrder.getElem_number {disk : Disk} {loads : Nat → Except Error Digest}
    {sets : List ModuleSet} (h : SetsInOrder disk loads sets) {s : ModuleSet} (hs : s ∈ sets) :
    sets[s.number]? = some s := by
  obtain ⟨i, hi⟩ := List.mem_iff_getElem?.1 hs
  rw [h.number_eq hi, hi]

theorem SetsInOrder.number_lt {disk : Disk} {loads : Nat → Except Error Digest}
    {sets : List ModuleSet} (h : SetsInOrder disk loads sets) {s : ModuleSet} (hs : s ∈ sets) :
    s.number < sets.length := by
  obtain ⟨made, -⟩ := List.getElem?_eq_some_iff.1 (h.getElem_number hs)
  exact made

theorem SetsInOrder.eq_of_number {disk : Disk} {loads : Nat → Except Error Digest}
    {sets : List ModuleSet} (h : SetsInOrder disk loads sets) {s t : ModuleSet} (hs : s ∈ sets)
    (ht : t ∈ sets) (same : s.number = t.number) : s = t := by
  have hs := h.getElem_number hs
  rw [same, h.getElem_number ht] at hs
  exact (Option.some.inj hs).symm

theorem SetsInOrder.of_mem_take {disk : Disk} {loads : Nat → Except Error Digest}
    {sets : List ModuleSet} (h : SetsInOrder disk loads sets) {n : Nat} {s : ModuleSet}
    (hs : s ∈ sets.take n) : s ∈ sets ∧ s.number < n := by
  obtain ⟨i, hi⟩ := List.mem_iff_getElem?.1 hs
  rw [List.getElem?_take] at hi
  split at hi
  · next hlt =>
    rw [h.number_eq hi]
    exact ⟨List.mem_of_getElem? hi, hlt⟩
  · cases hi

/-- Whether something that is said to be the imports of a file was read from a file with the given
mark. -/
def IsRead (disk : Disk) (sets : List ModuleSet) : (q : Question) → Except Error q.Answer → Prop
  | .imports number mark, a => ∃ s ∈ sets, s.number = number ∧ ∃ x ∈ s.modules,
    x.IsLoadable disk ∧ ∃ path, x.HasProtoOn disk path ∧
      ModuleSet.fileMark x path = mark ∧ s.importsOn disk x path = a
  | _, _ => True

namespace World

/-- Whether the sets of a world can have been made in a session, and its way to them is plain. -/
structure IsSound (w : World) : Prop where
  plain : w.io.IsPlain w.disk w.sets
  inOrder : SetsInOrder w.disk w.loads w.sets

/-- Whether something is the answer to a question. -/
def Answers (w : World) : (q : Question) → Except Error q.Answer → Prop
  | .bucket source, a => ∃ s ∈ w.sets, ∃ x ∈ s.modules, x.source = source ∧ x.openBucket w.io = a
  | .fileIndex source, a => ∃ s ∈ w.sets, ∃ x ∈ s.modules, x.source = source ∧ x.fileIndex w.io = a
  | .yaml source, a => ∃ s ∈ w.sets, ∃ x ∈ s.modules, x.source = source ∧ x.yaml w.io = a
  | .lock source, a => ∃ s ∈ w.sets, ∃ x ∈ s.modules, x.source = source ∧ x.lock w.io = a
  | .declaredKeys source, a =>
    ∃ s ∈ w.sets, ∃ x ∈ s.modules, x.source = source ∧ x.declaredKeys w.io = a
  | .provider number path, a => ∃ s ∈ w.sets, s.number = number ∧ s.provider w.io path = a
  | .imports number mark, a => ∃ s ∈ w.sets, s.number = number ∧ ∃ x ∈ s.modules,
    x.IsLoadable w.disk ∧ ∃ path, x.HasProtoOn w.disk path ∧
      ModuleSet.fileMark x path = mark ∧ s.importsOf w.io x path = a
  | .dependencies number identity, a => ∃ s ∈ w.sets, s.number = number ∧
    ∃ x ∈ s.modules, x.identity = identity ∧ s.dependencies w.io x = a
  | .digest number identity type, a => ∃ s ∈ w.sets, s.number = number ∧
    ∃ x ∈ s.modules, x.identity = identity ∧ s.digest w.io x type = a
  | .keyDigest number, a => w.loads number = a

section Sound

variable {w : World} (hw : w.IsSound)

include hw

theorem IsSound.answers_unique {q : Question} (hq : q.isImports = false)
    {a b : Except Error q.Answer} (ha : w.Answers q a) (hb : w.Answers q b) : a = b := by
  cases q with
  | bucket source =>
    obtain ⟨s, hs, x, hx, rfl, rfl⟩ := ha
    obtain ⟨t, ht, y, hy, same, rfl⟩ := hb
    rw [hw.plain.openBucket_eq, hw.plain.openBucket_eq, (hw.inOrder.source ht hs hy hx same).1]
  | fileIndex source =>
    obtain ⟨s, hs, x, hx, rfl, rfl⟩ := ha
    obtain ⟨t, ht, y, hy, same, rfl⟩ := hb
    obtain ⟨inputs, description⟩ := hw.inOrder.source ht hs hy hx same
    rw [hw.plain.fileIndex_eq, hw.plain.fileIndex_eq, Module.indexOn, Module.indexOn, inputs,
      description]
  | yaml source =>
    obtain ⟨s, hs, x, hx, rfl, rfl⟩ := ha
    obtain ⟨t, ht, y, hy, same, rfl⟩ := hb
    rw [hw.plain.yaml_eq, hw.plain.yaml_eq, (hw.inOrder.source ht hs hy hx same).1]
  | lock source =>
    obtain ⟨s, hs, x, hx, rfl, rfl⟩ := ha
    obtain ⟨t, ht, y, hy, same, rfl⟩ := hb
    rw [hw.plain.lock_eq, hw.plain.lock_eq, (hw.inOrder.source ht hs hy hx same).1]
  | declaredKeys source =>
    obtain ⟨s, hs, x, hx, rfl, rfl⟩ := ha
    obtain ⟨t, ht, y, hy, same, rfl⟩ := hb
    rw [hw.plain.declaredKeys_eq, hw.plain.declaredKeys_eq, (hw.inOrder.source ht hs hy hx same).1]
  | provider number path =>
    obtain ⟨s, hs, rfl, rfl⟩ := ha
    obtain ⟨t, ht, same, rfl⟩ := hb
    rw [hw.inOrder.eq_of_number ht hs same]
  | imports number mark => cases hq
  | dependencies number identity =>
    obtain ⟨s, hs, rfl, x, hx, rfl, rfl⟩ := ha
    obtain ⟨t, ht, same, y, hy, sameIdentity, rfl⟩ := hb
    obtain rfl := hw.inOrder.eq_of_number ht hs same
    rw [ModuleSet.eq_of_identity hy hx sameIdentity]
  | digest number identity type =>
    obtain ⟨s, hs, rfl, x, hx, rfl, rfl⟩ := ha
    obtain ⟨t, ht, same, y, hy, sameIdentity, rfl⟩ := hb
    obtain rfl := hw.inOrder.eq_of_number ht hs same
    rw [ModuleSet.eq_of_identity hy hx sameIdentity]
  | keyDigest number =>
    exact ha.symm.trans hb

end Sound

end World

/-- How far a question is from those that only load something: it leads to questions of a lower rank
alone, but digests lead to digests. -/
def Question.rank : Question → Nat
  | .bucket _ | .yaml _ | .lock _ | .declaredKeys _ | .keyDigest _ => 0
  | .fileIndex _ => 1
  | .provider _ _ | .imports _ _ => 2
  | .dependencies _ _ => 3
  | .digest _ _ _ => 4

/-- How often the answer to a question was looked for. -/
def Session.timesAsked (σ : Session) (q : Question) : Nat :=
  σ.journal.countP fun
    | .asked q' => q' = q
    | _ => false

namespace World

/-- Whether a session is about a world, where the answers to the questions in `asking` are being
looked for. -/
structure Describes (w : World) (asking : List Question) (σ : Session) : Prop where
  disk : σ.disk = w.disk
  sets : σ.sets = w.sets.take w.made
  answers (q : Question) (a : Except Error q.Answer) : σ.memo.find? q = some a →
    ∀ b, w.Answers q b → a = b
  read (q : Question) (a : Except Error q.Answer) : σ.memo.find? q = some a →
    IsRead w.disk w.sets q a
  once (q : Question) :
    σ.timesAsked q = if (σ.memo.find? q).isSome ∨ q ∈ asking then 1 else 0

/-- Whether the imports that a session keeps are what the world takes them to be. -/
def Allows (w : World) (σ : Session) : Prop :=
  ∀ number mark a, σ.memo.find? (.imports number mark) = some a →
    ∀ b, w.Answers (.imports number mark) b → a = b

theorem Allows.of_before {w : World} {σ σ' : Session} (h : w.Allows σ') (hb : σ.Before σ') :
    w.Allows σ :=
  fun number mark a ha => h number mark a (hb.memo _ a ha)

theorem Describes.enter {w : World} {asking : List Question} {σ : Session}
    (h : w.Describes asking σ) {happening : Happening}
    (hh : ∀ q, happening ≠ .asked q) : w.Describes asking (σ.enter happening) where
  disk := h.disk
  sets := h.sets
  answers := h.answers
  read := h.read
  once q := by
    have same : (σ.enter happening).timesAsked q = σ.timesAsked q := by
      cases happening with
      | asked q' => exact absurd rfl (hh q')
      | _ => simp [Session.timesAsked, Session.enter]
    rw [same]
    exact h.once q

theorem Describes.ask {w : World} {asking : List Question} {σ : Session}
    (h : w.Describes asking σ) {q : Question} (hq : q ∉ asking) (hn : σ.memo.find? q = none) :
    w.Describes (q :: asking) (σ.enter (.asked q)) where
  disk := h.disk
  sets := h.sets
  answers := h.answers
  read := h.read
  once q' := by
    have before := h.once q'
    by_cases same : q = q'
    · subst same
      have zero : σ.timesAsked q = 0 := by simpa [hn, hq] using before
      have one : (σ.enter (.asked q)).timesAsked q = σ.timesAsked q + 1 := by
        simp [Session.timesAsked, Session.enter]
      simp [one, zero]
    · have less : (σ.enter (.asked q)).timesAsked q' = σ.timesAsked q' := by
        simp [Session.timesAsked, Session.enter, same]
      have kept : (σ.enter (.asked q)).memo = σ.memo := rfl
      rw [less, kept]
      simpa [Ne.symm same] using before

theorem Describes.store {w : World} {asking : List Question} {σ : Session} {q : Question}
    (h : w.Describes (q :: asking) σ) {a : Except Error q.Answer}
    (ha : ∀ b, w.Answers q b → a = b)
    (hr : IsRead w.disk w.sets q a) :
    w.Describes asking { σ.enter (.answered q a) with memo := σ.memo.store q a } where
  disk := h.disk
  sets := h.sets
  answers q' a' h' := by
    by_cases same : q = q'
    · subst same
      rw [Memo.find?_store_self] at h'
      cases h'
      exact ha
    · rw [Memo.find?_store_of_ne same] at h'
      exact h.answers q' a' h'
  read q' a' h' := by
    by_cases same : q = q'
    · subst same
      rw [Memo.find?_store_self] at h'
      cases h'
      exact hr
    · rw [Memo.find?_store_of_ne same] at h'
      exact h.read q' a' h'
  once q' := by
    have before := h.once q'
    have count : Session.timesAsked
        { σ.enter (.answered q a) with memo := σ.memo.store q a } q' = σ.timesAsked q' := by
      simp [Session.timesAsked, Session.enter]
    rw [count, before]
    by_cases same : q = q'
    · subst same
      simp
    · simp [Memo.find?_store_of_ne same, Ne.symm same]

end World

end ProtoWorkspace
