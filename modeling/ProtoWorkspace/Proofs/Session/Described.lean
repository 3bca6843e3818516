import ProtoWorkspace.Proofs.Session.Reachable

/-!
# Every session is described by its world

Every session that can come about is described by every world with its disk and its sets that takes
imports to be what the session keeps of them. One such world looks everything up anew and only takes
the imports from the session. If no path holds a NUL character, the session keeps the true imports,
and then the world that looks up everything describes it as well.
-/

namespace ProtoWorkspace

open Relation

variable {loads : Nat → Except Error Digest} {σ σ' : Session}

/-- Whether a world has the disk and the sets of a session, and takes imports to be what the session
keeps of them. -/
structure World.Fits (w : World) (loads : Nat → Except Error Digest) (σ : Session) : Prop where
  sound : w.IsSound
  disk : σ.disk = w.disk
  sets : σ.sets = w.sets.take w.made
  loads_eq : w.loads = loads
  allows : w.Allows σ

/-- A world that fits a session fits every earlier one, when fewer sets were made. -/
theorem World.Fits.of_before {w : World} (h : w.Fits loads σ') (hb : σ.Before σ') :
    { w with made := σ.sets.length }.Fits loads σ where
  sound := ⟨h.sound.plain, h.sound.inOrder⟩
  disk := hb.disk.symm.trans h.disk
  sets := by
    obtain ⟨later, both⟩ := hb.sets
    have enough : σ.sets.length ≤ w.made := by
      have := congrArg List.length (both.trans h.sets)
      rw [List.length_append, List.length_take] at this
      omega
    have first := congrArg (List.take σ.sets.length) (both.trans h.sets)
    rwa [List.take_left, List.take_take, min_eq_left enough] at first
  loads_eq := h.loads_eq
  allows := h.allows.of_before hb

/-- A session in which one set more was made is described as before. -/
theorem World.Describes.of_added {w : World} {n : Nat}
    (h : { w with made := n }.Describes [] σ) (hd : σ'.disk = σ.disk)
    (hs : σ'.sets = w.sets.take w.made) (hm : σ'.memo = σ.memo)
    (hj : ∀ q, σ'.timesAsked q = σ.timesAsked q) : w.Describes [] σ' where
  disk := hd.trans h.disk
  sets := hs
  answers q a ha := h.answers q a (hm ▸ ha)
  read q a ha := h.read q a (hm ▸ ha)
  once q := by
    rw [hj, hm]
    exact h.once q

theorem Session.timesAsked_enter {h : Happening} (hh : ∀ q, h ≠ .asked q) (q : Question) :
    (σ.enter h).timesAsked q = σ.timesAsked q := by
  cases h with
  | asked q' => exact absurd rfl (hh q')
  | _ => simp [Session.timesAsked, Session.enter]

theorem Session.Step.describes (h : Session.Step loads σ σ')
    (hσ : ∀ w : World, w.Fits loads σ → w.Describes [] σ) {w : World} (hw : w.Fits loads σ') :
    w.Describes [] σ' := by
  have fits := hw.of_before h.before
  cases h with
  | build parser additions hk =>
    rcases Session.build_cases parser additions σ with ⟨t, -, -, h⟩ | ⟨e, -, -, h⟩
    · rw [h] at hw ⊢
      exact (hσ _ fits).of_added rfl hw.sets rfl
        (Session.timesAsked_enter fun q => by simp)
    · rw [h] at hw ⊢
      exact hσ w hw
  | retarget hs identities =>
    rcases Session.retarget_cases _ identities σ with ⟨t, -, h⟩ | h
    · rw [h] at hw ⊢
      exact (hσ _ fits).of_added rfl hw.sets rfl fun _ => rfl
    · rw [h] at hw ⊢
      exact hσ w hw
  | query hx =>
    have before := hx.cumulative.before σ
    have fits : w.Fits loads σ :=
      ⟨hw.sound, before.disk.symm.trans hw.disk,
        (hx.cumulative.sets_eq σ).symm.trans hw.sets, hw.loads_eq, hw.allows.of_before before⟩
    rw [fits.disk, fits.sets, ← fits.loads_eq] at hx
    obtain ⟨y, hy⟩ := hx.exists_follows hw.sound
    exact (hy σ (hσ w fits) hw.allows).1
  | number =>
    have described := hσ w ⟨hw.sound, hw.disk, hw.sets, hw.loads_eq, hw.allows⟩
    exact ⟨described.disk, described.sets, described.answers, described.read, described.once⟩
  | tell record =>
    have described := hσ w ⟨hw.sound, hw.disk, hw.sets, hw.loads_eq, hw.allows⟩
    exact described.enter fun q => by simp

/-- Every session is described by all worlds that fit it. -/
theorem Session.Reachable.describes (h : Session.Reachable loads σ) {w : World}
    (hw : w.Fits loads σ) : w.Describes [] σ := by
  obtain ⟨disk, h⟩ := h
  induction h generalizing w with
  | refl =>
    exact {
      disk := hw.disk
      sets := hw.sets
      answers := by simp
      read := by simp
      once := by simp [Session.timesAsked] }
  | tail _ step ih => exact step.describes (fun w hw => ih hw) hw

/-- What is asked in a session has the outcome that any world says which fits the session after
it. -/
theorem Session.Reachable.follows (h : Session.Reachable loads σ) {α : Type} {x : SessionM α}
    [hc : Cumulative x] {w : World} (hw : w.Fits loads (σ.after x)) {y : Except Error α}
    (hy : Follows w [] x y) : w.Describes [] (σ.after x) ∧ σ.outcome x = y := by
  have before := hc.before σ
  have fits : w.Fits loads σ :=
    ⟨hw.sound, before.disk.symm.trans hw.disk, (hc.sets_eq σ).symm.trans hw.sets, hw.loads_eq,
      hw.allows.of_before before⟩
  exact hy σ (h.describes fits) hw.allows

namespace Session

open Classical in
/-- What the imports of files are taken to be: what the session keeps, and otherwise what is read from
some file with the mark. -/
noncomputable def importsKept (σ : Session) (number : Nat) (mark : String) :
    Except Error (List String) :=
  match σ.memo.find? (.imports number mark) with
  | some a => a
  | none =>
    if h : ∃ a, IsRead σ.disk σ.sets (.imports number mark) a then h.choose else .ok []

/-- The world that looks everything up anew, but takes the imports of files from a session. -/
noncomputable def world (σ : Session) (loads : Nat → Except Error Digest) : World where
  io := .recalling σ.disk σ.sets σ.importsKept
  disk := σ.disk
  sets := σ.sets
  made := σ.sets.length
  loads := loads

theorem Reachable.fits_world (h : Reachable loads σ) : (σ.world loads).Fits loads σ where
  sound := ⟨Access.isPlain_recalling _ _ _, h.setsInOrder⟩
  disk := rfl
  sets := (List.take_length).symm
  loads_eq := rfl
  allows := by
    rintro number mark a ha b ⟨s, -, rfl, x, -, -, path, -, rfl, rfl⟩
    change a = σ.importsKept s.number (ModuleSet.fileMark x path)
    rw [importsKept, ha]

/-- A digest in a session is what the world of the session says that comes after. -/
theorem Reachable.outcome_digest_world (h : Reachable loads σ) {s : ModuleSet} {x : Module} (hs : s ∈ σ.sets)
    (hx : x ∈ s.modules) (type : DigestType) : σ.outcome (s.digest access x type) =
      s.digest ((σ.after (s.digest access x type)).world loads).io x type := by
  have fits := (h.query (.digest hs hx type)).fits_world
  have before : σ.Before (σ.after (s.digest access x type)) := Cumulative.before σ
  obtain ⟨hsw, hmade⟩ := fits.sound.inOrder.of_mem_take (fits.sets ▸ before.sets.subset hs)
  exact (h.follows fits (.digest fits.sound hsw hmade hx)).2

theorem Reachable.outcome_dependencies_world (h : Reachable loads σ) {s : ModuleSet}
    {x : Module} (hs : s ∈ σ.sets) (hx : x ∈ s.modules) : σ.outcome (s.dependencies access x) =
      s.dependencies ((σ.after (s.dependencies access x)).world loads).io x := by
  have fits := (h.query (.dependencies hs hx)).fits_world
  have before : σ.Before (σ.after (s.dependencies access x)) := Cumulative.before σ
  obtain ⟨hsw, -⟩ := fits.sound.inOrder.of_mem_take (fits.sets ▸ before.sets.subset hs)
  exact (h.follows fits (.dependencies fits.sound hsw hx (by simp [Above]))).2

theorem outcome_keyDigest_of_known {key : ModuleKey} {digest : Digest}
    (h : key.origin = .known digest) :
    σ.outcome (key.digest access) = .ok digest := by
  rw [outcome, ModuleKey.digest_eq, ModuleKey.digestBy, h]
  rfl

end Session

/-! ## Paths without NUL characters -/

/-- Whether no Protobuf file of a set has a NUL character in its path. -/
def ModuleSet.HasPlainPaths (s : ModuleSet) (disk : Disk) : Prop :=
  ∀ x ∈ s.modules, ∀ path, x.HasProtoOn disk path → '\x00' ∉ path.toList

/-- The paths of files in memory can be looked through. -/
theorem ModuleSet.hasPlainPaths_of_memory {s : ModuleSet} {disk : Disk}
    (h : ∀ x ∈ s.modules, ∃ files : FileTable, x.inputs.bucket = .ready (.memory files) ∧
      ∀ path ∈ files.paths, '\x00' ∉ path.toList) : s.HasPlainPaths disk := by
  rintro x hx path ⟨bucket, hbucket, hmem, -⟩
  obtain ⟨files, hfiles, plain⟩ := h x hx
  rw [hfiles] at hbucket
  cases hbucket
  exact plain path hmem

theorem append_cons_inj {α : Type} {c : α} {as bs ps qs : List α} (hp : c ∉ ps) (hq : c ∉ qs)
    (h : as ++ c :: ps = bs ++ c :: qs) : as = bs ∧ ps = qs := by
  rcases List.append_eq_append_iff.1 h with ⟨cs, rfl, hcs⟩ | ⟨cs, rfl, hcs⟩
  · cases cs with
    | nil => exact ⟨(List.append_nil _).symm, (List.cons.inj hcs).2⟩
    | cons d cs =>
      rw [(List.cons.inj hcs).2] at hp
      exact absurd (by simp) hp
  · cases cs with
    | nil => exact ⟨List.append_nil _, (List.cons.inj hcs).2.symm⟩
    | cons d cs =>
      rw [(List.cons.inj hcs).2] at hq
      exact absurd (by simp) hq

theorem ModuleSet.toList_fileMark (x : Module) (path : String) :
    (fileMark x path).toList = x.identity.toList ++ '\x00' :: path.toList := by
  simp only [fileMark, String.toList_append, List.append_assoc]
  rfl

/-- Different files have different marks, as long as their paths hold no NUL character. -/
theorem ModuleSet.fileMark_inj {x y : Module} {path path' : String}
    (hp : '\x00' ∉ path.toList) (hp' : '\x00' ∉ path'.toList)
    (h : fileMark x path = fileMark y path') : x.identity = y.identity ∧ path = path' := by
  have chars := congrArg String.toList h
  rw [toList_fileMark, toList_fileMark] at chars
  obtain ⟨identity, path⟩ := append_cons_inj hp hp' chars
  exact ⟨String.toList_injective identity, String.toList_injective path⟩

/-- Whether Protobuf files of a set that share a mark import the same. -/
def ModuleSet.HasTrueMarks (s : ModuleSet) (disk : Disk) : Prop :=
  ∀ x ∈ s.modules, ∀ path, x.HasProtoOn disk path → ∀ y ∈ s.modules, ∀ path',
    y.HasProtoOn disk path' → fileMark x path = fileMark y path' →
      s.importsOn disk x path = s.importsOn disk y path'

theorem ModuleSet.HasPlainPaths.hasTrueMarks {s : ModuleSet} {disk : Disk}
    (h : s.HasPlainPaths disk) : s.HasTrueMarks disk := by
  intro x hx path hp y hy path' hp' same
  obtain ⟨identity, rfl⟩ := fileMark_inj (h x hx path hp) (h y hy path' hp') same
  rw [eq_of_identity hx hy identity]

/-- In a set where files with the same mark import the same, what is read for a mark is what the file
with that mark imports. -/
theorem IsRead.eq_importsOn {disk : Disk} {sets : List ModuleSet} (h : SetsInOrder disk loads sets)
    {s : ModuleSet} (hs : s ∈ sets) (marks : s.HasTrueMarks disk) {x : Module}
    (hx : x ∈ s.modules) {path : String} (hp : x.HasProtoOn disk path)
    {a : Except Error (List String)}
    (ha : IsRead disk sets (.imports s.number (ModuleSet.fileMark x path)) a) :
    a = s.importsOn disk x path := by
  obtain ⟨t, ht, same, y, hy, -, path', hp', mark, rfl⟩ := ha
  obtain rfl := h.eq_of_number ht hs same
  exact marks y hy path' hp' x hx path hp mark

namespace Session

/-- What a session keeps of the imports of a file is what the file imports, in a set where files with the
same mark import the same. -/
theorem Reachable.importsKept_eq (h : Reachable loads σ) {s : ModuleSet} (hs : s ∈ σ.sets)
    (marks : s.HasTrueMarks σ.disk) {x : Module} (hx : x ∈ s.modules) (hl : x.IsLoadable σ.disk)
    {path : String} (hp : x.HasProtoOn σ.disk path) :
    σ.importsKept s.number (ModuleSet.fileMark x path) = s.importsOn σ.disk x path := by
  have read : IsRead σ.disk σ.sets (.imports s.number (ModuleSet.fileMark x path))
      (σ.importsKept s.number (ModuleSet.fileMark x path)) := by
    unfold importsKept
    split
    · next a ha => exact (h.describes h.fits_world).read _ a ha
    · have some : ∃ a, IsRead σ.disk σ.sets (.imports s.number (ModuleSet.fileMark x path)) a :=
        ⟨_, s, hs, rfl, x, hx, hl, path, hp, rfl, rfl⟩
      rw [dif_pos some]
      exact some.choose_spec
  exact read.eq_importsOn h.setsInOrder hs marks hx hp

/-- The world of a session gives the true imports of the files of a set without NUL characters in
paths. -/
theorem Reachable.readsImports_world (h : Reachable loads σ) {s : ModuleSet} (hs : s ∈ σ.sets)
    (hl : s.IsLoadable σ.disk) (hplain : s.HasPlainPaths σ.disk) :
    s.ReadsImports (σ.world loads).io σ.disk :=
  fun x hx _ hp => h.importsKept_eq hs hplain.hasTrueMarks hx (hl x hx) hp

/-- The world that looks everything up anew. -/
def directWorld (σ : Session) (loads : Nat → Except Error Digest) : World where
  io := .direct σ.disk σ.sets
  disk := σ.disk
  sets := σ.sets
  made := σ.sets.length
  loads := loads

theorem Reachable.fits_directWorld (h : Reachable loads σ)
    (marks : ∀ s ∈ σ.sets, s.HasTrueMarks σ.disk) :
    (σ.directWorld loads).Fits loads σ where
  sound := ⟨Access.isPlain_direct _ _, h.setsInOrder⟩
  disk := rfl
  sets := (List.take_length).symm
  loads_eq := rfl
  allows := by
    rintro number mark a ha b ⟨s, hs, rfl, x, hx, hl, path, hp, rfl, rfl⟩
    have read := (h.describes h.fits_world).read _ a ha
    rw [read.eq_importsOn h.setsInOrder hs (marks s hs) hx hp]
    exact (ModuleSet.readImports_eq (Access.isPlain_direct σ.disk σ.sets) hl hp).symm

theorem directWorld_after {α : Type} (x : SessionM α) [hc : Cumulative x] :
    (σ.after x).directWorld loads = σ.directWorld loads := by
  have disk : (σ.after x).disk = σ.disk := (hc.before σ).disk
  have sets : (σ.after x).sets = σ.sets := hc.sets_eq σ
  rw [directWorld, directWorld, disk, sets]

/-- Where files with the same mark import the same, a question has the outcome of looking everything up
anew. -/
theorem Reachable.follows_directWorld_of_marks (h : Reachable loads σ)
    (marks : ∀ s ∈ σ.sets, s.HasTrueMarks σ.disk) {α : Type} {x : SessionM α}
    (hx : Query σ.disk loads σ.sets x) {y : Except Error α}
    (hy : Follows (σ.directWorld loads) [] x y) :
    (σ.directWorld loads).Describes [] (σ.after x) ∧ σ.outcome x = y := by
  have cumulative := hx.cumulative
  rw [← (cumulative.before σ).disk, ← cumulative.sets_eq σ] at marks
  have fits := (h.query hx).fits_directWorld marks
  rw [directWorld_after] at fits
  exact h.follows fits hy

/-- Where no path holds a NUL character, a question has the outcome of looking everything up anew. -/
theorem Reachable.follows_directWorld (h : Reachable loads σ)
    (hplain : ∀ s ∈ σ.sets, s.HasPlainPaths σ.disk) {α : Type} {x : SessionM α}
    (hx : Query σ.disk loads σ.sets x) {y : Except Error α}
    (hy : Follows (σ.directWorld loads) [] x y) :
    (σ.directWorld loads).Describes [] (σ.after x) ∧ σ.outcome x = y :=
  h.follows_directWorld_of_marks (fun s hs => (hplain s hs).hasTrueMarks) hx hy

end Session

end ProtoWorkspace
