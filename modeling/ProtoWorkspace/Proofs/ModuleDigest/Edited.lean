import ProtoWorkspace.Proofs.Access.Table
import ProtoWorkspace.Proofs.Dependencies.Mirrored
import ProtoWorkspace.Proofs.Digest.Unambiguous
import ProtoWorkspace.Proofs.ModuleDigest.Matched

/-!
# Digests after an edit

Two sets of local modules, perhaps on two disks, with the same imports. The digest of a module is the
same in both when its files and those of all its dependencies are. When one file of one module has
other bytes, what the digest of the module is computed from changes. As the `b5` digest of a module
covers those of all its dependencies, not only of the direct ones, a changed digest changes at once
what the digests of all dependent modules are computed from.
-/

namespace ProtoWorkspace

namespace Digest

/-- Whether two rows of files differ, namely in the bytes of one file. -/
def DifferInOne (files files' : List (String × ByteArray)) : Prop :=
  ∃ before path data data' after, data ≠ data' ∧
    files = before ++ (path, data) :: after ∧ files' = before ++ (path, data') :: after

variable {files files' : List (String × ByteArray)} {digests digests' : List Digest}

theorem counted_injective : Function.Injective counted := by
  intro a b h
  have parts := List.append_inj h (by rw [length_countBytes, length_countBytes])
  exact parts.2

theorem DifferInOne.filesBytes_ne (h : DifferInOne files files') :
    filesBytes files ≠ filesBytes files' := by
  obtain ⟨before, path, data, data', after, hne, rfl, rfl⟩ := h
  intro same
  have inner : counted data.data.toList = counted data'.data.toList := by
    simpa [filesBytes, fileBytes] using same
  apply hne
  exact ByteArray.ext (Array.toList_inj.1 (counted_injective inner))

theorem DifferInOne.b4Stream_ne (h : DifferInOne files files') (yaml lock : Option ObjectData) :
    b4Stream files yaml lock ≠ b4Stream files' yaml lock := by
  intro same
  apply h.filesBytes_ne
  simpa [b4Stream] using same

theorem length_dependencyBytes (d : Digest) : (dependencyBytes d).length = 82 := by
  have mark : (typeMark d.type).length = 10 := by
    cases d.type <;> rfl
  simp [dependencyBytes, mark, counted, length_countBytes, d.length_value]

/-- Other bytes in a file are not made up for by the digests of as many dependencies. -/
theorem DifferInOne.b5Stream_ne (h : DifferInOne files files')
    (lengths : digests.length = digests'.length) :
    b5Stream files digests ≠ b5Stream files' digests' := by
  intro same
  have sizes : (digests.flatMap dependencyBytes).length =
      (digests'.flatMap dependencyBytes).length := by
    simp [List.length_flatMap, length_dependencyBytes, lengths]
  obtain ⟨heads, -⟩ := List.append_inj' same sizes
  obtain ⟨heads, -⟩ := List.append_inj' heads (by rw [length_countBytes, length_countBytes])
  exact h.filesBytes_ne (List.append_cancel_left heads)

theorem b5Stream_digests_injective (lengths : digests.length = digests'.length)
    (h : b5Stream files digests = b5Stream files digests') : digests = digests' := by
  rw [b5Stream, b5Stream, lengths] at h
  have tails := List.append_cancel_left h
  rw [← List.append_nil (digests.flatMap _), ← List.append_nil (digests'.flatMap _)] at tails
  exact (delimited_dependency.flatMap (by simp) (by simp) lengths tails).1

end Digest

namespace ModuleSet

/-- Whether the digest of a local module is computed from the given bytes, where `outcome` tells what
comes of a question. -/
def IsStream {m : Type → Type} [Monad m] [MonadExcept Error m] (s : ModuleSet) (io : Access m)
    (outcome : {α : Type} → m α → Except Error α) (x : Module) :
    DigestType → List UInt8 → Prop
  | .b4, stream => ∃ files yaml lock, outcome (x.contents io) = .ok files ∧
      outcome (x.yaml io) = .ok yaml ∧ outcome (x.lock io) = .ok lock ∧
      stream = Digest.b4Stream files yaml lock
  | .b5, stream => ∃ files ds digests, outcome (x.contents io) = .ok files ∧
      outcome (s.dependencies io x) = .ok ds ∧
      List.Forall₂ (fun d g => outcome (s.digest io d.module .b5) = .ok g) ds digests ∧
      stream = Digest.b5Stream files digests

/-- Whether no two different streams under digests of modules with one identity have the same hash. -/
def CollisionFree {m : Type → Type} [Monad m] [MonadExcept Error m] (s s' : ModuleSet)
    (io io' : Access m) (outcome outcome' : {α : Type} → m α → Except Error α) : Prop :=
  ∀ y ∈ s.modules, ∀ y' ∈ s'.modules, y.identity = y'.identity → ∀ type stream stream',
    s.IsStream io outcome y type stream → s'.IsStream io' outcome' y' type stream' →
      Shake256.hash 64 stream = Shake256.hash 64 stream' → stream = stream'

/-- A digest is computed from one row of bytes only. -/
theorem IsStream.unique {m : Type → Type} [Monad m] [MonadExcept Error m] {s : ModuleSet}
    {io : Access m} {outcome : {α : Type} → m α → Except Error α} {x : Module} {type : DigestType}
    {stream stream' : List UInt8} (h : s.IsStream io outcome x type stream)
    (h' : s.IsStream io outcome x type stream') : stream = stream' := by
  cases type with
  | b4 =>
    obtain ⟨files, yaml, lock, hfiles, hyaml, hlock, rfl⟩ := h
    obtain ⟨files', yaml', lock', hfiles', hyaml', hlock', rfl⟩ := h'
    cases hfiles.symm.trans hfiles'
    cases hyaml.symm.trans hyaml'
    cases hlock.symm.trans hlock'
    rfl
  | b5 =>
    obtain ⟨files, ds, digests, hfiles, hds, hdigests, rfl⟩ := h
    obtain ⟨files', ds', digests', hfiles', hds', hdigests', rfl⟩ := h'
    cases hfiles.symm.trans hfiles'
    cases hds.symm.trans hds'
    have equal : List.Forall₂ (· = ·) digests digests' :=
      Fallible.forall₂_of_common hdigests hdigests' fun d _ g _ g' hg hg' =>
        Except.ok.inj (hg.symm.trans hg')
    rw [List.forall₂_eq_eq_eq] at equal
    rw [equal]

section Plain

variable {s : ModuleSet} {io : Access (Except Error)} {disk : Disk} {sets : List ModuleSet}
variable {x y : Module} {g : Digest}

theorem exists_isStream (h : io.IsPlain disk sets) (hx : x ∈ s.modules) (hl : x.isLocal = true)
    {type : DigestType} (hg : s.digest io x type = .ok g) :
    ∃ stream, s.IsStream io id x type stream ∧ g = .ofStream type stream := by
  cases type with
  | b4 =>
    obtain ⟨yaml, lock, files, hyaml, hlock, hfiles, rfl⟩ := (digest_b4_eq_ok h).1 hg
    exact ⟨_, ⟨files, yaml, lock, hfiles, hyaml, hlock, rfl⟩, rfl⟩
  | b5 =>
    obtain ⟨ds, digests, files, hds, -, hdigests, hfiles, rfl⟩ :=
      (digest_b5_eq_ok h hx hl).1 hg
    exact ⟨_, ⟨files, ds, digests, hfiles, hds, hdigests, rfl⟩, rfl⟩

end Plain

/-! ## Two sets -/

variable {s s' : ModuleSet} {disk disk' : Disk} {x x' y y' : Module}

/-- Whether two sets of local modules are the same but for the bytes of one file of one module. -/
structure Edits (s s' : ModuleSet) (disk disk' : Disk) (x x' : Module) : Prop where
  agrees : s.Agrees s' disk disk'
  isLocal : ∀ y ∈ s.modules, y.isLocal = true
  isLocal' : ∀ y' ∈ s'.modules, y'.isLocal = true
  mem : x ∈ s.modules
  mem' : x' ∈ s'.modules
  identity : x.identity = x'.identity
  yaml : ∀ y ∈ s.modules, ∀ y' ∈ s'.modules, y.identity = y'.identity →
    y.inputs.yaml.on disk = y'.inputs.yaml.on disk'
  lock : ∀ y ∈ s.modules, ∀ y' ∈ s'.modules, y.identity = y'.identity →
    y.inputs.lock.on disk = y'.inputs.lock.on disk'
  kept : ∀ y ∈ s.modules, ∀ y' ∈ s'.modules, y.identity = y'.identity → y ≠ x →
    y.contentsOn disk = y'.contentsOn disk'
  edited : ∀ files files', x.contentsOn disk = .ok files → x'.contentsOn disk' = .ok files' →
    Digest.DifferInOne files files'

section Seen

variable {io io' : Access (Except Error)} {sets sets' : List ModuleSet}
variable (v : io.Sees s disk sets) (v' : io'.Sees s' disk' sets')

include v v'

/-- A digest stays the same when the files of the module and of all its dependencies do. -/
theorem Agrees.digest_b5_eq_ok (h : s.Agrees s' disk disk') (hl : ∀ y ∈ s.modules, y.isLocal = true)
    (hl' : ∀ y' ∈ s'.modules, y'.isLocal = true) (hx : x ∈ s.modules) (hx' : x' ∈ s'.modules)
    (same : x.identity = x'.identity)
    (kept : ∀ y ∈ s.modules, ∀ y' ∈ s'.modules, y.identity = y'.identity →
      y = x ∨ s.HasDependency io x y → y.contentsOn disk = y'.contentsOn disk')
    {g : Digest} (hg : s.digest io x .b5 = .ok g) : s'.digest io' x' .b5 = .ok g := by
  refine (h.isMatched v v' hx).digest_b5_eq_ok v.plain v'.plain hx hx' same ?_ hg
  intro y hy y' hy' sameY covered
  refine ⟨(hl y hy).trans (hl' y' hy').symm, ?_, fun remote => ?_⟩
  · rw [v.plain.contents_eq, v'.plain.contents_eq, kept y hy y' hy' sameY covered]
  · rw [hl y hy] at remote
    cases remote

variable (h : Edits s s' disk disk' x x')

include h

/-- What the digest of the module with the edited file is computed from changes. -/
theorem Edits.stream_ne {type : DigestType} {stream stream' : List UInt8}
    (hs : s.IsStream io id x type stream) (hs' : s'.IsStream io' id x' type stream') :
    stream ≠ stream' := by
  cases type with
  | b4 =>
    obtain ⟨files, yaml, lock, hfiles, hyaml, hlock, rfl⟩ := hs
    obtain ⟨files', yaml', lock', hfiles', hyaml', hlock', rfl⟩ := hs'
    simp only [id, v.plain.contents_eq, v.plain.yaml_eq, v.plain.lock_eq] at hfiles hyaml hlock
    simp only [id, v'.plain.contents_eq, v'.plain.yaml_eq, v'.plain.lock_eq]
      at hfiles' hyaml' hlock'
    rw [← h.yaml x h.mem x' h.mem' h.identity, hyaml] at hyaml'
    rw [← h.lock x h.mem x' h.mem' h.identity, hlock] at hlock'
    cases hyaml'
    cases hlock'
    exact (h.edited files files' hfiles hfiles').b4Stream_ne yaml lock
  | b5 =>
    obtain ⟨files, ds, digests, hfiles, hds, hdigests, rfl⟩ := hs
    obtain ⟨files', ds', digests', hfiles', hds', hdigests', rfl⟩ := hs'
    simp only [id, v.plain.contents_eq] at hfiles
    simp only [id, v'.plain.contents_eq] at hfiles'
    have identities := h.agrees.forall₂_dependencies v v' h.mem h.mem' h.identity hds hds'
    apply (h.edited files files' hfiles hfiles').b5Stream_ne
    rw [← hdigests.length_eq, identities.length_eq, hdigests'.length_eq]

variable (hy : y ∈ s.modules) (hy' : y' ∈ s'.modules) (same : y.identity = y'.identity)

include hy hy' same

theorem Edits.digest_b4_eq (hne : y ≠ x) : s.digest io y .b4 = s'.digest io' y' .b4 := by
  rw [ModuleSet.digest_b4_eq v.plain, ModuleSet.digest_b4_eq v'.plain]
  rw [v.plain.yaml_eq, v.plain.lock_eq, v.plain.contents_eq, h.yaml y hy y' hy' same,
    h.lock y hy y' hy' same, h.kept y hy y' hy' same hne]
  rw [v'.plain.yaml_eq, v'.plain.lock_eq, v'.plain.contents_eq]

theorem Edits.digest_b5_eq_ok (hne : y ≠ x) (independent : ¬ s.HasDependency io y x) {g : Digest}
    (hg : s.digest io y .b5 = .ok g) : s'.digest io' y' .b5 = .ok g := by
  refine h.agrees.digest_b5_eq_ok v v' h.isLocal h.isLocal' hy hy' same ?_ hg
  intro z hz z' hz' sameZ covered
  apply h.kept z hz z' hz' sameZ
  rintro rfl
  rcases covered with rfl | hyz
  · exact hne rfl
  · exact independent hyz

/-- What the `b5` digest of a module is computed from changes with the digest of a dependency. -/
theorem Edits.stream_ne_of_hasDependency (hyx : s.HasDependency io y x)
    (changed : ∀ g g', s.digest io x .b5 = .ok g → s'.digest io' x' .b5 = .ok g' → g ≠ g')
    {stream stream' : List UInt8} (hs : s.IsStream io id y .b5 stream)
    (hs' : s'.IsStream io' id y' .b5 stream') : stream ≠ stream' := by
  obtain ⟨files, ds, digests, hfiles, hds, hdigests, rfl⟩ := hs
  obtain ⟨files', ds', digests', hfiles', hds', hdigests', rfl⟩ := hs'
  have identities := h.agrees.forall₂_dependencies v v' hy hy' same hds hds'
  intro sameStream
  have hne : y ≠ x := (hyx.ne v.plain hy).symm
  obtain rfl : files = files' := by
    simp only [id, v.plain.contents_eq, v'.plain.contents_eq] at hfiles hfiles'
    rw [← h.kept y hy y' hy' same hne, hfiles] at hfiles'
    exact Except.ok.inj hfiles'
  obtain rfl : digests = digests' := by
    refine Digest.b5Stream_digests_injective ?_ sameStream
    rw [← hdigests.length_eq, identities.length_eq, hdigests'.length_eq]
  -- a dependency and its counterpart stand at the same place, and so do their digests
  have agree : List.Forall₂ (fun d d' => ∃ g, s.digest io d.module .b5 = .ok g ∧
      s'.digest io' d'.module .b5 = .ok g) ds ds' :=
    Fallible.forall₂_of_common hdigests.flip hdigests'.flip fun g _ d _ d' hg hg' => ⟨g, hg, hg'⟩
  obtain ⟨d, hd, rfl⟩ := hyx.exists_mem hds
  obtain ⟨d', hd', sameD, g, hg, hg'⟩ :=
    Fallible.exists_of_mem_right (Fallible.forall₂_and identities agree).flip hd
  have hdmem' := (hasDependency_of_mem hds' hd').mem_modules v'.plain hy'
  obtain rfl := eq_of_identity h.mem' hdmem' (h.identity.symm.trans sameD)
  exact changed g g hg hg' rfl

variable (apart : s.CollisionFree s' io io' id id)

include apart

omit h in
/-- Without a collision, digests that are computed from different bytes differ. -/
theorem digest_ne_of_stream_ne (hl : y.isLocal = true) (hl' : y'.isLocal = true) {type : DigestType}
    (different : ∀ stream stream', s.IsStream io id y type stream →
      s'.IsStream io' id y' type stream' → stream ≠ stream')
    {g g' : Digest} (hg : s.digest io y type = .ok g) (hg' : s'.digest io' y' type = .ok g') :
    g ≠ g' := by
  obtain ⟨stream, hs, rfl⟩ := exists_isStream v.plain hy hl hg
  obtain ⟨stream', hs', rfl⟩ := exists_isStream v'.plain hy' hl' hg'
  intro equal
  apply different stream stream' hs hs'
  exact apart y hy y' hy' same type stream stream' hs hs' (congrArg Digest.value equal)

omit hy hy' same in
theorem Edits.digest_ne {type : DigestType} {g g' : Digest} (hg : s.digest io x type = .ok g)
    (hg' : s'.digest io' x' type = .ok g') : g ≠ g' :=
  digest_ne_of_stream_ne v v' h.mem h.mem' h.identity apart (h.isLocal x h.mem)
    (h.isLocal' x' h.mem') (fun _ _ => h.stream_ne v v') hg hg'

variable {g g' : Digest}

/-- The `b4` digest of the module with the edited file differs, and no other one. -/
theorem Edits.digest_b4_ne_iff (hg : s.digest io y .b4 = .ok g)
    (hg' : s'.digest io' y' .b4 = .ok g') : g ≠ g' ↔ y = x := by
  constructor
  · intro differ
    by_contra hne
    rw [h.digest_b4_eq v v' hy hy' same hne, hg'] at hg
    exact differ (Except.ok.inj hg).symm
  · rintro rfl
    obtain rfl := eq_of_identity h.mem' hy' (h.identity.symm.trans same)
    exact h.digest_ne v v' apart hg hg'

/-- The `b5` digests of the module with the edited file and of all that depend on it differ, and no
other ones. -/
theorem Edits.digest_b5_ne_iff (hg : s.digest io y .b5 = .ok g)
    (hg' : s'.digest io' y' .b5 = .ok g') : g ≠ g' ↔ y = x ∨ s.HasDependency io y x := by
  constructor
  · intro differ
    by_contra neither
    obtain ⟨hne, independent⟩ := not_or.1 neither
    have kept := h.digest_b5_eq_ok v v' hy hy' same hne independent hg
    rw [kept] at hg'
    exact differ (Except.ok.inj hg')
  · rintro (rfl | hyx)
    · obtain rfl := eq_of_identity h.mem' hy' (h.identity.symm.trans same)
      exact h.digest_ne v v' apart hg hg'
    · have changed : ∀ g g', s.digest io x .b5 = .ok g → s'.digest io' x' .b5 = .ok g' → g ≠ g' :=
        fun _ _ => h.digest_ne v v' apart
      exact digest_ne_of_stream_ne v v' hy hy' same apart (h.isLocal y hy) (h.isLocal' y' hy')
        (fun _ _ => h.stream_ne_of_hasDependency v v' hy hy' same hyx changed) hg hg'

end Seen

/-- Two plain ways to one set of local modules give the same digests. -/
theorem digest_eq_of_sees {io io' : Access (Except Error)} {sets sets' : List ModuleSet}
    (v : io.Sees s disk sets) (v' : io'.Sees s disk sets') (hl : ∀ y ∈ s.modules, y.isLocal = true)
    (hx : x ∈ s.modules) {type : DigestType} {g : Digest} (hg : s.digest io x type = .ok g) :
    s.digest io' x type = .ok g := by
  cases type with
  | b4 =>
    rw [digest_b4_eq v.plain, v.plain.yaml_eq, v.plain.lock_eq, v.plain.contents_eq] at hg
    rw [digest_b4_eq v'.plain, v'.plain.yaml_eq, v'.plain.lock_eq, v'.plain.contents_eq, hg]
  | b5 =>
    refine (Agrees.refl s disk).digest_b5_eq_ok v v' hl hl hx hx rfl ?_ hg
    intro y hy y' hy' same _
    rw [eq_of_identity hy hy' same]

end ModuleSet

end ProtoWorkspace
