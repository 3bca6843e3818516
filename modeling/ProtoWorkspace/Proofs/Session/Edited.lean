import Mathlib
import ProtoWorkspace.Proofs.ModuleSet.Versions
import ProtoWorkspace.Proofs.Session.Cycles
import ProtoWorkspace.Proofs.Session.Operations

/-!
# Digests of two versions in sessions

Two sessions, in which anything may have been asked before, with sets of local modules that differ in
the bytes of one file. Unless two of the streams under their digests collide, the digests differ that
cover the file, and only those.
-/

namespace ProtoWorkspace

theorem Access.sees_direct {s : ModuleSet} {disk : Disk} (hl : s.IsLoadable disk)
    (sets : List ModuleSet) : (Access.direct disk sets).Sees s disk sets where
  plain := Access.isPlain_direct disk sets
  loadable := hl
  reads := ModuleSet.readsImports_direct hl

theorem ModuleSet.Agrees.hasPlainPaths {s s' : ModuleSet} {disk disk' : Disk}
    (h : s.Agrees s' disk disk') (hs : s.HasPlainPaths disk) : s'.HasPlainPaths disk' := by
  intro x' hx' path hp
  obtain ⟨x, hx, alike⟩ := h.left x' hx'
  exact hs x hx path ((alike.hasProto path).2 hp)

namespace Session

variable {loads : Nat → Except Error Digest} {σ : Session} {s : ModuleSet} {x y : Module}

section Direct

variable (h : Reachable loads σ) (hs : s ∈ σ.sets)
variable (hl : s.IsLoadable σ.disk) (hplain : s.HasPlainPaths σ.disk)

include h hs hl hplain

/-- In a set without NUL characters in paths, an operation has the outcome of a way that sees it. -/
theorem Reachable.exists_seen_run (op : Operation) (hop : op.IsOn s) :
    ∃ io : Access (Except Error), io.Sees s σ.disk σ.sets ∧
      σ.outcome (op.run s access) = op.run s io := by
  obtain ⟨io, plain, reads, outcome⟩ := h.exists_plain_run hs op hop
  exact ⟨io, ⟨plain, hl, reads hl hplain⟩, outcome⟩

/-- In a set without NUL characters in paths, dependencies are those of looking everything up anew. -/
theorem Reachable.outcome_dependencies_eq_ok (hx : x ∈ s.modules) {ds : List Dependency} :
    σ.outcome (s.dependencies access x) = .ok ds ↔
      s.dependencies (.direct σ.disk σ.sets) x = .ok ds := by
  obtain ⟨io, seen, outcome⟩ := h.exists_seen_run hs hl hplain (.dependencies x) hx
  have direct := Access.sees_direct hl σ.sets
  rw [show σ.outcome (s.dependencies access x) = s.dependencies io x from outcome]
  constructor
  · exact ModuleSet.dependencies_eq_of_sees seen direct hx
  · exact ModuleSet.dependencies_eq_of_sees direct seen hx

theorem Reachable.hasDependency_iff_direct (hx : x ∈ s.modules) :
    σ.HasDependency s x y ↔ s.HasDependency (.direct σ.disk σ.sets) x y := by
  apply exists_congr
  intro ds
  rw [h.outcome_dependencies_eq_ok hs hl hplain hx]

/-- In a set of local modules without NUL characters in paths, digests are those of looking everything
up anew. -/
theorem Reachable.outcome_digest_eq_ok (hlocal : ∀ y ∈ s.modules, y.isLocal = true)
    (hx : x ∈ s.modules) {type : DigestType} {g : Digest} :
    σ.outcome (s.digest access x type) = .ok g ↔
      s.digest (.direct σ.disk σ.sets) x type = .ok g := by
  obtain ⟨io, seen, outcome⟩ := h.exists_seen_run hs hl hplain (.digest x type) hx
  have direct := Access.sees_direct hl σ.sets
  rw [show σ.outcome (s.digest access x type) = s.digest io x type from outcome]
  constructor
  · exact ModuleSet.digest_eq_of_sees seen direct hlocal hx
  · exact ModuleSet.digest_eq_of_sees direct seen hlocal hx

/-- In a set of local modules without NUL characters in paths, digests are computed from what they are
computed from when everything is looked up anew. -/
theorem Reachable.isStream_iff_direct (hlocal : ∀ y ∈ s.modules, y.isLocal = true)
    (hx : x ∈ s.modules) {type : DigestType} {stream : List UInt8} :
    s.IsStream access σ.outcome x type stream ↔
      s.IsStream (.direct σ.disk σ.sets) id x type stream := by
  have direct := Access.isPlain_direct σ.disk σ.sets
  have contents : σ.outcome (x.contents access) = x.contents (.direct σ.disk σ.sets) :=
    (h.outcome_contentsOn hs hx).trans (direct.contents_eq x).symm
  cases type with
  | b4 =>
    have yaml : σ.outcome (x.yaml access) = x.yaml (.direct σ.disk σ.sets) :=
      h.outcome_run_of_plain hs (.yaml x) hx fun io plain =>
        (plain.yaml_eq x).trans (direct.yaml_eq x).symm
    have lock : σ.outcome (x.lock access) = x.lock (.direct σ.disk σ.sets) :=
      h.outcome_run_of_plain hs (.lock x) hx fun io plain =>
        (plain.lock_eq x).trans (direct.lock_eq x).symm
    rw [ModuleSet.IsStream, ModuleSet.IsStream, contents, yaml, lock]
    rfl
  | b5 =>
    rw [ModuleSet.IsStream, ModuleSet.IsStream, contents]
    refine exists_congr fun files => exists_congr fun ds => exists_congr fun digests =>
      and_congr_right fun _ => ?_
    rw [h.outcome_dependencies_eq_ok hs hl hplain hx]
    refine and_congr_right fun hds => and_congr_left fun _ => ?_
    have digest : ∀ d ∈ ds, ∀ g, σ.outcome (s.digest access d.module .b5) = .ok g ↔
        s.digest (.direct σ.disk σ.sets) d.module .b5 = .ok g := by
      intro d hd g
      have hdmem := ModuleSet.mem_modules_of_mem_dependencies direct hx hds hd
      exact h.outcome_digest_eq_ok hs hl hplain hlocal hdmem
    exact Fallible.forall₂_congr_of_mem digest

end Direct

/-- Files that a digest in a session covers can be listed. -/
theorem Reachable.isLoadable_of_digest (h : Reachable loads σ) (hs : s ∈ σ.sets)
    (succeeds : ∀ y ∈ s.modules, Succeeds (σ.outcome (s.digest access y .b4))) :
    s.IsLoadable σ.disk := by
  intro y hy
  obtain ⟨g, hg⟩ := succeeds y hy
  obtain ⟨io, plain, -, outcome⟩ := h.exists_plain_run hs (.digest y .b4) hy
  have found : s.digest io y .b4 = .ok g := outcome.symm.trans hg
  obtain ⟨-, -, files, -, -, hfiles, -⟩ := (ModuleSet.digest_b4_eq_ok plain).1 found
  rw [plain.contents_eq] at hfiles
  obtain ⟨entries, hentries, -⟩ := Fallible.bind_eq_ok.1 hfiles
  exact Module.succeeds_indexOn.1 ⟨entries, hentries⟩

end Session

namespace Sample

/-! The two modules of the sample, with any bytes in the file of the second. -/

def secondAddition (data : ByteArray) : Addition :=
  .ofLocal (.memory ⟨[("b.proto", data)]⟩) "b" { name := second.name }

def additionsWith (data : ByteArray) : List Addition :=
  [addition "a" isValid_a, secondAddition data]

def secondWith (data : ByteArray) : Module :=
  { second with inputs := (secondAddition data).inputs }

def setWith (data : ByteArray) : ModuleSet :=
  ⟨0, parser, [first, secondWith data], set.nodup_identity, set.nodup_bucketId⟩

def sessionWith (data : ByteArray) : Session :=
  ({} : Session).after (Session.build parser (additionsWith data))

def firstStream (data : ByteArray) : DigestType → List UInt8
  | .b4 => Digest.b4Stream [("a.proto", ⟨#[]⟩)] none none
  | .b5 => Digest.b5Stream [("a.proto", ⟨#[]⟩)]
      [.ofStream .b5 (Digest.b5Stream [("b.proto", data)] [])]

def secondStream (data : ByteArray) : DigestType → List UInt8
  | .b4 => Digest.b4Stream [("b.proto", data)] none none
  | .b5 => Digest.b5Stream [("b.proto", data)] []

section

variable (data : ByteArray)

theorem build_additionsWith : ModuleSet.build 0 parser (additionsWith data) = .ok (setWith data) :=
  rfl

theorem isLocal_additionsWith : ∀ a ∈ additionsWith data, a.isLocal = true := by
  intro a ha
  simp only [additionsWith, List.mem_cons, List.not_mem_nil, or_false] at ha
  rcases ha with rfl | rfl <;> rfl

theorem setWith_mem_sets : setWith data ∈ (sessionWith data).sets :=
  List.mem_singleton.2 rfl

theorem mem_modules_setWith {x : Module} :
    x ∈ (setWith data).modules ↔ x = first ∨ x = secondWith data := by
  simp [setWith]

theorem reachable_sessionWith : Session.Reachable loads (sessionWith data) := by
  refine ⟨{}, .single (.build _ _ _ fun a ha keys hkeys => ?_)⟩
  simp only [additionsWith, List.mem_cons, List.not_mem_nil, or_false] at ha
  rcases ha with rfl | rfl <;> cases hkeys

theorem isLocal_setWith : ∀ x ∈ (setWith data).modules, x.isLocal = true := by
  intro x hx
  rcases (mem_modules_setWith data).1 hx with rfl | rfl <;> rfl

theorem isLoadable_setWith (disk : Disk) : (setWith data).IsLoadable disk := by
  intro x hx
  rcases (mem_modules_setWith data).1 hx with rfl | rfl
  · exact ⟨_, rfl, rfl, "a.proto", List.mem_singleton.2 rfl, by decide⟩
  · exact ⟨_, rfl, rfl, "b.proto", List.mem_singleton.2 rfl, by decide⟩

theorem hasPlainPaths_setWith (disk : Disk) : (setWith data).HasPlainPaths disk := by
  have plain : '\x00' ∉ "b.proto".toList := by decide
  exact ModuleSet.hasPlainPaths_of_memory <| List.forall_mem_cons.2 ⟨⟨_, rfl, by decide⟩,
    List.forall_mem_singleton.2 ⟨_, rfl, List.forall_mem_singleton.2 plain⟩⟩

/-- The way that looks everything up anew in the session. -/
def directWith : Access (Except Error) :=
  .direct {} [setWith data]

theorem isPlain_directWith : (directWith data).IsPlain {} [setWith data] :=
  Access.isPlain_direct _ _

theorem dependencies_first_direct (disk : Disk) (sets : List ModuleSet) :
    set.dependencies (.direct disk sets) first = .ok [⟨second, true⟩] := by
  cbv

theorem dependencies_first_with : (setWith data).dependencies (directWith data) first =
    .ok [⟨secondWith data, true⟩] := by
  cbv

theorem dependencies_secondWith :
    (setWith data).dependencies (directWith data) (secondWith data) = .ok [] := by
  cbv

theorem contents_first_with : first.contents (directWith data) = .ok [("a.proto", ⟨#[]⟩)] := by
  cbv

theorem contents_secondWith :
    (secondWith data).contents (directWith data) = .ok [("b.proto", data)] := by
  cbv

theorem digest_secondWith (type : DigestType) :
    (setWith data).digest (directWith data) (secondWith data) type =
      .ok (.ofStream type (secondStream data type)) := by
  have plain := isPlain_directWith data
  have mem := (mem_modules_setWith data).2 (.inr rfl)
  cases type with
  | b4 =>
    exact (ModuleSet.digest_b4_eq_ok plain).2
      ⟨none, none, _, rfl, rfl, contents_secondWith data, rfl⟩
  | b5 =>
    exact (ModuleSet.digest_b5_eq_ok plain mem rfl).2
      ⟨[], [], _, dependencies_secondWith data, by simp, .nil, contents_secondWith data, rfl⟩

theorem digest_first_with (type : DigestType) :
    (setWith data).digest (directWith data) first type =
      .ok (.ofStream type (firstStream data type)) := by
  have plain := isPlain_directWith data
  have mem := (mem_modules_setWith data).2 (.inl rfl)
  cases type with
  | b4 =>
    exact (ModuleSet.digest_b4_eq_ok plain).2
      ⟨none, none, _, rfl, rfl, contents_first_with data, rfl⟩
  | b5 =>
    refine (ModuleSet.digest_b5_eq_ok plain mem rfl).2 ⟨_, _, _, dependencies_first_with data, ?_,
      .cons (digest_secondWith data .b5) .nil, contents_first_with data, rfl⟩
    intro d hd _ back
    rw [List.mem_singleton.1 hd] at back
    obtain ⟨e, he, -⟩ := back.exists_mem (dependencies_secondWith data)
    cases he

variable {data}

theorem outcome_digest_with {x : Module} (hx : x ∈ (setWith data).modules) {type : DigestType}
    {g : Digest} : (sessionWith data).outcome ((setWith data).digest Session.access x type) = .ok g ↔
      (setWith data).digest (directWith data) x type = .ok g :=
  (reachable_sessionWith data).outcome_digest_eq_ok (setWith_mem_sets data)
    (isLoadable_setWith data _) (hasPlainPaths_setWith data _) (isLocal_setWith data) hx

theorem succeeds_digest_with : ∀ x ∈ (setWith data).modules, ∀ type,
    Succeeds ((sessionWith data).outcome ((setWith data).digest Session.access x type)) := by
  intro x hx type
  rcases (mem_modules_setWith data).1 hx with rfl | rfl
  · exact ⟨_, (outcome_digest_with hx).2 (digest_first_with data type)⟩
  · exact ⟨_, (outcome_digest_with hx).2 (digest_secondWith data type)⟩

theorem isStream_iff_with {x : Module} (hx : x ∈ (setWith data).modules) {type : DigestType}
    {stream : List UInt8} :
    (setWith data).IsStream Session.access (sessionWith data).outcome x type stream ↔
      (setWith data).IsStream (directWith data) id x type stream :=
  (reachable_sessionWith data).isStream_iff_direct (setWith_mem_sets data)
    (isLoadable_setWith data _) (hasPlainPaths_setWith data _) (isLocal_setWith data) hx

theorem eq_firstStream {type : DigestType} {stream : List UInt8}
    (h : (setWith data).IsStream Session.access (sessionWith data).outcome first type stream) :
    stream = firstStream data type := by
  rw [isStream_iff_with ((mem_modules_setWith data).2 (.inl rfl))] at h
  refine h.unique ?_
  cases type with
  | b4 => exact ⟨_, none, none, contents_first_with data, rfl, rfl, rfl⟩
  | b5 =>
    exact ⟨_, _, _, contents_first_with data, dependencies_first_with data,
      .cons (digest_secondWith data .b5) .nil, rfl⟩

theorem eq_secondStream {type : DigestType} {stream : List UInt8}
    (h : (setWith data).IsStream Session.access (sessionWith data).outcome (secondWith data) type
      stream) : stream = secondStream data type := by
  rw [isStream_iff_with ((mem_modules_setWith data).2 (.inr rfl))] at h
  refine h.unique ?_
  cases type with
  | b4 => exact ⟨_, none, none, contents_secondWith data, rfl, rfl, rfl⟩
  | b5 => exact ⟨_, _, [], contents_secondWith data, dependencies_secondWith data, .nil, rfl⟩

theorem hasDependency_first_with :
    (sessionWith data).HasDependency (setWith data) first (secondWith data) := by
  have mem := (mem_modules_setWith data).2 (.inl rfl)
  rw [(reachable_sessionWith data).hasDependency_iff_direct (setWith_mem_sets data)
    (isLoadable_setWith data _) (hasPlainPaths_setWith data _) mem]
  exact ModuleSet.hasDependency_of_mem (dependencies_first_with data) (List.mem_singleton.2 rfl)

end

/-! Two versions of the file. -/

def oldData : ByteArray := ⟨#[]⟩

def newData : ByteArray := ⟨#[1]⟩

theorem differInOne_additions (disk disk' : Disk) : Addition.DifferInOne disk disk' parser "b.proto"
    (secondAddition oldData) (additionsWith oldData) (additionsWith newData) := by
  have copy : Addition.IsCopy disk disk' (addition "a" isValid_a) (addition "a" isValid_a) :=
    ⟨⟨rfl, rfl, rfl, rfl⟩, fun _ _ => rfl⟩
  have listed : ∀ path, (secondAddition oldData).inputs.Lists disk path ↔ path = "b.proto" := by
    intro path
    constructor
    · rintro ⟨_, ⟨⟩, hpath⟩
      exact List.mem_singleton.1 hpath
    · rintro rfl
      exact ⟨_, rfl, List.mem_singleton.2 rfl⟩
  have edit : Addition.IsEdit disk disk' parser "b.proto" (secondAddition oldData)
      (secondAddition newData) := by
    refine ⟨⟨rfl, rfl, rfl, rfl⟩, (listed _).2 rfl, by decide,
      ⟨oldData, newData, rfl, rfl, by decide, fun _ => rfl⟩, ?_⟩
    intro other hne hlisted
    exact absurd ((listed other).1 hlisted) hne
  exact .edited (.cons copy .nil) edit .nil

/-- The streams under the digests of the two versions do not collide. -/
theorem hash_firstStream_ne : Shake256.hash 64 (firstStream oldData .b5) ≠
    Shake256.hash 64 (firstStream newData .b5) := by
  decide +kernel

theorem hash_secondStream_ne (type : DigestType) : Shake256.hash 64 (secondStream oldData type) ≠
    Shake256.hash 64 (secondStream newData type) := by
  cases type <;> decide +kernel

theorem collisionFree_with : (setWith oldData).CollisionFree (setWith newData) Session.access
    Session.access (sessionWith oldData).outcome (sessionWith newData).outcome := by
  intro y hy y' hy' same type stream stream' hu hu' equal
  rcases (mem_modules_setWith _).1 hy with rfl | rfl
  · rcases (mem_modules_setWith _).1 hy' with rfl | rfl
    · rw [eq_firstStream hu, eq_firstStream hu'] at equal ⊢
      cases type with
      | b4 => rfl
      | b5 => exact absurd equal hash_firstStream_ne
    · exact absurd same (by decide)
  · rcases (mem_modules_setWith _).1 hy' with rfl | rfl
    · exact absurd same (by decide)
    · rw [eq_secondStream hu, eq_secondStream hu'] at equal
      exact absurd equal (hash_secondStream_ne type)

end Sample

variable {loads loads' : Nat → Except Error Digest} {σ σ' : Session} {s s' : ModuleSet}

/-- Two sets are built of local additions that differ in the bytes of one module file, with the same
imports, and all digests are found. If no two different streams under digests of corresponding
modules have the same hash, the `b5` digests of the module with the file and of the modules that depend
on it differ, and no other ones; the `b4` digest of that module differs, and no other one. No path in
the sets holds a NUL character. -/
theorem Session.Reachable.digest_ne_iff (h : Session.Reachable loads σ)
    (h' : Session.Reachable loads' σ') (hs : s ∈ σ.sets) (hs' : s' ∈ σ'.sets)
    {parser : ImportParser} {path : String} {a : Addition} {additions additions' : List Addition}
    (versions : Addition.DifferInOne σ.disk σ'.disk parser path a additions additions')
    (hl : ∀ b ∈ additions, b.isLocal = true)
    (built : ModuleSet.build s.number parser additions = .ok s)
    (built' : ModuleSet.build s'.number parser additions' = .ok s')
    (hplain : s.HasPlainPaths σ.disk)
    (succeeds : ∀ y ∈ s.modules, ∀ type,
      Succeeds (σ.outcome (s.digest Session.access y type)))
    (succeeds' : ∀ y' ∈ s'.modules, ∀ type,
      Succeeds (σ'.outcome (s'.digest Session.access y' type)))
    (apart : s.CollisionFree s' Session.access Session.access σ.outcome σ'.outcome)
    {x : Module} (hx : x ∈ s.modules) (hxa : x.identity = a.identity) :
    s.identities = s'.identities ∧
      ∀ y ∈ s.modules, ∀ y' ∈ s'.modules, y.identity = y'.identity →
        (σ.outcome (s.digest Session.access y .b5) ≠ σ'.outcome (s'.digest Session.access y' .b5) ↔
          y = x ∨ σ.HasDependency s y x) ∧
        (σ.outcome (s.digest Session.access y .b4) ≠ σ'.outcome (s'.digest Session.access y' .b4) ↔
          y = x) := by
  obtain ⟨identities, x', edits⟩ := ModuleSet.edits_of_build versions hl built built' hx hxa
  have hplain' := edits.agrees.hasPlainPaths hplain
  have loadable := h.isLoadable_of_digest hs fun y hy => succeeds y hy .b4
  have loadable' := h'.isLoadable_of_digest hs' fun y hy => succeeds' y hy .b4
  have seen := Access.sees_direct loadable σ.sets
  have seen' := Access.sees_direct loadable' σ'.sets
  have apart' : s.CollisionFree s' (.direct σ.disk σ.sets) (.direct σ'.disk σ'.sets) id id := by
    intro y hy y' hy' same type stream stream' hu hu'
    apply apart y hy y' hy' same type
    · exact (h.isStream_iff_direct hs loadable hplain edits.isLocal hy).2 hu
    · exact (h'.isStream_iff_direct hs' loadable' hplain' edits.isLocal' hy').2 hu'
  refine ⟨identities, fun y hy y' hy' same => ⟨?_, ?_⟩⟩
  · obtain ⟨g, hg⟩ := succeeds y hy .b5
    obtain ⟨g', hg'⟩ := succeeds' y' hy' .b5
    rw [hg, hg', Ne, Except.ok.injEq, h.hasDependency_iff_direct hs loadable hplain hy]
    rw [h.outcome_digest_eq_ok hs loadable hplain edits.isLocal hy] at hg
    rw [h'.outcome_digest_eq_ok hs' loadable' hplain' edits.isLocal' hy'] at hg'
    exact edits.digest_b5_ne_iff seen seen' hy hy' same apart' hg hg'
  · obtain ⟨g, hg⟩ := succeeds y hy .b4
    obtain ⟨g', hg'⟩ := succeeds' y' hy' .b4
    rw [hg, hg', Ne, Except.ok.injEq]
    rw [h.outcome_digest_eq_ok hs loadable hplain edits.isLocal hy] at hg
    rw [h'.outcome_digest_eq_ok hs' loadable' hplain' edits.isLocal' hy'] at hg'
    exact edits.digest_b4_ne_iff seen seen' hy hy' same apart' hg hg'

/-- In the sample, other bytes in the file of the second module give another `b5` digest but the same
`b4` digest for the first module, which imports it. -/
theorem Sample.digest_first_ne_of_second :
    (sessionWith oldData).outcome ((setWith oldData).digest Session.access first .b5) ≠
        (sessionWith newData).outcome ((setWith newData).digest Session.access first .b5) ∧
      (sessionWith oldData).outcome ((setWith oldData).digest Session.access first .b4) =
        (sessionWith newData).outcome ((setWith newData).digest Session.access first .b4) := by
  have first_mem := fun data => (mem_modules_setWith data).2 (.inl rfl)
  have second_mem := (mem_modules_setWith oldData).2 (.inr rfl)
  obtain ⟨-, iffs⟩ := (reachable_sessionWith oldData).digest_ne_iff
    (reachable_sessionWith newData) (setWith_mem_sets oldData) (setWith_mem_sets newData)
    (differInOne_additions _ _) (isLocal_additionsWith oldData) (build_additionsWith oldData)
    (build_additionsWith newData) (hasPlainPaths_setWith oldData _) succeeds_digest_with
    succeeds_digest_with collisionFree_with second_mem rfl
  obtain ⟨b5, b4⟩ := iffs first (first_mem oldData) first (first_mem newData) rfl
  refine ⟨b5.2 (.inr hasDependency_first_with), ?_⟩
  by_contra differ
  exact absurd (congrArg Module.bucketId (b4.1 differ)) (by decide)

end ProtoWorkspace
