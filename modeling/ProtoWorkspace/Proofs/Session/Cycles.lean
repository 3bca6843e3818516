import Mathlib
import ProtoWorkspace.Proofs.Access.Table
import ProtoWorkspace.Proofs.ModuleDigest.Cycles
import ProtoWorkspace.Proofs.Session.Dependencies

/-!
# Cycles in a session

Whatever was asked before, looking for the `b5` digest of a local module in a session ends with the
digest, or with the report of a cycle where local modules depend on each other. No digest is looked
for again while it is being computed.
-/

namespace ProtoWorkspace

open Relation

/-- A key that was known before a set has the same digest whether a module of the set asks for it or
no other digest is being computed. -/
theorem ModuleSet.keyDigest_eq_digest {w : World} (hw : w.IsSound) {s : ModuleSet}
    {key : ModuleKey} (hk : key.IsKnown w.disk w.loads s.number) :
    s.keyDigest w.io key = key.digest w.io := by
  rw [ModuleKey.digest_eq]
  unfold ModuleSet.keyDigest ModuleKey.digestBy
  cases ho : key.origin with
  | known digest => rfl
  | supplied number load => rfl
  | ofModule number identity type =>
    have before : number < s.number := by
      simpa only [ModuleKey.IsKnown, ho] using hk
    dsimp only
    rw [hw.plain.findSet_eq]
    cases ht : w.sets.find? (·.number == number) with
    | none => rfl
    | some t =>
      obtain rfl : t.number = number := by
        simpa using List.find?_some ht
      simp only [Fallible.ok_bind, ModuleSet.earlierDigest, ModuleSet.digestOfFound]
      rw [if_pos before]
      cases hy : t.find? identity with
      | none => rfl
      | some y =>
        obtain rfl : y.identity = identity := by
          simpa using List.find?_some hy
        rfl

namespace Session

/-- Whether a session gives `y` among the dependencies of `x`. -/
def HasDependency (σ : Session) (s : ModuleSet) (x y : Module) : Prop :=
  ∃ ds, σ.outcome (s.dependencies access x) = .ok ds ∧ ∃ d ∈ ds, d.module = y

/-- Whether two local modules depend on each other, one of which is `x` or a dependency of `x`. -/
def IsCyclic (σ : Session) (s : ModuleSet) (x : Module) : Prop :=
  ∃ y z, (y = x ∨ σ.HasDependency s x y) ∧ y.isLocal = true ∧ z.isLocal = true ∧
    σ.HasDependency s y z ∧ σ.HasDependency s z y

/-- Whether a session has everything at hand that the `b5` digest of a local module covers: its
dependencies, the files of all these modules, and the `b5` digests of the keys that remote ones were
published with. -/
structure Supplies (σ : Session) (s : ModuleSet) (x : Module) : Prop where
  dependencies : Succeeds (σ.outcome (s.dependencies access x))
  contents (y : Module) (hy : y = x ∨ σ.HasDependency s x y) :
    Succeeds (σ.outcome (y.contents access))
  keys (y : Module) (hy : σ.HasDependency s x y) (hl : y.isLocal = false) :
    ∃ keys, σ.outcome (y.declaredKeys access) = .ok keys ∧
      ∀ key ∈ keys, ∃ g, σ.outcome (key.digest access) = .ok g ∧ g.type = .b5

section Direct

variable {loads : Nat → Except Error Digest} {σ : Session} (h : Reachable loads σ)
variable (hplain : ∀ t ∈ σ.sets, t.HasPlainPaths σ.disk)

include h

theorem Reachable.isSound_directWorld : (σ.directWorld loads).IsSound :=
  ⟨Access.isPlain_direct _ _, h.setsInOrder⟩

include hplain

variable {s : ModuleSet} (hs : s ∈ σ.sets)

include hs

theorem Reachable.outcome_dependencies {x : Module} (hx : x ∈ s.modules) :
    σ.outcome (s.dependencies access x) = s.dependencies (σ.directWorld loads).io x :=
  (h.follows_directWorld hplain (.dependencies hs hx)
    (.dependencies h.isSound_directWorld hs hx (by simp [Above]))).2

theorem Reachable.outcome_contents {x : Module} (hx : x ∈ s.modules) :
    σ.outcome (x.contents access) = x.contents (σ.directWorld loads).io :=
  (h.follows_directWorld hplain (.contents hs hx)
    (.contents h.isSound_directWorld hs hx (by simp [Above]))).2

theorem Reachable.outcome_declaredKeys {x : Module} (hx : x ∈ s.modules) :
    σ.outcome (x.declaredKeys access) = x.declaredKeys (σ.directWorld loads).io :=
  (h.follows_directWorld hplain (.declaredKeys hs hx)
    (.declaredKeys h.isSound_directWorld hs hx (by simp [Above]))).2

theorem Reachable.outcome_digest {x : Module} (hx : x ∈ s.modules) (type : DigestType) :
    σ.outcome (s.digest access x type) = s.digest (σ.directWorld loads).io x type :=
  (h.follows_directWorld hplain (.digest hs hx type)
    (.digest h.isSound_directWorld hs (h.setsInOrder.number_lt hs) hx)).2

omit hs in
theorem Reachable.outcome_keyDigest {key : ModuleKey}
    (hk : key.IsKnown σ.disk loads σ.sets.length) :
    σ.outcome (key.digest access) = key.digest (σ.directWorld loads).io :=
  (h.follows_directWorld hplain (.keyDigest hk) (.digestOfKey h.isSound_directWorld hk)).2

theorem Reachable.hasDependency_iff {x y : Module} (hx : x ∈ s.modules) :
    σ.HasDependency s x y ↔ s.HasDependency (σ.directWorld loads).io x y := by
  rw [HasDependency, h.outcome_dependencies hplain hs hx]
  rfl

theorem Reachable.isCyclic_iff {x : Module} (hx : x ∈ s.modules) :
    σ.IsCyclic s x ↔ s.IsCyclic (σ.directWorld loads).io x := by
  have plain := h.isSound_directWorld.plain
  constructor
  · rintro ⟨y, z, hy, hyl, hzl, hyz, hzy⟩
    rw [h.hasDependency_iff hplain hs hx] at hy
    have hymem : y ∈ s.modules := by
      rcases hy with rfl | hxy
      · exact hx
      · exact hxy.mem_modules plain hx
    rw [h.hasDependency_iff hplain hs hymem] at hyz
    rw [h.hasDependency_iff hplain hs (hyz.mem_modules plain hymem)] at hzy
    exact ⟨y, z, hy, hyl, hzl, hyz, hzy⟩
  · rintro ⟨y, z, hy, hyl, hzl, hyz, hzy⟩
    have hymem : y ∈ s.modules := by
      rcases hy with rfl | hxy
      · exact hx
      · exact hxy.mem_modules plain hx
    have hzmem := hyz.mem_modules plain hymem
    rw [← h.hasDependency_iff hplain hs hx] at hy
    rw [← h.hasDependency_iff hplain hs hymem] at hyz
    rw [← h.hasDependency_iff hplain hs hzmem] at hzy
    exact ⟨y, z, hy, hyl, hzl, hyz, hzy⟩

theorem Reachable.supplies_iff {x : Module} (hx : x ∈ s.modules) :
    σ.Supplies s x ↔ s.IsSupplied (σ.directWorld loads).io x := by
  have sound := h.isSound_directWorld
  have depends := fun y => h.hasDependency_iff hplain hs (y := y) hx
  have mem : ∀ y, s.HasDependency (σ.directWorld loads).io x y → y ∈ s.modules :=
    fun y hxy => hxy.mem_modules sound.plain hx
  have memOrSelf : ∀ y, y = x ∨ s.HasDependency (σ.directWorld loads).io x y → y ∈ s.modules := by
    rintro y (rfl | hxy)
    · exact hx
    · exact mem y hxy
  have hlt := h.setsInOrder.number_lt hs
  have digests : ∀ y ∈ s.modules, ∀ keys, y.declaredKeys (σ.directWorld loads).io = .ok keys →
      ∀ key ∈ keys,
        σ.outcome (key.digest access) = s.keyDigest (σ.directWorld loads).io key := by
    intro y hy keys hkeys key hkey
    rw [sound.plain.declaredKeys_eq] at hkeys
    have known := h.setsInOrder.keys hs hy hkeys key hkey
    rw [h.outcome_keyDigest hplain (known.mono hlt.le), ModuleSet.keyDigest_eq_digest sound known]
  constructor
  · intro hsup
    refine ⟨h.outcome_dependencies hplain hs hx ▸ hsup.dependencies, fun y hy => ?_,
      fun y hxy hl => ?_⟩
    · rw [← h.outcome_contents hplain hs (memOrSelf y hy)]
      exact hsup.contents y (hy.imp_right (depends y).2)
    · obtain ⟨keys, hkeys, hall⟩ := hsup.keys y ((depends y).2 hxy) hl
      rw [h.outcome_declaredKeys hplain hs (mem y hxy)] at hkeys
      refine ⟨keys, hkeys, fun key hkey => ?_⟩
      rw [← digests y (mem y hxy) keys hkeys key hkey]
      exact hall key hkey
  · intro hsup
    refine ⟨(h.outcome_dependencies hplain hs hx).symm ▸ hsup.dependencies, fun y hy => ?_,
      fun y hxy hl => ?_⟩
    · have hy := hy.imp_right (depends y).1
      rw [h.outcome_contents hplain hs (memOrSelf y hy)]
      exact hsup.contents y hy
    · have hxy := (depends y).1 hxy
      obtain ⟨keys, hkeys, hall⟩ := hsup.keys y hxy hl
      refine ⟨keys, (h.outcome_declaredKeys hplain hs (mem y hxy)).trans hkeys, fun key hkey => ?_⟩
      rw [digests y (mem y hxy) keys hkeys key hkey]
      exact hall key hkey

end Direct

end Session

variable {loads : Nat → Except Error Digest} {σ : Session}

/-- In a session without NUL characters in paths, looking for the `b5` digest of a local module that
has everything at hand reports a cycle exactly when local modules depend on each other, one of which
is the module or a dependency of it; otherwise the digest is found. Either way no digest, and no other
answer, is looked for more than once. -/
theorem Session.Reachable.digest_reports_cycles (h : Session.Reachable loads σ)
    (hplain : ∀ t ∈ σ.sets, t.HasPlainPaths σ.disk) {s : ModuleSet} (hs : s ∈ σ.sets) {x : Module}
    (hx : x ∈ s.modules) (hl : x.isLocal = true) (hsup : σ.Supplies s x) :
    (ModuleSet.EndsInCycle (σ.outcome (s.digest Session.access x .b5)) ↔ σ.IsCyclic s x) ∧
      (Succeeds (σ.outcome (s.digest Session.access x .b5)) ↔ ¬ σ.IsCyclic s x) ∧
      ∀ q, (σ.after (s.digest Session.access x .b5)).timesAsked q ≤ 1 := by
  have sound := h.isSound_directWorld
  obtain ⟨hlt, -⟩ := List.getElem?_eq_some_iff.1 (h.setsInOrder.getElem_number hs)
  obtain ⟨described, outcome⟩ :=
    h.follows_directWorld hplain (.digest hs hx .b5) (.digest sound hs hlt hx)
  have once : ∀ q, (σ.after (s.digest Session.access x .b5)).timesAsked q ≤ 1 := by
    intro q
    rw [described.once q]
    split <;> decide
  rw [outcome, h.isCyclic_iff hplain hs hx]
  rcases ModuleSet.digest_cases sound.plain hx hl ((h.supplies_iff hplain hs hx).1 hsup) with
    ⟨acyclic, g, hg⟩ | ⟨cyclic, a, b, hab⟩
  · refine ⟨iff_of_false ?_ acyclic, iff_of_true ⟨g, hg⟩ acyclic, once⟩
    rintro ⟨a, b, hab⟩
    rw [hg] at hab
    cases hab
  · refine ⟨iff_of_true ⟨a, b, hab⟩ cyclic, iff_of_false ?_ (fun acyclic => acyclic cyclic), once⟩
    rw [hab]
    exact Fallible.not_succeeds_error _

namespace Sample

section Plain

variable {io : Access (Except Error)} {disk : Disk} {sets : List ModuleSet} {x y : Module}
variable (h : io.IsPlain disk sets) (reads : set.ReadsImports io disk)

include h reads

theorem hasDependency_first (hy : set.HasDependency io first y) : y = second := by
  have mem := mem_modules_set.2 (.inl rfl)
  obtain ⟨ds, hds, d, hd, rfl⟩ := hy
  obtain ⟨hne, path, -⟩ := (ModuleSet.mem_dependencies_iff_importsFrom h (isLoadable_set disk) reads
    mem hds d).1 hd
  have reached := ModuleSet.mem_modules_of_path mem path.to_reflTransGen
  exact (mem_modules_set.1 reached).resolve_left hne

theorem not_hasDependency_second : ¬ set.HasDependency io second y := by
  rintro ⟨ds, hds, d, hd, -⟩
  obtain ⟨-, path, -⟩ := (ModuleSet.mem_dependencies_iff_importsFrom h (isLoadable_set disk) reads
    (mem_modules_set.2 (.inr rfl)) hds d).1 hd
  obtain ⟨z, step, -⟩ := TransGen.head'_iff.1 path
  exact not_importsFrom_second step

theorem not_isCyclic (hx : x ∈ set.modules) : ¬ set.IsCyclic io x := by
  rintro ⟨y, z, hy, -, -, hyz, hzy⟩
  have hymem : y ∈ set.modules := by
    rcases hy with rfl | hxy
    · exact hx
    · exact hxy.mem_modules h hx
  rcases mem_modules_set.1 hymem with rfl | rfl
  · obtain rfl := hasDependency_first h reads hyz
    exact not_hasDependency_second h reads hzy
  · exact not_hasDependency_second h reads hyz

omit reads in
theorem succeeds_contents (hx : x ∈ set.modules) : Succeeds (x.contents io) := by
  have ofModule : ∀ {position : Nat} {name : String} {hn : NamePart.IsValid name},
      FileKind.ofPath? (name ++ ".proto") = some .proto →
        (module position name hn).contentsOn disk = .ok [(name ++ ".proto", ⟨#[]⟩)] := by
    intro position name hn hp
    refine Module.contentsOn_eq_ok.2 ⟨_, rfl, rfl, ⟨_, List.mem_singleton.2 rfl, hp⟩, ?_, ?_⟩
    · change _ = (moduleEntries [name ++ ".proto"]).map FileEntry.path
      simp [moduleEntries, ascending, hp]
    · intro file hfile
      obtain rfl := List.mem_singleton.1 hfile
      exact FileTable.get_eq_ok.2 List.lookup_cons_self
  rw [h.contents_eq]
  rcases mem_modules_set.1 hx with rfl | rfl
  · exact ⟨_, ofModule (by decide)⟩
  · exact ⟨_, ofModule (by decide)⟩

theorem isSupplied (hx : x ∈ set.modules) : set.IsSupplied io x where
  dependencies := (ModuleSet.succeeds_dependencies_iff_isResolved h (isLoadable_set disk) reads hx).2
    fun _ path => isResolved _ (ModuleSet.mem_modules_of_path hx path)
  contents y hy := by
    rcases hy with rfl | hxy
    · exact succeeds_contents h hx
    · exact succeeds_contents h (hxy.mem_modules h hx)
  keys y hxy hl := by
    rcases mem_modules_set.1 (hxy.mem_modules h hx) with rfl | rfl <;> cases hl

end Plain

/-! The same two modules, which now import each other. -/

def ringParser : ImportParser where
  number := none
  parse path _ := .ok [if path = "a.proto" then "b.proto" else "a.proto"]

def ringSet : ModuleSet := ⟨0, ringParser, [first, second], set.nodup_identity, set.nodup_bucketId⟩

def ringSession : Session :=
  ({} : Session).after (Session.build ringParser [addition "a" isValid_a, addition "b" isValid_b])

theorem sets_ringSession : ringSession.sets = [ringSet] := rfl

theorem reachable_ringSession : Session.Reachable Sample.loads ringSession :=
  ⟨{}, .single (.build _ _ _ isKnown_of_addition)⟩

theorem hasPlainPaths_ringSession : ∀ t ∈ ringSession.sets, t.HasPlainPaths ringSession.disk := by
  rw [sets_ringSession]
  exact List.forall_mem_singleton.2 (hasPlainPaths_set ringSession.disk)

section Ring

variable (disk : Disk) (sets : List ModuleSet)

theorem dependencies_ring_first :
    ringSet.dependencies (.direct disk sets) first = .ok [⟨second, true⟩] := by
  cbv

theorem dependencies_ring_second :
    ringSet.dependencies (.direct disk sets) second = .ok [⟨first, true⟩] := by
  cbv

theorem hasDependency_ring_first {y : Module} :
    ringSet.HasDependency (.direct disk sets) first y ↔ y = second := by
  constructor
  · intro depends
    obtain ⟨d, hd, rfl⟩ := depends.exists_mem (dependencies_ring_first disk sets)
    rw [List.mem_singleton.1 hd]
  · rintro rfl
    exact ⟨_, dependencies_ring_first disk sets, _, List.mem_cons_self, rfl⟩

theorem isCyclic_ring : ringSet.IsCyclic (.direct disk sets) first :=
  ⟨first, second, .inl rfl, rfl, rfl, (hasDependency_ring_first disk sets).2 rfl,
    ⟨_, dependencies_ring_second disk sets, _, List.mem_cons_self, rfl⟩⟩

theorem isSupplied_ring : ringSet.IsSupplied (.direct disk sets) first where
  dependencies := ⟨_, dependencies_ring_first disk sets⟩
  contents y hy := by
    rw [hasDependency_ring_first] at hy
    exact succeeds_contents (Access.isPlain_direct disk sets) (mem_modules_set.2 hy)
  keys y hxy hl := by
    obtain rfl := (hasDependency_ring_first disk sets).1 hxy
    cases hl

end Ring

end Sample

/-- Where the two modules of the sample do not depend on each other, the first one has a digest. Where each
of them imports the other one, a cycle is reported instead. -/
theorem Sample.digest_first_unless_ring :
    Succeeds (session.outcome (set.digest Session.access first .b5)) ∧
      ModuleSet.EndsInCycle (ringSession.outcome (ringSet.digest Session.access first .b5)) := by
  constructor
  · have reachable := reachable_session
    have mem := mem_modules_set.2 (.inl rfl)
    have plain := reachable.isSound_directWorld.plain
    have reads : set.ReadsImports (session.directWorld loads).io _ :=
      ModuleSet.readsImports_direct (isLoadable_set session.disk)
    refine (reachable.digest_reports_cycles hasPlainPaths_sets set_mem_sets mem rfl ?_).2.1.2 ?_
    · exact (reachable.supplies_iff hasPlainPaths_sets set_mem_sets mem).2 (isSupplied plain reads mem)
    · rw [reachable.isCyclic_iff hasPlainPaths_sets set_mem_sets mem]
      exact not_isCyclic plain reads mem
  · have reachable := reachable_ringSession
    have made : ringSet ∈ ringSession.sets := sets_ringSession ▸ List.mem_cons_self
    have mem : first ∈ ringSet.modules := List.mem_cons_self
    refine (reachable.digest_reports_cycles hasPlainPaths_ringSession made mem rfl ?_).1.2 ?_
    · exact (reachable.supplies_iff hasPlainPaths_ringSession made mem).2 (isSupplied_ring _ _)
    · exact (reachable.isCyclic_iff hasPlainPaths_ringSession made mem).2 (isCyclic_ring _ _)

end ProtoWorkspace
