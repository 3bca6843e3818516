import Mathlib.Logic.Relation
import Mathlib.Tactic
import ProtoWorkspace.ModuleDigest
import ProtoWorkspace.Proofs.Dependencies.Walk

/-!
# The search for digests

The search for the digest of a module in parts, each with a name. Through a plain way the search
never meets a module whose digest is being computed, so that it does not matter which modules it
takes to be idle.
-/

namespace ProtoWorkspace

open Relation

namespace ModuleSet

section Parts

variable {m : Type → Type} [Monad m] [MonadExcept Error m]

/-- The digest of the module with an identity in a set, which must be earlier. -/
def earlierDigest (s : ModuleSet) (io : Access m) (identity : String) (type : DigestType) :
    Option ModuleSet → m Digest
  | none => throw (.unknownModule identity)
  | some t =>
    if t.number < s.number then
      match t.find? identity with
      | some y => t.digestWithin io (others t.identities identity) y type
      | none => throw (.unknownModule identity)
    else throw (.digestInProgress identity)

def keyDigest (s : ModuleSet) (io : Access m) (key : ModuleKey) : m Digest :=
  key.digestBy io fun number identity type =>
    io.findSet number >>= s.earlierDigest io identity type

/-- The digest of the module with an identity in a set, when no other is being computed. -/
def digestOfFound (io : Access m) (identity : String) (type : DigestType) :
    Option ModuleSet → m Digest
  | none => throw (.unknownModule identity)
  | some s =>
    match s.find? identity with
    | some x => s.digest io x type
    | none => throw (.unknownModule identity)

/-- The `b5` digest of a dependency. -/
def dependencyDigest (s : ModuleSet) (io : Access m) (idle : List String) (d : Dependency) :
    m Digest :=
  if d.module.identity ∈ idle then
    s.digestWithin io (others idle d.module.identity) d.module .b5
  else throw (.digestInProgress d.module.identity)

/-- The `b5` digest of a local module, looked for anew. -/
def localDigest (s : ModuleSet) (io : Access m) (idle : List String) (x : Module) : m Digest := do
  let dependencies ← s.dependencies io x
  s.checkNoCycle io x dependencies
  let digests ← dependencies.mapM (s.dependencyDigest io idle)
  MonadExcept.ofExcept (Digest.b5 (← x.contents io) digests)

def remoteDigest (s : ModuleSet) (io : Access m) (x : Module) : m Digest := do
  let keys := sortedByName (← x.declaredKeys io)
  let digests ← keys.mapM (s.keyDigest io)
  MonadExcept.ofExcept (Digest.b5 (← x.contents io) digests)

def flatDigest (io : Access m) (x : Module) : m Digest := do
  let yaml ← x.yaml io
  let lock ← x.lock io
  return Digest.b4 (← x.contents io) yaml lock

/-- The digest of a module, looked for anew. -/
def soughtDigest (s : ModuleSet) (io : Access m) (idle : List String) (x : Module) :
    DigestType → m Digest
  | .b4 => flatDigest io x
  | .b5 => if x.isLocal then s.localDigest io idle x else s.remoteDigest io x

theorem digestWithin_eq (s : ModuleSet) (io : Access m) (idle : List String) (x : Module)
    (type : DigestType) :
    s.digestWithin io idle x type =
      io.remember (.digest s.number x.identity type) (s.soughtDigest io idle x type) := by
  rw [digestWithin.eq_def]
  cases type <;> rfl

end Parts

end ModuleSet

theorem ModuleKey.digest_eq {m : Type → Type} [Monad m] [MonadExcept Error m] (key : ModuleKey)
    (io : Access m) :
    key.digest io = key.digestBy io fun number identity type =>
      io.findSet number >>= ModuleSet.digestOfFound io identity type := rfl

namespace ModuleSet

/-! ## Dependencies of dependencies -/

/-- Whether the dependencies of `x` are known and `y` is among them. -/
def HasDependency (s : ModuleSet) (io : Access (Except Error)) (x y : Module) : Prop :=
  ∃ ds, s.dependencies io x = .ok ds ∧ ∃ d ∈ ds, d.module = y

/-- Whether the digest search may go from `x` to all its dependencies: either it stops before, or
all of them are idle. -/
def Covers (s : ModuleSet) (io : Access (Except Error)) (idle : List String) (x : Module) : Prop :=
  x.isLocal = true → ∀ ds, s.dependencies io x = .ok ds → s.checkNoCycle io x ds = .ok () →
    ∀ d ∈ ds, d.module.identity ∈ idle

section Plain

variable {s : ModuleSet} {io : Access (Except Error)} {disk : Disk} {sets : List ModuleSet}
variable {x y z : Module}

theorem hasDependency_of_mem {ds : List Dependency} (hds : s.dependencies io x = .ok ds)
    {d : Dependency} (hd : d ∈ ds) : s.HasDependency io x d.module :=
  ⟨ds, hds, d, hd, rfl⟩

theorem HasDependency.exists_mem (h : s.HasDependency io x y) {ds : List Dependency}
    (hds : s.dependencies io x = .ok ds) : ∃ d ∈ ds, d.module = y := by
  obtain ⟨ds', hds', hd⟩ := h
  rw [hds] at hds'
  cases hds'
  exact hd

theorem hasDependency_iff (h : io.IsPlain disk sets) (hx : x ∈ s.modules) :
    s.HasDependency io x y ↔
      Succeeds (s.dependencies io x) ∧ y ≠ x ∧ TransGen (s.Leads io) x y := by
  constructor
  · rintro ⟨ds, hds, d, hd, rfl⟩
    obtain ⟨hne, path, -⟩ := (mem_dependencies_iff h hx hds d).1 hd
    exact ⟨⟨ds, hds⟩, hne, path⟩
  · rintro ⟨⟨ds, hds⟩, hne, path⟩
    by_cases hdirect : s.Leads io x y
    · exact ⟨ds, hds, ⟨y, true⟩,
        (mem_dependencies_iff h hx hds _).2 ⟨hne, path, iff_of_true rfl hdirect⟩, rfl⟩
    · exact ⟨ds, hds, ⟨y, false⟩,
        (mem_dependencies_iff h hx hds _).2 ⟨hne, path, iff_of_false Bool.false_ne_true hdirect⟩, rfl⟩

theorem HasDependency.mem_modules (h : io.IsPlain disk sets) (hx : x ∈ s.modules)
    (hxy : s.HasDependency io x y) : y ∈ s.modules := by
  obtain ⟨ds, hds, d, hd, rfl⟩ := hxy
  exact mem_modules_of_mem_dependencies h hx hds hd

theorem HasDependency.ne (h : io.IsPlain disk sets) (hx : x ∈ s.modules)
    (hxy : s.HasDependency io x y) : y ≠ x :=
  ((hasDependency_iff h hx).1 hxy).2.1

/-- Where the dependencies of a module are known, so are those of its dependencies. -/
theorem HasDependency.succeeds (h : io.IsPlain disk sets) (hx : x ∈ s.modules)
    (hxy : s.HasDependency io x y) : Succeeds (s.dependencies io y) := by
  have hy := hxy.mem_modules h hx
  obtain ⟨hs, -, path⟩ := (hasDependency_iff h hx).1 hxy
  rw [succeeds_dependencies_iff h hx] at hs
  rw [succeeds_dependencies_iff h hy]
  exact fun w path' => hs w (path.to_reflTransGen.trans path')

theorem HasDependency.trans (h : io.IsPlain disk sets) (hx : x ∈ s.modules)
    (hxy : s.HasDependency io x y) (hyz : s.HasDependency io y z) (hne : z ≠ x) :
    s.HasDependency io x z := by
  have hy := hxy.mem_modules h hx
  obtain ⟨hs, -, path⟩ := (hasDependency_iff h hx).1 hxy
  obtain ⟨-, -, path'⟩ := (hasDependency_iff h hy).1 hyz
  exact (hasDependency_iff h hx).2 ⟨hs, hne, path.trans path'⟩

/-- The check passes when no local dependency is known to depend on the module in turn. -/
theorem checkNoCycle_eq_ok {ds : List Dependency} :
    s.checkNoCycle io x ds = .ok () ↔
      ∀ d ∈ ds, d.module.isLocal = true → ∃ back, s.dependencies io d.module = .ok back ∧
        ∀ b ∈ back, b.module.identity ≠ x.identity := by
  induction ds with
  | nil => simp [checkNoCycle]
  | cons d rest ih =>
    rw [List.forall_mem_cons, ← ih, checkNoCycle]
    by_cases hl : d.module.isLocal = true
    · simp only [hl, if_true, forall_const]
      cases hb : s.dependencies io d.module with
      | error e => simp
      | ok back =>
        by_cases found : ∃ b ∈ back, b.module.identity = x.identity
        · have stops : ¬ ∀ b ∈ back, b.module.identity ≠ x.identity := by
            simpa using found
          simp [found, stops]
        · have passes : ∀ b ∈ back, b.module.identity ≠ x.identity := by
            simpa using found
          simpa [found] using fun _ => passes
    · simp [hl]

theorem checkNoCycle_eq_ok_iff (h : io.IsPlain disk sets) (hx : x ∈ s.modules)
    {ds : List Dependency} (hds : s.dependencies io x = .ok ds) :
    s.checkNoCycle io x ds = .ok () ↔
      ∀ d ∈ ds, d.module.isLocal = true → ¬ s.HasDependency io d.module x := by
  rw [checkNoCycle_eq_ok]
  refine forall₂_congr fun d hd => forall_congr' fun _ => ?_
  have hxd := hasDependency_of_mem hds hd
  constructor
  · rintro ⟨back, hback, hnone⟩ hdx
    obtain ⟨b, hb, hbx⟩ := hdx.exists_mem hback
    exact hnone b hb (by rw [hbx])
  · intro hdx
    obtain ⟨back, hback⟩ := hxd.succeeds h hx
    refine ⟨back, hback, fun b hb hid => hdx ?_⟩
    have hdb := hasDependency_of_mem hback hb
    have same : b.module = x :=
      eq_of_identity (hdb.mem_modules h (hxd.mem_modules h hx)) hx hid
    exact same ▸ hdb

/-- A search that starts at a module may go on to all its dependencies. -/
theorem covers_others_identities (h : io.IsPlain disk sets) (hx : x ∈ s.modules) :
    s.Covers io (others s.identities x.identity) x := by
  intro _ ds hds _ d hd
  have hxd := hasDependency_of_mem hds hd
  have hmem := hxd.mem_modules h hx
  refine List.mem_filter.2 ⟨List.mem_map.2 ⟨d.module, hmem, rfl⟩, decide_eq_true ?_⟩
  exact fun hid => hxd.ne h hx (eq_of_identity hmem hx hid)

theorem Covers.dependency (h : io.IsPlain disk sets) (hx : x ∈ s.modules) {idle : List String}
    (hc : s.Covers io idle x) (hl : x.isLocal = true) {ds : List Dependency}
    (hds : s.dependencies io x = .ok ds) (hcheck : s.checkNoCycle io x ds = .ok ())
    {d : Dependency} (hd : d ∈ ds) :
    s.Covers io (others idle d.module.identity) d.module := by
  intro hdl ds' hds' _ e he
  have hxd := hasDependency_of_mem hds hd
  have hde := hasDependency_of_mem hds' he
  have hdmem := hxd.mem_modules h hx
  have back := (checkNoCycle_eq_ok_iff h hx hds).1 hcheck d hd hdl
  have hxe : s.HasDependency io x e.module := hxd.trans h hx hde fun hex => back (hex ▸ hde)
  obtain ⟨e', he', same⟩ := hxe.exists_mem hds
  refine List.mem_filter.2 ⟨same ▸ hc hl ds hds hcheck e' he', decide_eq_true ?_⟩
  exact fun hid => hde.ne h hdmem (eq_of_identity (hde.mem_modules h hdmem) hdmem hid)

theorem digestWithin_eq_sought (h : io.IsPlain disk sets) (idle : List String) (x : Module)
    (type : DigestType) : s.digestWithin io idle x type = s.soughtDigest io idle x type :=
  (s.digestWithin_eq io idle x type).trans (h.remember_eq _ _ rfl)

/-- Which modules the search takes to be idle does not matter as long as it may go on to all
dependencies. -/
theorem digestWithin_eq_digest (h : io.IsPlain disk sets) {idle : List String}
    (hx : x ∈ s.modules) (hc : s.Covers io idle x) (type : DigestType) :
    s.digestWithin io idle x type = s.digest io x type := by
  have any : ∀ idle', s.Covers io idle' x →
      s.digestWithin io idle x type = s.digestWithin io idle' x type := by
    induction s, idle, x, type using digestWithin.induct with
    | case1 s idle x type ih _ =>
      intro idle' hc'
      rw [digestWithin_eq_sought h, digestWithin_eq_sought h]
      cases type with
      | b4 => rfl
      | b5 =>
        by_cases hl : x.isLocal = true
        · simp only [soughtDigest, hl, if_true, localDigest]
          cases hds : s.dependencies io x with
          | error e => rfl
          | ok ds =>
            simp only [Fallible.ok_bind]
            cases hcheck : s.checkNoCycle io x ds with
            | error e => rfl
            | ok _ =>
              have same : ds.mapM (s.dependencyDigest io idle) =
                  ds.mapM (s.dependencyDigest io idle') := by
                refine Fallible.mapM_congr fun d hd => ?_
                have hidle := hc hl ds hds hcheck d hd
                rw [dependencyDigest, dependencyDigest, if_pos hidle,
                  if_pos (hc' hl ds hds hcheck d hd)]
                exact ih d hidle (mem_modules_of_mem_dependencies h hx hds hd)
                  (hc.dependency h hx hl hds hcheck hd) _
                  (hc'.dependency h hx hl hds hcheck hd)
              simp only [Fallible.ok_bind, same]
        · simp only [soughtDigest, hl]
          rfl
  exact any _ (covers_others_identities h hx)

theorem dependencyDigest_eq_digest (h : io.IsPlain disk sets) {idle : List String}
    (hx : x ∈ s.modules) (hc : s.Covers io idle x) (hl : x.isLocal = true)
    {ds : List Dependency} (hds : s.dependencies io x = .ok ds)
    (hcheck : s.checkNoCycle io x ds = .ok ()) {d : Dependency} (hd : d ∈ ds) :
    s.dependencyDigest io idle d = s.digest io d.module .b5 := by
  rw [dependencyDigest, if_pos (hc hl ds hds hcheck d hd)]
  exact digestWithin_eq_digest h (mem_modules_of_mem_dependencies h hx hds hd)
    (hc.dependency h hx hl hds hcheck hd) .b5

/-- The `b5` digest of a local module covers those of its dependencies, in whichever order they are
looked for. -/
theorem digest_eq_of_isLocal (h : io.IsPlain disk sets) (hx : x ∈ s.modules)
    (hl : x.isLocal = true) :
    s.digest io x .b5 = (do
      let ds ← s.dependencies io x
      s.checkNoCycle io x ds
      let digests ← ds.mapM fun d => s.digest io d.module .b5
      Digest.b5 (← x.contents io) digests) := by
  rw [digest, digestWithin_eq_sought h]
  simp only [soughtDigest, hl, if_true, localDigest, Fallible.ofExcept_eq]
  cases hds : s.dependencies io x with
  | error e => rfl
  | ok ds =>
    simp only [Fallible.ok_bind]
    cases hcheck : s.checkNoCycle io x ds with
    | error e => rfl
    | ok _ =>
      have same : ds.mapM (s.dependencyDigest io (others s.identities x.identity)) =
          ds.mapM fun d => s.digest io d.module .b5 :=
        Fallible.mapM_congr fun d hd =>
          dependencyDigest_eq_digest h hx (covers_others_identities h hx) hl hds hcheck hd
      simp only [Fallible.ok_bind, same]

/-- The `b5` digest of a remote module covers those of the keys that it was published with. -/
theorem digest_eq_of_not_isLocal (h : io.IsPlain disk sets) (hl : x.isLocal = false) :
    s.digest io x .b5 = (do
      let keys ← x.declaredKeys io
      let digests ← (sortedByName keys).mapM (s.keyDigest io)
      Digest.b5 (← x.contents io) digests) := by
  rw [digest, digestWithin_eq_sought h]
  simp only [soughtDigest, hl, Bool.false_eq_true, if_false, remoteDigest, Fallible.ofExcept_eq]

theorem digest_b4_eq (h : io.IsPlain disk sets) :
    s.digest io x .b4 = (do
      let yaml ← x.yaml io
      let lock ← x.lock io
      return Digest.b4 (← x.contents io) yaml lock) :=
  digestWithin_eq_sought h _ x .b4

theorem b5_eq_ok {files : List (String × ByteArray)} {digests : List Digest} {g : Digest} :
    Digest.b5 files digests = .ok g ↔
      (∀ d ∈ digests, d.type = .b5) ∧ g = Digest.ofStream .b5 (Digest.b5Stream files digests) := by
  unfold Digest.b5
  cases hf : digests.find? (·.type ≠ .b5) with
  | some d =>
    have hmem := List.mem_of_find?_eq_some hf
    have hne : d.type ≠ .b5 := by simpa using List.find?_some hf
    exact iff_of_false (by simp) fun hall => hne (hall.1 d hmem)
  | none =>
    have all : ∀ d ∈ digests, d.type = .b5 := by simpa using hf
    simp only [Except.ok.injEq, and_iff_right all]
    exact eq_comm

theorem succeeds_b5 {files : List (String × ByteArray)} {digests : List Digest}
    (h : ∀ d ∈ digests, d.type = .b5) : Succeeds (Digest.b5 files digests) :=
  ⟨_, b5_eq_ok.2 ⟨h, rfl⟩⟩

theorem type_of_digest_b5 (h : io.IsPlain disk sets) (hx : x ∈ s.modules) {g : Digest}
    (hg : s.digest io x .b5 = .ok g) : g.type = .b5 := by
  have typed : ∀ {files digests}, Digest.b5 files digests = .ok g → g.type = .b5 := by
    intro files digests hg
    rw [(b5_eq_ok.1 hg).2]
    rfl
  cases hl : x.isLocal with
  | true =>
    rw [digest_eq_of_isLocal h hx hl] at hg
    obtain ⟨_, -, hg⟩ := Fallible.bind_eq_ok.1 hg
    obtain ⟨_, -, hg⟩ := Fallible.bind_eq_ok.1 hg
    obtain ⟨_, -, hg⟩ := Fallible.bind_eq_ok.1 hg
    obtain ⟨_, -, hg⟩ := Fallible.bind_eq_ok.1 hg
    exact typed hg
  | false =>
    rw [digest_eq_of_not_isLocal h hl] at hg
    obtain ⟨_, -, hg⟩ := Fallible.bind_eq_ok.1 hg
    obtain ⟨_, -, hg⟩ := Fallible.bind_eq_ok.1 hg
    obtain ⟨_, -, hg⟩ := Fallible.bind_eq_ok.1 hg
    exact typed hg

theorem digest_b4_eq_ok (h : io.IsPlain disk sets) {g : Digest} :
    s.digest io x .b4 = .ok g ↔ ∃ yaml lock files, x.yaml io = .ok yaml ∧ x.lock io = .ok lock ∧
      x.contents io = .ok files ∧ g = Digest.b4 files yaml lock := by
  rw [digest_b4_eq h]
  simp only [Fallible.bind_eq_ok, Fallible.pure_eq_ok, Except.ok.injEq, eq_comm (a := g)]
  constructor
  · rintro ⟨yaml, hyaml, lock, hlock, files, hfiles, hg⟩
    exact ⟨yaml, lock, files, hyaml, hlock, hfiles, hg⟩
  · rintro ⟨yaml, lock, files, hyaml, hlock, hfiles, hg⟩
    exact ⟨yaml, hyaml, lock, hlock, files, hfiles, hg⟩

/-- What the `b5` digest of a local module is. -/
theorem digest_b5_eq_ok (h : io.IsPlain disk sets) (hx : x ∈ s.modules) (hl : x.isLocal = true)
    {g : Digest} :
    s.digest io x .b5 = .ok g ↔ ∃ ds digests files, s.dependencies io x = .ok ds ∧
      (∀ d ∈ ds, d.module.isLocal = true → ¬ s.HasDependency io d.module x) ∧
      List.Forall₂ (fun d g => s.digest io d.module .b5 = .ok g) ds digests ∧
      x.contents io = .ok files ∧ g = .ofStream .b5 (Digest.b5Stream files digests) := by
  rw [digest_eq_of_isLocal h hx hl]
  constructor
  · intro hg
    obtain ⟨ds, hds, hg⟩ := Fallible.bind_eq_ok.1 hg
    obtain ⟨⟨⟩, hcheck, hg⟩ := Fallible.bind_eq_ok.1 hg
    obtain ⟨digests, hdigests, hg⟩ := Fallible.bind_eq_ok.1 hg
    obtain ⟨files, hfiles, hg⟩ := Fallible.bind_eq_ok.1 hg
    exact ⟨ds, digests, files, hds, (checkNoCycle_eq_ok_iff h hx hds).1 hcheck,
      Fallible.mapM_eq_ok.1 hdigests, hfiles, (b5_eq_ok.1 hg).2⟩
  · rintro ⟨ds, digests, files, hds, noBack, hdigests, hfiles, hg⟩
    have typed : ∀ g ∈ digests, g.type = .b5 := by
      intro g hg
      obtain ⟨d, hd, hg⟩ := Fallible.exists_of_mem_right hdigests hg
      exact type_of_digest_b5 h (mem_modules_of_mem_dependencies h hx hds hd) hg
    rw [hds, Fallible.ok_bind, (checkNoCycle_eq_ok_iff h hx hds).2 noBack, Fallible.ok_bind,
      Fallible.mapM_eq_ok.2 hdigests, Fallible.ok_bind, hfiles]
    exact b5_eq_ok.2 ⟨typed, hg⟩

end Plain

end ModuleSet

end ProtoWorkspace
