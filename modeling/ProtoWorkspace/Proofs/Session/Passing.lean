import Mathlib.Tactic
import ProtoWorkspace.Proofs.Session.Given
import ProtoWorkspace.Proofs.Session.Operations

/-!
# How internal errors are passed on

For each question: it makes no internal error of its own, and it does not lead to the declared keys of a
local module. Those of a remote one refer to what was there before its set.
-/

namespace ProtoWorkspace

open Fallible

open Session (access)

variable {g : Setting}

namespace Module

variable {s : ModuleSet} (hs : s ∈ g.sets) {x : Module} (hx : x ∈ s.modules)

include hs hx

theorem passes_openBucket (inOrder : SetsInOrder g.disk g.loads g.sets) :
    PassesOn g (x.openBucket access) fun b => x.inputs.bucket.on g.disk = .ok b := by
  have loads : PassesOn g (access.load (.openedBucket x.source) x.inputs.bucket)
      fun b => x.inputs.bucket.on g.disk = .ok b :=
    .load (by simp) fun σ hσ opened e failed => .bucket (hσ.sets_eq ▸ hs) hx opened failed
  have asked : PassesOn g (x.openBucket access) (g.Gives (.bucket x.source)) :=
    .remember (asks_openBucket hs hx) (loads.mono fun b given => ⟨s, hs, x, hx, rfl, given⟩)
  refine asked.mono ?_
  rintro b ⟨t, ht, y, hy, same, given⟩
  rwa [← (inOrder.source ht hs hy hx same).1]

theorem passes_yaml : PassesOn g (x.yaml access) fun _ => True :=
  .remember (asks_yaml hs hx) <| (PassesOn.load (by simp) fun σ hσ loaded e failed =>
    .yaml (hσ.sets_eq ▸ hs) hx loaded failed).mono fun _ _ => trivial

theorem passes_lock : PassesOn g (x.lock access) fun _ => True :=
  .remember (asks_lock hs hx) <| (PassesOn.load (by simp) fun σ hσ loaded e failed =>
    .lock (hσ.sets_eq ▸ hs) hx loaded failed).mono fun _ _ => trivial

theorem passes_declaredKeys (inOrder : SetsInOrder g.disk g.loads g.sets)
    (remote : x.isLocal = false) : PassesOn g (x.declaredKeys access) fun keys =>
      ∀ key ∈ keys, key.IsKnown g.disk g.loads s.number := by
  have loads : PassesOn g (access.load (.loadedKeys x.source) x.inputs.declaredKeys)
      fun keys => x.inputs.declaredKeys.on g.disk = .ok keys := by
    refine .load ?_ fun σ hσ loaded e failed => .keys (hσ.sets_eq ▸ hs) hx remote loaded failed
    rintro _ ⟨⟩
    exact ⟨s, hs, x, hx, rfl, remote⟩
  have asked : PassesOn g (x.declaredKeys access) (g.Gives (.declaredKeys x.source)) :=
    .remember (asks_declaredKeys hs hx) (loads.mono fun keys given => ⟨s, hs, x, hx, rfl, given⟩)
  refine asked.mono ?_
  rintro keys ⟨t, ht, y, hy, same, given⟩
  rw [(inOrder.source ht hs hy hx same).1] at given
  exact inOrder.keys hs hx given

variable (inOrder : SetsInOrder g.disk g.loads g.sets)

include inOrder

theorem passes_fileIndex : PassesOn g (x.fileIndex access) fun _ => True := by
  refine .remember (asks_fileIndex hs hx) ?_
  refine (passes_openBucket hs hx inOrder).bind fun b is => PassesOn.disk.bind fun disk hd => ?_
  subst hd
  refine .noted (by simp) (fun σ _ => PassesOn.run_ofExcept _ σ) (fun _ _ => trivial) ?_
  intro σ hσ walked message failed
  rw [← hσ.disk_eq] at walked is failed
  have failure := failure_of_indexOfListing failed
  exact .listing (hσ.sets_eq ▸ hs) hx walked is (Bucket.isForeign_of_list failure) failure

theorem passes_filePaths : PassesOn g (x.filePaths access) fun _ => True :=
  (passes_fileIndex hs hx inOrder).map fun _ => id

theorem passes_protoPaths : PassesOn g (x.protoPaths access) fun _ => True :=
  (passes_fileIndex hs hx inOrder).bind fun _ _ => .pure trivial

theorem passes_hasProto (path : String) : PassesOn g (x.hasProto access path) fun _ => True :=
  (passes_fileIndex hs hx inOrder).bind fun _ _ => .pure trivial

theorem passes_stat (path : String) : PassesOn g (x.stat access path) fun _ => True := by
  refine (passes_fileIndex hs hx inOrder).bind fun entries _ => ?_
  split
  · exact .pure trivial
  · exact .throw rfl

theorem passes_read (path : String) :
    PassesOn g (x.read access path) fun data => x.readOn g.disk path = .ok data := by
  refine (passes_fileIndex hs hx inOrder).bind fun entries _ => ?_
  split
  · refine (passes_openBucket hs hx inOrder).bind fun b is => ?_
    refine .noted (y := b.read g.disk path) (by simp) (fun σ hσ => ?_) (fun data read => ?_) ?_
    · rw [← hσ.disk_eq]
      exact PassesOn.run_ofExcept _ σ
    · rw [readOn, is]
      exact read
    · intro σ hσ fetched message failed
      rw [← hσ.disk_eq] at is failed
      exact .file (hσ.sets_eq ▸ hs) hx fetched is (Bucket.isForeign_of_read failed) failed
  · exact .throw rfl

theorem passes_contents : PassesOn g (x.contents access) fun _ => True := by
  refine (passes_filePaths hs hx inOrder).bind fun paths _ => ?_
  have reads : ∀ path ∈ paths,
      PassesOn g (do return (path, ← x.read access path)) fun _ => True := fun path _ =>
    (passes_read hs hx inOrder path).bind fun _ _ => .pure trivial
  exact (PassesOn.mapM reads).mono fun _ _ => trivial

end Module

namespace ModuleSet

variable {s : ModuleSet} (hs : s ∈ g.sets) (inOrder : SetsInOrder g.disk g.loads g.sets)

include hs inOrder

theorem passes_providersAmong (path : String) {modules : List Module}
    (hm : ∀ x ∈ modules, x ∈ s.modules) :
    PassesOn g (providersAmong access path modules) fun _ => True := by
  induction modules with
  | nil => exact .pure trivial
  | cons x rest ih =>
    obtain ⟨hx, hrest⟩ := List.forall_mem_cons.1 hm
    exact (Module.passes_hasProto hs hx inOrder path).bind fun _ _ =>
      (ih hrest).bind fun _ _ => .pure trivial

theorem passes_provider (path : String) : PassesOn g (s.provider access path) fun _ => True := by
  have sole (providers : List Module) :
      PassesOn g (soleProvider path providers : SessionM _) fun _ => True := by
    unfold soleProvider
    split
    · exact .pure trivial
    · exact .pure trivial
    · exact .throw rfl
  refine .remember (asks_provider hs path) ?_
  exact (passes_providersAmong hs inOrder path fun _ => id).bind fun providers _ => sole providers

variable {x : Module} (hx : x ∈ s.modules)

include hx

theorem passes_importsOf (path : String) :
    PassesOn g (s.importsOf access x path) fun _ => True := by
  refine .remember (asks_importsOf hs hx path) ?_
  refine (Module.passes_read hs hx inOrder path).bind fun data read => ?_
  have given (σ : Session) (hσ : σ.IsBlameless g)
      (parsed : ∀ number, s.parser.number = some number → σ.Notes (.parsedFile number path))
      (message : String) (failed : s.parser.parse path data = .error (.internal message)) :
      σ.WasGiven g.loads (.internal message) := by
    rw [← hσ.disk_eq] at read
    exact .parser (hσ.sets_eq ▸ hs) hx (ImportParser.ne_standard_of_parse failed) parsed read failed
  change PassesOn g (s.parseImports access path data) _
  unfold parseImports
  cases numbered : s.parser.number with
  | none => exact .ofExcept (fun _ _ => trivial) fun σ hσ => given σ hσ (by simp [numbered])
  | some number =>
    refine .noted (by simp) (fun σ _ => PassesOn.run_ofExcept _ σ) (fun _ _ => trivial) ?_
    intro σ hσ parsed
    refine given σ hσ fun number' same => ?_
    cases numbered.symm.trans same
    exact parsed

theorem passes_importedByFile (path : String) :
    PassesOn g (s.importedByFile access x path) fun _ => True := by
  have target (imported : String) : PassesOn g (s.importTarget access x path imported)
      fun _ => True := by
    refine (passes_provider hs inOrder imported).bind fun provider _ => ?_
    cases provider with
    | some y => exact .pure trivial
    | none =>
      change PassesOn g (if imported ∈ Imports.wellKnown then _ else _) _
      split
      · exact (PassesOn.note (by simp)).bind fun _ _ => .pure trivial
      · exact .throw rfl
  refine (passes_importsOf hs inOrder hx path).bind fun imports _ => ?_
  exact (PassesOn.mapM fun imported _ => target imported).bind fun _ _ => .pure trivial

theorem passes_importedIdentities : PassesOn g (s.importedIdentities access x) fun _ => True := by
  refine (Module.passes_protoPaths hs hx inOrder).bind fun paths _ => ?_
  exact (PassesOn.mapM fun path _ => passes_importedByFile hs inOrder hx path).bind fun _ _ =>
    .pure trivial

omit hx in
theorem passes_reach (queue unvisited reached : List Module) (hq : ∀ x ∈ queue, x ∈ s.modules)
    (hu : ∀ x ∈ unvisited, x ∈ s.modules) :
    PassesOn g (s.reach access queue unvisited reached) fun _ => True := by
  induction queue, unvisited, reached using reach.induct with
  | case1 unvisited reached =>
    rw [reach]
    exact .pure trivial
  | case2 unvisited reached x queue ih =>
    rw [reach]
    obtain ⟨hx, hqueue⟩ := List.forall_mem_cons.1 hq
    refine (passes_importedIdentities hs inOrder hx).bind fun found _ => ?_
    apply ih found
    · intro y hy
      exact (List.mem_append.1 hy).elim (hqueue y) fun h => hu y (mem_divide_left.1 h).1
    · intro y hy
      exact hu y (mem_divide_right.1 hy).1

theorem passes_dependencies : PassesOn g (s.dependencies access x) fun ds =>
    ∀ d ∈ ds, d.module ∈ s.modules := by
  have numbered : AreNumbered g.sets := fun _ hs _ ht => inOrder.eq_of_number hs ht
  have asks := asks_dependencies hs hx numbered
  refine PassesOn.of_asks (.remember asks ?_) asks
  have direct : PassesOn g (s.imported access x) fun found => ∀ y ∈ found, y ∈ s.modules := by
    refine (passes_importedIdentities hs inOrder hx).bind fun identities _ => .pure fun y hy => ?_
    exact (List.mem_filter.1 hy).1
  refine direct.bind fun direct hdirect => ?_
  refine (passes_reach hs inOrder direct _ direct hdirect fun y hy => ?_).bind fun _ _ =>
    .pure trivial
  exact (List.mem_filter.1 hy).1

omit hx in
theorem passes_checkNoCycle {ds : List Dependency} (hd : ∀ d ∈ ds, d.module ∈ s.modules) :
    PassesOn g (s.checkNoCycle access x ds) fun _ => True := by
  induction ds with
  | nil => exact .pure trivial
  | cons d rest ih =>
    obtain ⟨hmem, hrest⟩ := List.forall_mem_cons.1 hd
    have rest : PassesOn g (s.checkNoCycle access x rest) fun _ => True := ih hrest
    unfold checkNoCycle
    split
    · refine (passes_dependencies hs inOrder hmem).bind fun back _ => ?_
      split
      · exact (PassesOn.throw rfl).bind fun _ (_ : True) => rest
      · exact rest
    · exact rest

end ModuleSet

/-! ## Digests -/

theorem Digest.isClean_b5 (files : List (String × ByteArray)) (digests : List Digest) :
    IsClean (Digest.b5 files digests) := by
  unfold Digest.b5
  split
  · exact .error rfl
  · exact .ok _

theorem ModuleKey.isClean_make (name : FullName) (commit : CommitId) (origin : DigestOrigin) :
    IsClean (ModuleKey.make name commit origin) := by
  unfold ModuleKey.make
  split
  · exact .ok _
  · exact .error rfl

theorem Registry.isClean_requiredName (x : Module) : IsClean (requiredName x) := by
  unfold requiredName
  split
  · exact .ok _
  · exact .error rfl

theorem Registry.isClean_pin (r : Registry) (x : Module) (name : FullName) (digest : Digest) :
    IsClean (r.pin x name digest) := by
  unfold Registry.pin
  split
  · split
    · exact .error rfl
    · split
      · exact .ok _
      · exact .error rfl
  · exact .ok _

section Digests

open ModuleSet

variable (inOrder : SetsInOrder g.disk g.loads g.sets)

theorem ModuleKey.passes_digestBy {key : ModuleKey} {number : Nat}
    (known : key.IsKnown g.disk g.loads number)
    {ofModule : Nat → String → DigestType → SessionM Digest}
    (h : ∀ number identity type, PassesOn g (ofModule number identity type) fun _ => True) :
    PassesOn g (key.digestBy access ofModule) fun _ => True := by
  unfold ModuleKey.digestBy
  split
  · exact .pure trivial
  · next n load origin =>
    simp only [ModuleKey.IsKnown, origin] at known
    refine .remember (Runs.remember ((Asks.load rfl _).runs (.nil _ _))) ?_
    refine (PassesOn.load (by simp) fun σ hσ loaded e failed => ?_).mono fun _ _ => trivial
    refine .digest loaded ?_
    change load σ.disk = _ at failed
    rwa [hσ.disk_eq, known] at failed
  · exact h _ _ _

namespace ModuleSet

theorem passes_earlierDigest {s : ModuleSet} {identity : String} {type : DigestType}
    {t : Option ModuleSet} (ht : ∀ u ∈ t, u ∈ g.sets)
    (h : ∀ u ∈ g.sets, u.number < s.number → ∀ y ∈ u.modules,
      PassesOn g (u.digestWithin access (others u.identities identity) y type) fun _ => True) :
    PassesOn g (s.earlierDigest access identity type t) fun _ => True := by
  cases t with
  | none => exact .throw rfl
  | some u =>
    have hu := ht u rfl
    unfold earlierDigest
    dsimp only
    split
    · next earlier =>
      split
      · next y found => exact h u hu earlier y (List.mem_of_find?_eq_some found)
      · exact .throw rfl
    · exact .throw rfl

include inOrder

theorem passes_digestWithin (s : ModuleSet) (idle : List String) (x : Module) (type : DigestType)
    (hs : s ∈ g.sets) (hx : x ∈ s.modules) :
    PassesOn g (s.digestWithin access idle x type) fun _ => True := by
  induction s, idle, x, type using digestWithin.induct with
  | case1 s idle x type ih ih' =>
    have numbered : AreNumbered g.sets := fun _ hs _ ht => inOrder.eq_of_number hs ht
    have asks := asks_digestWithin numbered s idle x type hs hx
    rw [digestWithin_eq] at asks ⊢
    refine .remember asks ?_
    have contents := Module.passes_contents hs hx inOrder
    cases type with
    | b4 =>
      refine (Module.passes_yaml hs hx).bind fun yaml _ => ?_
      refine (Module.passes_lock hs hx).bind fun lock _ => ?_
      exact contents.bind fun _ _ => .pure trivial
    | b5 =>
      rw [soughtDigest]
      split
      · refine (passes_dependencies hs inOrder hx).bind fun ds hds => ?_
        refine (passes_checkNoCycle hs inOrder hds).bind fun _ _ => ?_
        have ofDependency : ∀ d ∈ ds,
            PassesOn g (s.dependencyDigest access idle d) fun _ => True := by
          intro d hd
          unfold dependencyDigest
          split
          · next isIdle => exact ih d isIdle hs (hds d hd)
          · exact .throw rfl
        refine (PassesOn.mapM ofDependency).bind fun digests _ => ?_
        exact contents.bind fun files _ => .ofClean (Digest.isClean_b5 files digests)
      · next remote =>
        refine (Module.passes_declaredKeys hs hx inOrder (Bool.not_eq_true _ ▸ remote)).bind
          fun keys known => ?_
        have ofKey : ∀ key ∈ sortedByName keys,
            PassesOn g (s.keyDigest access key) fun _ => True := by
          intro key hkey
          refine ModuleKey.passes_digestBy (known key (List.mem_mergeSort.1 hkey)) ?_
          intro number identity type
          refine (PassesOn.findSet number).bind fun t ht => ?_
          exact passes_earlierDigest ht fun u hu earlier y hy => ih' _ _ _ earlier _ hu hy
        refine (PassesOn.mapM ofKey).bind fun digests _ => ?_
        exact contents.bind fun files _ => .ofClean (Digest.isClean_b5 files digests)

theorem passes_digest {s : ModuleSet} (hs : s ∈ g.sets) {x : Module} (hx : x ∈ s.modules)
    (type : DigestType) : PassesOn g (s.digest access x type) fun _ => True :=
  passes_digestWithin inOrder s _ x type hs hx

end ModuleSet

include inOrder

theorem ModuleKey.passes_digest {key : ModuleKey} {number : Nat}
    (known : key.IsKnown g.disk g.loads number) :
    PassesOn g (key.digest access) fun _ => True := by
  rw [ModuleKey.digest_eq]
  refine ModuleKey.passes_digestBy known fun number identity type =>
    (PassesOn.findSet number).bind fun t ht => ?_
  cases t with
  | none => exact .throw rfl
  | some s =>
    unfold digestOfFound
    dsimp only
    split
    · next x found =>
      exact ModuleSet.passes_digest inOrder (ht s rfl) (List.mem_of_find?_eq_some found) type
    · exact .throw rfl

/-! ## Publishing -/

theorem Registry.passes_push (r : Registry) (fresh : CommitId) {s : ModuleSet} (hs : s ∈ g.sets)
    {x : Module} (hx : x ∈ s.modules) :
    PassesOn g (r.push fresh s access x) fun _ => True := by
  have pinned : ∀ d : Dependency, d.module ∈ s.modules →
      PassesOn g (r.pinnedKey s access d) fun _ => True := by
    intro d hd
    refine (PassesOn.ofClean (isClean_requiredName _)).bind fun name _ => ?_
    refine (ModuleSet.passes_digest inOrder hs hd .b5).bind fun digest _ => ?_
    refine (PassesOn.ofClean (r.isClean_pin _ _ _)).bind fun commit _ => ?_
    exact .ofClean (ModuleKey.isClean_make _ _ _)
  have snapshot : PassesOn g (r.snapshot s access x) fun _ => True := by
    refine (PassesOn.ofClean (isClean_requiredName _)).bind fun name _ => ?_
    refine (Module.passes_contents hs hx inOrder).bind fun files _ => ?_
    refine (passes_dependencies hs inOrder hx).bind fun ds hds => ?_
    refine (PassesOn.mapM fun d hd => pinned d (hds d hd)).bind fun keys _ => ?_
    refine (Module.passes_yaml hs hx).bind fun yaml _ => ?_
    refine (Module.passes_lock hs hx).bind fun lock _ => ?_
    refine (ModuleSet.passes_digest inOrder hs hx .b4).bind fun b4 _ => ?_
    exact (ModuleSet.passes_digest inOrder hs hx .b5).bind fun b5 _ => .pure trivial
  refine snapshot.bind fun stored _ => ?_
  refine PassesOn.bind (.ofClean (ModuleKey.isClean_make _ _ _)) fun key _ => .pure trivial

/-! ## Operations -/

/-- Whether an operation is offered to whoever has a set: declared keys are, of remote modules alone. -/
def Operation.IsOffered : Operation → Prop
  | .declaredKeys x => x.isLocal = false
  | _ => True

theorem ModuleSet.passes_run {s : ModuleSet} (hs : s ∈ g.sets) {op : Operation} (hop : op.IsOn s)
    (offered : op.IsOffered) : PassesOn g (op.run s access) fun _ => True := by
  cases op with
  | digest x type => exact passes_digest inOrder hs hop type
  | dependencies x => exact (passes_dependencies hs inOrder hop).mono fun _ _ => trivial
  | directDependencies x => exact (passes_dependencies hs inOrder hop).map fun _ _ => trivial
  | provider path => exact passes_provider hs inOrder path
  | fileInfos x => exact (Module.passes_fileIndex hs hop inOrder).map fun _ => id
  | targetFileInfos x =>
    exact PassesOn.map ((Module.passes_fileIndex hs hop inOrder).map fun _ => id) fun _ => id
  | filePaths x => exact Module.passes_filePaths hs hop inOrder
  | protoPaths x => exact Module.passes_protoPaths hs hop inOrder
  | visitFiles x visit =>
    exact PassesOn.map ((Module.passes_fileIndex hs hop inOrder).map fun _ => id) fun _ => id
  | stat x path => exact Module.passes_stat hs hop inOrder path
  | hasProto x path => exact Module.passes_hasProto hs hop inOrder path
  | read x path => exact (Module.passes_read hs hop inOrder path).mono fun _ _ => trivial
  | contents x => exact Module.passes_contents hs hop inOrder
  | yaml x => exact Module.passes_yaml hs hop
  | lock x => exact Module.passes_lock hs hop
  | declaredKeys x =>
    exact (Module.passes_declaredKeys hs hop inOrder offered).mono fun _ _ => trivial

end Digests

end ProtoWorkspace
