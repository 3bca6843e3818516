import Mathlib.Tactic
import ProtoWorkspace.Proofs.Access.Plain
import ProtoWorkspace.Proofs.Session.Passages

/-!
# The ways to answers

For each question, what is used on the way to it. The search for the digest of a module reads each file
of the module once, and goes to other modules by asking for their digests.
-/

namespace ProtoWorkspace

open Fallible

open Session (access)

variable {sets : List ModuleSet}

namespace Module

variable {s : ModuleSet} (hs : s ∈ sets) {x : Module} (hx : x ∈ s.modules)

include hs hx

theorem asks_openBucket : Asks sets (x.openBucket access) fun _ => True :=
  Runs.remember <| (Runs.load rfl _).mono (fun _ _ => trivial) fun _ h =>
    .of_sublist_singleton h (.bucket hs hx)

theorem asks_yaml : Asks sets (x.yaml access) fun _ => True :=
  Runs.remember <| (Runs.load rfl _).mono (fun _ _ => trivial) fun _ h =>
    .of_sublist_singleton h (.yaml hs hx)

theorem asks_lock : Asks sets (x.lock access) fun _ => True :=
  Runs.remember <| (Runs.load rfl _).mono (fun _ _ => trivial) fun _ h =>
    .of_sublist_singleton h (.lock hs hx)

theorem asks_declaredKeys : Asks sets (x.declaredKeys access) fun _ => True :=
  Runs.remember <| (Runs.load rfl _).mono (fun _ _ => trivial) fun _ h =>
    .of_sublist_singleton h (.declaredKeys hs hx)

/-- The files that are found have different paths. -/
theorem asks_fileIndex :
    Asks sets (x.fileIndex access) fun entries => (entries.map FileEntry.path).Nodup := by
  refine Runs.remember ?_
  refine (asks_openBucket hs hx).bind_runs (fun bucket _ => ?_) (.nil _ _)
  refine Asks.disk.bind_runs (fun disk _ => ?_) (.nil _ _)
  refine Runs.mono ?_ (fun _ => id) fun _ h => .of_sublist_singleton h (.fileIndex hs hx)
  refine Runs.bind_asks (Runs.note rfl) fun _ _ => Asks.ofExcept fun entries made => ?_
  obtain ⟨-, rfl, -⟩ := indexOfListing_eq_ok.1 made
  have sorted := pairwise_moduleEntries (bucket.list disk).paths
  exact List.pairwise_map.2 (sorted.imp fun less => ne_of_lt less)

theorem asks_filePaths : Asks sets (x.filePaths access) List.Nodup :=
  (asks_fileIndex hs hx).map fun _ => id

theorem asks_protoPaths : Asks sets (x.protoPaths access) fun _ => True :=
  (asks_fileIndex hs hx).bind fun _ _ => .pure trivial

theorem asks_hasProto (path : String) : Asks sets (x.hasProto access path) fun _ => True :=
  (asks_fileIndex hs hx).bind fun _ _ => .pure trivial

theorem runs_read (path : String) :
    Runs sets (x.read access path) (fun _ => True) (·.Sublist [⟨x.source, .file path⟩]) := by
  refine (asks_fileIndex hs hx).bind_runs (fun entries _ => ?_) (List.nil_sublist _)
  split
  · refine (asks_openBucket hs hx).bind_runs (fun bucket _ => ?_) (List.nil_sublist _)
    refine Runs.bind_asks (Runs.note rfl) fun _ _ => Asks.disk.bind fun disk _ => ?_
    exact .ofExcept fun _ _ => trivial
  · exact (Asks.throw _).runs (List.nil_sublist _)

theorem runs_readAll (paths : List String) :
    Runs sets (paths.mapM fun path => do return (path, ← x.read access path)) (fun _ => True)
      (·.Sublist (paths.map fun path => ⟨x.source, .file path⟩).reverse) := by
  induction paths with
  | nil => exact (Asks.pure trivial).runs (List.nil_sublist _)
  | cons path paths ih =>
    have first : Runs sets (do return (path, ← x.read access path)) (fun _ => True)
        (·.Sublist [⟨x.source, .file path⟩]) :=
      (runs_read hs hx path).bind_asks fun _ _ => .pure trivial
    rw [List.mapM_cons, List.map_cons, List.reverse_cons]
    refine first.bind (fun _ _ => ih.bind_asks fun _ _ => .pure trivial) ?_ ?_
    · intro own h
      exact h.trans (List.sublist_append_right _ _)
    · intro own own' h h'
      exact h'.append h

/-- Each file of a module is read once at most, and no other file. -/
theorem runs_contents : Runs sets (x.contents access) (fun _ => True) fun own =>
    own.Nodup ∧ ∀ use ∈ own, ∃ path, use = ⟨x.source, .file path⟩ := by
  refine (asks_filePaths hs hx).bind_runs (fun paths distinct => ?_) ⟨List.nodup_nil, by simp⟩
  refine (runs_readAll hs hx paths).mono (fun _ => id) fun own h => ⟨h.nodup ?_, ?_⟩
  · refine List.nodup_reverse.2 (distinct.map fun path path' same => ?_)
    rw [Use.mk.injEq, Input.file.injEq] at same
    exact same.2
  · intro use hu
    obtain ⟨path, -, rfl⟩ := List.mem_map.1 (List.mem_reverse.1 (h.subset hu))
    exact ⟨path, rfl⟩

theorem runs_contents_files :
    Runs sets (x.contents access) (fun _ => True) (AreFiles sets) := by
  refine (runs_contents hs hx).mono (fun _ => id) fun own h use hu => ?_
  exact ⟨s, hs, x, hx, h.2 use hu⟩

end Module

namespace ModuleSet

variable {s : ModuleSet} (hs : s ∈ sets)

section Imports

include hs

theorem asks_providersAmong (path : String) {modules : List Module}
    (hm : ∀ x ∈ modules, x ∈ s.modules) :
    Asks sets (providersAmong access path modules) fun _ => True := by
  induction modules with
  | nil => exact .pure trivial
  | cons x rest ih =>
    obtain ⟨hx, hrest⟩ := List.forall_mem_cons.1 hm
    exact (Module.asks_hasProto hs hx path).bind fun _ _ => (ih hrest).bind fun _ _ => .pure trivial

theorem asks_provider (path : String) : Asks sets (s.provider access path) fun _ => True := by
  have sole (providers : List Module) :
      Asks sets (soleProvider path providers : SessionM _) fun _ => True := by
    unfold soleProvider
    split
    · exact .pure trivial
    · exact .pure trivial
    · exact .throw _
  have all := asks_providersAmong hs path fun _ => id
  exact Runs.remember ((all.bind fun providers _ => sole providers).runs (.nil _ _))

variable {x : Module} (hx : x ∈ s.modules)

include hx

theorem asks_importsOf (path : String) : Asks sets (s.importsOf access x path) fun _ => True := by
  have parses (data : ByteArray) : Asks sets (s.parseImports access path data) fun _ => True := by
    have result : Asks sets (MonadExcept.ofExcept (s.parser.parse path data) : SessionM _)
        fun _ => True := .ofExcept fun _ _ => trivial
    unfold parseImports
    cases s.parser.number with
    | none => exact result
    | some parser => exact (Asks.note rfl).bind fun _ _ => result
  refine Runs.remember (Runs.mono ?_ (fun _ => id) fun _ h =>
    .of_sublist_singleton h (.imports hs hx path))
  exact (Module.runs_read hs hx path).bind_asks fun data _ => parses data

theorem asks_importedByFile (path : String) :
    Asks sets (s.importedByFile access x path) fun _ => True := by
  have target (imported : String) : Asks sets (s.importTarget access x path imported)
      fun _ => True := by
    refine (asks_provider hs imported).bind fun provider _ => ?_
    cases provider with
    | some y => exact .pure trivial
    | none =>
      change Asks sets (if imported ∈ Imports.wellKnown then _ else _) _
      split
      · exact (Asks.note rfl).bind fun _ _ => .pure trivial
      · exact .throw _
  refine (asks_importsOf hs hx path).bind fun imports _ => ?_
  exact (Asks.mapM fun imported _ => target imported).bind fun _ _ => .pure trivial

theorem asks_importedIdentities : Asks sets (s.importedIdentities access x) fun _ => True := by
  refine (Module.asks_protoPaths hs hx).bind fun paths _ => ?_
  exact (Asks.mapM fun path _ => asks_importedByFile hs hx path).bind fun _ _ => .pure trivial

omit hx in
theorem asks_reach (queue unvisited reached : List Module) (hq : ∀ x ∈ queue, x ∈ s.modules)
    (hu : ∀ x ∈ unvisited, x ∈ s.modules) (hr : ∀ x ∈ reached, x ∈ s.modules) :
    Asks sets (s.reach access queue unvisited reached) fun found => ∀ x ∈ found, x ∈ s.modules := by
  induction queue, unvisited, reached using reach.induct with
  | case1 unvisited reached =>
    rw [reach]
    exact .pure hr
  | case2 unvisited reached x queue ih =>
    rw [reach]
    obtain ⟨hx, hqueue⟩ := List.forall_mem_cons.1 hq
    refine (asks_importedIdentities hs hx).bind fun found _ => ?_
    have parts : ∀ y, y ∈ (divide unvisited found).1 ∨ y ∈ (divide unvisited found).2 →
        y ∈ s.modules := by
      intro y hy
      rw [divide, List.partition_eq_filter_filter] at hy
      simp only [List.mem_filter] at hy
      exact hu y (hy.elim And.left And.left)
    apply ih found
    · intro y hy
      exact (List.mem_append.1 hy).elim (hqueue y) fun h => parts y (.inl h)
    · intro y hy
      exact parts y (.inr hy)
    · intro y hy
      exact (List.mem_append.1 hy).elim (hr y) fun h => parts y (.inl h)

end Imports

/-- Whether sets differ in their numbers. -/
def AreNumbered (sets : List ModuleSet) : Prop :=
  ∀ s ∈ sets, ∀ t ∈ sets, s.number = t.number → s = t

variable {x : Module} (hx : x ∈ s.modules) (numbered : AreNumbered sets)

include hs hx numbered

/-- The dependencies that are found are modules of the set. -/
theorem asks_dependencies :
    Asks sets (s.dependencies access x) fun ds => ∀ d ∈ ds, d.module ∈ s.modules := by
  have asked : Asks sets (s.dependencies access x)
      (IsInOrder sets (.dependencies s.number x.identity)) := by
    refine Runs.remember (Asks.runs ?_ (.nil _ _))
    have direct : Asks sets (s.imported access x) fun found => ∀ y ∈ found, y ∈ s.modules := by
      refine (asks_importedIdentities hs hx).bind fun identities _ => .pure fun y hy => ?_
      exact (List.mem_filter.1 hy).1
    refine direct.bind fun direct hdirect => ?_
    refine (asks_reach hs direct _ direct hdirect (fun y hy => (List.mem_filter.1 hy).1)
      hdirect).bind fun reached hreached => .pure ⟨s, hs, rfl, fun d hd => ?_⟩
    obtain ⟨y, hy, rfl⟩ := List.mem_map.1 hd
    exact hreached y (List.mem_mergeSort.1 hy)
  refine asked.mono ?_
  rintro ds ⟨t, ht, number, inside⟩
  rwa [numbered t ht s hs number] at inside

omit hx in
theorem asks_checkNoCycle {ds : List Dependency} (hd : ∀ d ∈ ds, d.module ∈ s.modules) :
    Asks sets (s.checkNoCycle access x ds) fun _ => True := by
  induction ds with
  | nil => exact .pure trivial
  | cons d rest ih =>
    obtain ⟨hmem, hrest⟩ := List.forall_mem_cons.1 hd
    have rest : Asks sets (s.checkNoCycle access x rest) fun _ => True := ih hrest
    unfold checkNoCycle
    split
    · refine (asks_dependencies hs hmem numbered).bind fun back _ => ?_
      split
      · exact (Asks.throw _).bind fun _ (_ : True) => rest
      · exact rest
    · exact rest

omit numbered in
/-- On the way to a digest of the module, its files are read. -/
theorem runs_contents_lawful (type : DigestType) : Runs sets (x.contents access) (fun _ => True)
    (Lawful sets (.digest s.number x.identity type)) := by
  refine (Module.runs_contents hs hx).mono (fun _ => id) fun own h => ⟨h.1, fun use hu => ?_⟩
  obtain ⟨path, rfl⟩ := h.2 use hu
  exact .digest hs hx type path

end ModuleSet

section Digests

open ModuleSet

theorem ModuleKey.asks_digestBy (key : ModuleKey)
    {ofModule : Nat → String → DigestType → SessionM Digest}
    (h : ∀ number identity type, Asks sets (ofModule number identity type) fun _ => True) :
    Asks sets (key.digestBy access ofModule) fun _ => True := by
  unfold ModuleKey.digestBy
  split
  · exact .pure trivial
  · exact Runs.remember ((Asks.load rfl _).runs (.nil _ _))
  · exact h _ _ _

variable (numbered : AreNumbered sets)

namespace ModuleSet

theorem asks_earlierDigest {s : ModuleSet} {identity : String} {type : DigestType}
    {t : Option ModuleSet} (ht : ∀ u ∈ t, u ∈ sets)
    (h : ∀ u ∈ sets, u.number < s.number → ∀ y ∈ u.modules,
      Asks sets (u.digestWithin access (others u.identities identity) y type) fun _ => True) :
    Asks sets (s.earlierDigest access identity type t) fun _ => True := by
  cases t with
  | none => exact .throw _
  | some u =>
    have hu := ht u rfl
    unfold earlierDigest
    dsimp only
    split
    · next earlier =>
      split
      · next y found => exact h u hu earlier y (List.mem_of_find?_eq_some found)
      · exact .throw _
    · exact .throw _

include numbered

theorem asks_digestWithin (s : ModuleSet) (idle : List String) (x : Module) (type : DigestType)
    (hs : s ∈ sets) (hx : x ∈ s.modules) :
    Asks sets (s.digestWithin access idle x type) fun _ => True := by
  induction s, idle, x, type using digestWithin.induct with
  | case1 s idle x type ih ih' =>
    rw [digestWithin_eq]
    have contents := runs_contents_lawful hs hx type
    have empty := Lawful.nil sets (.digest s.number x.identity type)
    refine Runs.remember ?_
    cases type with
    | b4 =>
      refine (Module.asks_yaml hs hx).bind_runs (fun yaml _ => ?_) empty
      refine (Module.asks_lock hs hx).bind_runs (fun lock _ => ?_) empty
      exact contents.bind_asks fun _ _ => .pure trivial
    | b5 =>
      rw [soughtDigest]
      split
      · refine (asks_dependencies hs hx numbered).bind_runs (fun ds hds => ?_) empty
        refine (asks_checkNoCycle hs numbered hds).bind_runs (fun _ _ => ?_) empty
        have ofDependency : ∀ d ∈ ds, Asks sets (s.dependencyDigest access idle d) fun _ => True := by
          intro d hd
          unfold dependencyDigest
          split
          · next isIdle => exact ih d isIdle hs (hds d hd)
          · exact .throw _
        refine (Asks.mapM ofDependency).bind_runs (fun digests _ => ?_) empty
        exact contents.bind_asks fun _ _ => .ofExcept fun _ _ => trivial
      · refine (Module.asks_declaredKeys hs hx).bind_runs (fun keys _ => ?_) empty
        have ofKey (key : ModuleKey) : Asks sets (s.keyDigest access key) fun _ => True := by
          refine key.asks_digestBy fun number identity type => ?_
          refine (Asks.findSet number).bind fun t ht => ?_
          exact asks_earlierDigest ht fun u hu earlier y hy => ih' _ _ _ earlier _ hu hy
        refine (Asks.mapM fun key _ => ofKey key).bind_runs (fun digests _ => ?_) empty
        exact contents.bind_asks fun _ _ => .ofExcept fun _ _ => trivial

theorem asks_digest {s : ModuleSet} (hs : s ∈ sets) {x : Module} (hx : x ∈ s.modules)
    (type : DigestType) : Asks sets (s.digest access x type) fun _ => True :=
  asks_digestWithin numbered s _ x type hs hx

end ModuleSet

include numbered

theorem ModuleKey.asks_digest (key : ModuleKey) : Asks sets (key.digest access) fun _ => True := by
  rw [ModuleKey.digest_eq]
  refine key.asks_digestBy fun number identity type => (Asks.findSet number).bind fun t ht => ?_
  cases t with
  | none => exact .throw _
  | some s =>
    unfold digestOfFound
    dsimp only
    split
    · next x found =>
      exact ModuleSet.asks_digest numbered (ht s rfl) (List.mem_of_find?_eq_some found) type
    · exact .throw _

/-- Publishing a module reads its files, once each. -/
theorem Registry.runs_push (r : Registry) (fresh : CommitId) {s : ModuleSet} (hs : s ∈ sets)
    {x : Module} (hx : x ∈ s.modules) :
    Runs sets (r.push fresh s access x) (fun _ => True) (AreFiles sets) := by
  have pinned (d : Dependency) (hd : d.module ∈ s.modules) :
      Asks sets (r.pinnedKey s access d) fun _ => True := by
    refine Asks.bind (.ofExcept fun _ _ => trivial) fun name (_ : True) => ?_
    refine (ModuleSet.asks_digest numbered hs hd .b5).bind fun digest _ => ?_
    refine Asks.bind (.ofExcept fun _ _ => trivial) fun commit (_ : True) => ?_
    exact .ofExcept fun _ _ => trivial
  have snapshot : Runs sets (r.snapshot s access x) (fun _ => True) (AreFiles sets) := by
    refine Asks.bind_runs (.ofExcept fun _ _ => trivial) (fun name (_ : True) => ?_) (.nil _)
    refine (Module.runs_contents_files hs hx).bind_asks fun files _ => ?_
    refine (asks_dependencies hs hx numbered).bind fun ds hds => ?_
    refine (Asks.mapM fun d hd => pinned d (hds d hd)).bind fun keys _ => ?_
    refine (Module.asks_yaml hs hx).bind fun yaml _ => (Module.asks_lock hs hx).bind fun lock _ => ?_
    refine (ModuleSet.asks_digest numbered hs hx .b4).bind fun b4 _ => ?_
    exact (ModuleSet.asks_digest numbered hs hx .b5).bind fun b5 _ => .pure trivial
  refine snapshot.bind_asks fun stored _ => ?_
  exact Asks.bind (.ofExcept fun _ _ => trivial) fun key (_ : True) => .pure trivial

end Digests

end ProtoWorkspace
