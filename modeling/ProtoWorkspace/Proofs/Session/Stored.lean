import ProtoWorkspace.Proofs.Disk.Tree
import ProtoWorkspace.Proofs.Session.Marks
import ProtoWorkspace.Proofs.Session.Relocated
import ProtoWorkspace.Proofs.Session.Twins

/-!
# Where files are stored

The files of a module may be read from a folder or be stored in a table in memory. Nothing that is told of
a module shows which of the two it is, nor which files there are beside those that belong to the module.
-/

namespace ProtoWorkspace

open Fallible ModuleSet

/-- Whether the second addition is the first one, or has its files in a table where the first one has them
in a folder. The table has the module files of the tree of files in the folder; either may have any other
files. -/
inductive Addition.IsStored (disk : Disk) : Addition → Addition → Prop
  | same (a : Addition) : IsStored disk a a
  | stored {a : Addition} {bucket : Supply Bucket} {root : String} {place : List String}
      {table : FileTable} (folder : a.inputs.bucket.on disk = .ok (.folder root))
      (tree : disk.HasTree root place) (memory : bucket.on disk = .ok (.memory table))
      (files : table.HoldsModuleFiles disk place) : IsStored disk a (a.movedTo bucket)

theorem Addition.IsStored.isMoved {disk : Disk} {a b : Addition} (h : a.IsStored disk b) :
    a.IsMoved disk b := by
  cases h with
  | same => exact .refl disk a
  | stored folder tree memory files =>
    refine ⟨rfl, ?_⟩
    rw [folder]
    exact memory ▸ .ok (tree.showsSame files)

namespace Module.IsMoved

variable {disk : Disk} {x y : Module} (h : x.IsMoved disk y)

include h

theorem areTwins : x.AreTwins disk y where
  identity := by rw [h.eq]; rfl
  description := by rw [h.eq]; rfl
  bucket := h.bucket
  isLocal := by rw [h.eq]; rfl
  yaml := by rw [h.eq]; rfl
  lock := by rw [h.eq]; rfl
  keys := by rw [h.eq]; rfl

theorem infoOf (entry : FileEntry) : y.infoOf entry = x.infoOf entry := by
  rw [h.eq]
  rfl

end Module.IsMoved

namespace Session

variable {loads : Nat → Except Error Digest} {σ : Session} {s t : ModuleSet} {x y : Module}

/-- Whether what one session tells of a module is what another one tells of a second module, apart from
where their dependencies lead to. -/
structure TellsSame (σ τ : Session) (s t : ModuleSet) (x y : Module) : Prop where
  identity : y.identity = x.identity
  fileInfos : τ.outcome (y.fileInfos access) = σ.outcome (x.fileInfos access)
  read (path : String) : τ.outcome (y.read access path) = σ.outcome (x.read access path)
  digest_b4 : τ.outcome (t.digest access y .b4) = σ.outcome (s.digest access x .b4)

/-- Whether two sessions tell the same of what two modules depend on. The dependencies of the one are the
counterparts of those of the other. -/
structure TellsSameDependencies (σ τ : Session) (s t : ModuleSet) (x y : Module) : Prop where
  dependencies : τ.outcome (t.dependencies access y) =
    List.map (Dependency.image t.counterpart) <$> σ.outcome (s.dependencies access x)
  digest_b5 : τ.outcome (t.digest access y .b5) = σ.outcome (s.digest access x .b5)

namespace Reachable

/-- Where files with the same mark import the same, a digest is that of looking everything up anew. -/
theorem outcome_digest_of_marks (h : Reachable loads σ) (marks : ∀ u ∈ σ.sets, u.HasTrueMarks σ.disk)
    (hs : s ∈ σ.sets) (hx : x ∈ s.modules) (type : DigestType) :
    σ.outcome (s.digest access x type) = s.digest (.direct σ.disk σ.sets) x type :=
  (h.follows_directWorld_of_marks marks (.digest hs hx type)
    (.digest h.isSound_directWorld hs (h.setsInOrder.number_lt hs) hx)).2

variable (h : Reachable loads σ) (hs : s ∈ σ.sets) (ht : t ∈ σ.sets)

include h hs ht

theorem tellsSame (moved : x.IsMoved σ.disk y) (hx : x ∈ s.modules) (hy : y ∈ t.modules) :
    TellsSame σ σ s t x y where
  identity := moved.areTwins.identity.symm
  fileInfos := by
    rw [h.outcome_fileInfos hs hx, h.outcome_fileInfos ht hy, moved.areTwins.indexOn]
    refine congrArg (fun f => List.map f <$> y.indexOn σ.disk) (funext fun entry => ?_)
    exact moved.infoOf entry
  read path := by
    obtain ⟨io, plain, -, outcome⟩ := h.exists_plain_run hs (.read x path) hx
    obtain ⟨io', plain', -, outcome'⟩ := h.exists_plain_run ht (.read y path) hy
    exact outcome'.trans ((moved.areTwins.read plain plain' path).symm.trans outcome.symm)
  digest_b4 := by
    obtain ⟨io, plain, -, outcome⟩ := h.exists_plain_run hs (.digest x .b4) hx
    obtain ⟨io', plain', -, outcome'⟩ := h.exists_plain_run ht (.digest y .b4) hy
    exact outcome'.trans ((moved.areTwins.digest_b4 plain plain').trans outcome.symm)

theorem tellsSameDependencies (marks : ∀ u ∈ σ.sets, u.HasTrueMarks σ.disk)
    (moved : List.Forall₂ (Module.IsMoved σ.disk) s.modules t.modules) (parser : s.parser = t.parser)
    (hx : x ∈ s.modules) : TellsSameDependencies σ σ s t x (t.counterpart x) := by
  have sound := h.isSound_directWorld
  have plain := sound.plain
  have modules := modules_eq_map_counterpart moved
  have hy := counterpart_mem moved hx
  have twins : ∀ z ∈ s.modules, z.AreTwins σ.disk (t.counterpart z) :=
    fun z hz => (isMoved_counterpart moved hz).areTwins
  have same : ∀ {α : Type} (tell : Module → α),
      (∀ z source bucket, tell (z.movedTo source bucket) = tell z) →
      ∀ z, tell (t.counterpart z) = tell z := by
    intro α tell kept z
    obtain ⟨source, bucket, hz⟩ := exists_counterpart_eq t z
    rw [hz, kept]
  have image : IsImage s t (.direct σ.disk σ.sets) (.direct σ.disk σ.sets) t.counterpart :=
    isImage_of_showsSame (same _ fun _ _ _ => rfl) (same _ fun _ _ _ => rfl)
      (fun z hz => (twins z hz).toShowsSame) modules parser
  have covers := coversImage_of_twins sound hs ht (same _ fun _ _ _ => rfl) twins modules
  refine ⟨?_, ?_⟩
  · rw [h.outcome_dependencies_of_marks hs (marks s hs) hx,
      h.outcome_dependencies_of_marks ht (marks t ht) hy]
    exact image.dependencies plain plain hx
  · rw [h.outcome_digest_of_marks marks hs hx, h.outcome_digest_of_marks marks ht hy]
    exact image.digest_b5 plain plain covers hx

end Reachable

section InStep

variable {r : Relocation} (hr : r.IsSound) {τ : Session} (h : r.OfSession σ τ) (hst : r.OfSet s t)
variable (hxy : r.OfModule x y)

include hr h hst hxy

/-- Sessions in step tell the same of a module and of what becomes of it. -/
theorem tellsSame_of_inStep : TellsSame σ τ s t x y where
  identity := hxy.identity
  fileInfos := (Relocation.InStep.fileInfos hr hxy σ τ h).1.eq.symm
  read path := (Relocation.InStep.read hr hxy path σ τ h).1.eq.symm
  digest_b4 := (Relocation.InStep.digest hr hst hxy .b4 σ τ h).1.eq.symm

theorem tellsSameDependencies_of_inStep (hτ : Reachable loads τ) (ht : t ∈ τ.sets)
    (hy : y ∈ t.modules) : TellsSameDependencies σ τ s t x y where
  dependencies := by
    have same := (Relocation.InStep.dependencies hr hst hxy σ τ h).1
    have inside : ∀ ds, τ.outcome (t.dependencies access y) = .ok ds → ∀ d ∈ ds, d.module ∈ t.modules :=
      fun ds hds d hd => hτ.mem_modules_of_dependencies ht hy hds hd
    change Agree _ (σ.outcome _) (τ.outcome _) at same
    generalize σ.outcome (s.dependencies access x) = outcome at same ⊢
    generalize τ.outcome (t.dependencies access y) = outcome' at same inside ⊢
    cases same with
    | error e => rfl
    | @ok ds ds' related =>
      have images : ds' = ds.map (Dependency.image t.counterpart) := by
        rw [← List.forall₂_eq_eq_eq, List.forall₂_map_right_iff, List.forall₂_iff_zip]
        obtain ⟨length, related⟩ := List.forall₂_iff_zip.1 related.flip
        refine ⟨length, fun {d' d} member => ?_⟩
        obtain ⟨module, isDirect⟩ := related member
        have mem := inside ds' rfl d' (List.of_mem_zip member).1
        rw [Dependency.image, ModuleSet.counterpart_eq module.isMoved mem, ← isDirect]
      rw [images]
      rfl
  digest_b5 := (Relocation.InStep.digest hr hst hxy .b5 σ τ h).1.eq.symm

end InStep

/-- An operation on a set is, on the counterparts of its modules, one on what becomes of the set. -/
theorem isOn_moved {r : Relocation} (hst : r.OfSet s t) {op : Operation} (hop : op.IsOn s) :
    (op.moved t.counterpart).IsOn t := by
  cases op with
  | provider path => trivial
  | _ => exact (hst.counterpart hop).2

/-- The session after a set was built and operations on it were done. -/
def builtAndAsked (σ : Session) (parser : ImportParser) (additions : List Addition) (s : ModuleSet)
    (ops : List Operation) : Session :=
  (σ.after (Session.build parser additions)).afterAll s ops

theorem Reachable.tellsSame_of_asked (h : Reachable loads σ) {parser : ImportParser}
    {additions additions' : List Addition}
    (known : ∀ a ∈ additions, ∀ keys, a.inputs.declaredKeys.on σ.disk = .ok keys →
      ∀ key ∈ keys, key.IsKnown σ.disk loads σ.sets.length)
    (moved : List.Forall₂ (Addition.IsMoved σ.disk) additions additions')
    (hs : σ.outcome (Session.build parser additions) = .ok s)
    (ht : σ.outcome (Session.build parser additions') = .ok t) {ops : List Operation}
    (hops : ∀ op ∈ ops, op.IsOn s) :
    List.Forall₂ (fun x y =>
      TellsSame (σ.builtAndAsked parser additions s ops)
          (σ.builtAndAsked parser additions' t (ops.map (Operation.moved t.counterpart))) s t x y ∧
        TellsSameDependencies (σ.builtAndAsked parser additions s ops)
          (σ.builtAndAsked parser additions' t (ops.map (Operation.moved t.counterpart))) s t x y)
      s.modules t.modules := by
  obtain ⟨hr, inStep⟩ := h.ofSession_build moved hs ht known
  have hst := ofSet_of_outcome moved hs ht
  have asked := inStep.afterAll hr hst (fun x hx => (hst.counterpart hx).1) hops
  have known' : ∀ a ∈ additions', ∀ keys, a.inputs.declaredKeys.on σ.disk = .ok keys →
      ∀ key ∈ keys, key.IsKnown σ.disk loads σ.sets.length := by
    intro b hb keys hkeys
    obtain ⟨a, ha, same⟩ := exists_of_mem_right moved hb
    rw [same.eq] at hkeys
    exact known a ha keys hkeys
  obtain ⟨hbuilt, -⟩ := build_of_outcome ht
  have mem := (outcome_build hbuilt).2
  have later : Reaches loads (σ.after (Session.build parser additions'))
      (σ.builtAndAsked parser additions' t (ops.map (Operation.moved t.counterpart))) := by
    refine reaches_afterAll mem fun op hop => ?_
    obtain ⟨before, hbefore, rfl⟩ := List.mem_map.1 hop
    exact isOn_moved hst (hops before hbefore)
  have reachable := (h.of_reaches (.single (.build σ parser additions' known'))).of_reaches later
  obtain ⟨length, modules⟩ := List.forall₂_iff_zip.1 hst.modules
  refine List.forall₂_iff_zip.2 ⟨length, fun {x y} member => ⟨?_, ?_⟩⟩
  · exact tellsSame_of_inStep hr asked hst (modules member)
  · exact tellsSameDependencies_of_inStep hr asked hst (modules member) reachable
      (later.before.sets.subset mem) (List.of_mem_zip member).2

theorem Reachable.tellsSame_of_built (h : Reachable loads σ) {parser : ImportParser}
    {additions additions' : List Addition}
    (moved : List.Forall₂ (Addition.IsMoved σ.disk) additions additions') (hs : s ∈ σ.sets)
    (ht : t ∈ σ.sets) (hbuilt : ModuleSet.build s.number parser additions = .ok s)
    (hbuilt' : ModuleSet.build t.number parser additions' = .ok t) :
    List.Forall₂ (TellsSame σ σ s t) s.modules t.modules ∧
      ((∀ u ∈ σ.sets, u.HasTrueMarks σ.disk) →
        List.Forall₂ (TellsSameDependencies σ σ s t) s.modules t.modules) := by
  have modules : List.Forall₂ (Module.IsMoved σ.disk) s.modules t.modules := by
    have agree : Agree (fun s t : ModuleSet => List.Forall₂ (Module.IsMoved σ.disk) s.modules t.modules)
        (ModuleSet.build s.number parser additions) (ModuleSet.build t.number parser additions') :=
      agree_build moved
    rw [hbuilt, hbuilt'] at agree
    cases agree with
    | ok related => exact related
  have parsers : s.parser = t.parser := (build_eq_ok hbuilt).2.1.trans (build_eq_ok hbuilt').2.1.symm
  have pairs : ∀ R : Module → Module → Prop, (∀ x ∈ s.modules, R x (t.counterpart x)) →
      List.Forall₂ R s.modules t.modules := by
    intro R hR
    rw [modules_eq_map_counterpart modules, List.forall₂_map_right_iff]
    exact List.forall₂_same.2 hR
  refine ⟨pairs _ fun x hx => ?_, fun marks => pairs _ fun x hx => ?_⟩
  · exact h.tellsSame hs ht (isMoved_counterpart modules hx) hx (counterpart_mem modules hx)
  · exact h.tellsSameDependencies hs ht marks modules parsers hx

end Session

/-- Two lists of additions are the same but that in the second one files of some modules are in a table
where in the first one they are in a folder; the table has the module files that the folder has. Both lists
can be built or neither. In two sessions that start alike, where the one builds the first list and the other
the second, and then the same is asked of both sets, modules at the same places have the same files and
digests, whichever path is asked for gives the same file or the same failure, and they have the same
dependencies. In one session that built both lists, and in which any other things were asked, all of this
holds too, except that dependencies and `b5` digests need that files with the same mark import the same. -/
theorem Session.Reachable.tells_same_of_stored {loads : Nat → Except Error Digest} {σ : Session}
    {parser : ImportParser} {additions additions' : List Addition} (h : Session.Reachable loads σ)
    (known : ∀ a ∈ additions, ∀ keys, a.inputs.declaredKeys.on σ.disk = .ok keys →
      ∀ key ∈ keys, key.IsKnown σ.disk loads σ.sets.length)
    (stored : List.Forall₂ (Addition.IsStored σ.disk) additions additions') :
    (∀ number number', Succeeds (ModuleSet.build number parser additions) ↔
      Succeeds (ModuleSet.build number' parser additions')) ∧
    (∀ s t, σ.outcome (Session.build parser additions) = .ok s →
      σ.outcome (Session.build parser additions') = .ok t → ∀ ops : List Operation,
      (∀ op ∈ ops, op.IsOn s) →
      List.Forall₂ (fun x y =>
        TellsSame (σ.builtAndAsked parser additions s ops)
            (σ.builtAndAsked parser additions' t (ops.map (Operation.moved t.counterpart))) s t x y ∧
          TellsSameDependencies (σ.builtAndAsked parser additions s ops)
            (σ.builtAndAsked parser additions' t (ops.map (Operation.moved t.counterpart))) s t x y)
        s.modules t.modules) ∧
    ∀ s ∈ σ.sets, ∀ t ∈ σ.sets, ModuleSet.build s.number parser additions = .ok s →
      ModuleSet.build t.number parser additions' = .ok t →
      List.Forall₂ (TellsSame σ σ s t) s.modules t.modules ∧
      ((∀ u ∈ σ.sets, u.HasTrueMarks σ.disk) →
        List.Forall₂ (TellsSameDependencies σ σ s t) s.modules t.modules) := by
  have moved := stored.imp fun _ _ => Addition.IsStored.isMoved
  refine ⟨fun _ _ => (agree_build moved).succeeds_iff, ?_, ?_⟩
  · intro s t hs ht ops hops
    exact h.tellsSame_of_asked known moved hs ht hops
  · intro s hs t ht hbuilt hbuilt'
    exact h.tellsSame_of_built moved hs ht hbuilt hbuilt'

namespace Sample

/-! A folder with two Protobuf files and another file, and a table with the same two files and one of its
own. Of the two files the folder lists first the one that comes second in the table. -/

def storedDisk : Disk where
  files := [(["m", "a.proto"], ⟨#[]⟩), (["m", "a", "c.proto"], ⟨#[1]⟩), (["m", "notes.txt"], ⟨#[2]⟩)]
  folders := [["m"], ["m", "a"]]

def storedTable : FileTable :=
  ⟨[("a.proto", ⟨#[]⟩), ("a/c.proto", ⟨#[1]⟩), ("todo.txt", ⟨#[3]⟩)]⟩

theorem mem_of_lookup {α β : Type} [BEq α] [LawfulBEq α] {entries : List (α × β)} {a : α} {b : β}
    (h : entries.lookup a = some b) : (a, b) ∈ entries := by
  obtain ⟨before, after, rfl, -⟩ := List.lookup_eq_some_iff.1 h
  exact List.mem_append_right _ List.mem_cons_self

theorem fileAt_storedDisk {names : List String} {data : ByteArray}
    (file : storedDisk.fileAt (["m"] ++ names) = some data) :
    (names, data) ∈ [(["a.proto"], ⟨#[]⟩), (["a", "c.proto"], ⟨#[1]⟩), (["notes.txt"], ⟨#[2]⟩)] := by
  simpa [storedDisk] using mem_of_lookup file

theorem hasTree_storedDisk : storedDisk.HasTree "/m" ["m"] where
  folder := by decide
  leads names file := by
    obtain ⟨data, file⟩ := Option.isSome_iff_exists.1 file
    have listed := fileAt_storedDisk file
    simp only [List.mem_cons, List.not_mem_nil, or_false, Prod.mk.injEq] at listed
    rcases listed with ⟨rfl, -⟩ | ⟨rfl, -⟩ | ⟨rfl, -⟩
    · exact ⟨by decide, by decide, by decide, by decide, by decide, by decide⟩
    · exact ⟨by decide, by decide, by decide, by decide, by decide, by decide⟩
    · exact ⟨by decide, by decide, by decide, by decide, by decide, by decide⟩

theorem holdsModuleFiles_storedTable : storedTable.HoldsModuleFiles storedDisk ["m"] := by
  intro path data kind
  rw [FileTable.get_eq_ok]
  constructor
  · intro stored
    have listed := mem_of_lookup stored
    simp only [storedTable, List.mem_cons, List.not_mem_nil, or_false, Prod.mk.injEq] at listed
    rcases listed with ⟨rfl, rfl⟩ | ⟨rfl, rfl⟩ | ⟨rfl, -⟩
    · exact ⟨["a.proto"], by decide, by decide⟩
    · exact ⟨["a", "c.proto"], by decide, by decide⟩
    · exact absurd kind (by decide)
  · rintro ⟨names, rfl, file⟩
    have listed := fileAt_storedDisk file
    simp only [List.mem_cons, List.not_mem_nil, or_false, Prod.mk.injEq] at listed
    rcases listed with ⟨rfl, rfl⟩ | ⟨rfl, rfl⟩ | ⟨rfl, -⟩
    · decide
    · decide
    · exact absurd kind (by decide)

def folderAddition : Addition :=
  .ofLocal (.folder "/m") "a" { name := some (fullName "a" isValid_a) }

def tableAddition : Addition :=
  .ofLocal (.memory storedTable) "a" { name := some (fullName "a" isValid_a) }

/-- A session in which the module was built together with another one that it imports, once with its files
in the folder and once with them in the table. -/
def storedSession : Session :=
  (({ disk := storedDisk } : Session).after
    (Session.build parser [folderAddition, addition "b" isValid_b])).after
      (Session.build parser [tableAddition, addition "b" isValid_b])

theorem isStored_sample : List.Forall₂ (Addition.IsStored storedDisk)
    [folderAddition, addition "b" isValid_b] [tableAddition, addition "b" isValid_b] :=
  .cons (.stored rfl hasTree_storedDisk rfl holdsModuleFiles_storedTable) (.cons (.same _) .nil)

def folderModule : Module :=
  { first with inputs := folderAddition.inputs }

def tableModule : Module :=
  { first with source := ⟨1, 0⟩, inputs := tableAddition.inputs }

def folderSet : ModuleSet :=
  ⟨0, parser, [folderModule, second], by decide, by decide⟩

def tableSet : ModuleSet :=
  ⟨1, parser, [tableModule, { second with source := ⟨1, 1⟩ }], by decide, by decide⟩

theorem sets_storedSession : storedSession.sets = [folderSet, tableSet] := rfl

theorem isKnown_of_stored {disk : Disk} {number : Nat} (bucket : Bucket) :
    ∀ a ∈ [Addition.ofLocal bucket "a" { name := some (fullName "a" isValid_a) }, addition "b" isValid_b],
      ∀ keys, a.inputs.declaredKeys.on disk = .ok keys → ∀ key ∈ keys, key.IsKnown disk loads number := by
  intro a ha keys hkeys
  simp only [List.mem_cons, List.not_mem_nil, or_false] at ha
  rcases ha with rfl | rfl <;> cases hkeys

theorem reachable_storedSession : Session.Reachable loads storedSession :=
  Session.Reachable.of_reaches ⟨storedDisk, .single (.build _ _ _ (isKnown_of_stored _))⟩
    (.single (.build _ _ _ (isKnown_of_stored _)))

theorem hasTrueMarks_storedSession :
    ∀ u ∈ storedSession.sets, u.HasTrueMarks storedSession.disk := by
  rw [sets_storedSession]
  exact List.forall_mem_cons.2 ⟨ModuleSet.hasTrueMarks_of_identity (by decide),
    List.forall_mem_singleton.2 (ModuleSet.hasTrueMarks_of_identity (by decide))⟩

theorem moduleEntries_storedTable :
    moduleEntries storedTable.paths = [⟨"a.proto", .proto⟩, ⟨"a/c.proto", .proto⟩] := by
  have kinds : FileKind.ofPath? "a.proto" = some .proto ∧ FileKind.ofPath? "a/c.proto" = some .proto ∧
      FileKind.ofPath? "todo.txt" = none := by decide
  refine moduleEntries_eq (by decide) fun ⟨path, kind⟩ => ?_
  have paths : storedTable.paths = ["a.proto", "a/c.proto", "todo.txt"] := rfl
  simp only [mem_moduleEntries, paths, List.mem_cons, List.not_mem_nil, or_false, FileEntry.mk.injEq]
  constructor
  · rintro ⟨rfl | rfl | rfl, hkind⟩
    · exact .inl ⟨rfl, Option.some.inj (hkind.symm.trans kinds.1)⟩
    · exact .inr ⟨rfl, Option.some.inj (hkind.symm.trans kinds.2.1)⟩
    · cases hkind.symm.trans kinds.2.2
  · rintro (⟨rfl, rfl⟩ | ⟨rfl, rfl⟩)
    · exact ⟨.inl rfl, kinds.1⟩
    · exact ⟨.inr (.inl rfl), kinds.2.1⟩

theorem indexOn_tableModule (disk : Disk) :
    tableModule.indexOn disk = .ok [⟨"a.proto", .proto⟩, ⟨"a/c.proto", .proto⟩] := by
  have listed : "a.proto" ∈ storedTable.paths := by decide
  rw [← moduleEntries_storedTable]
  exact Fallible.bind_eq_ok.2 ⟨_, rfl, indexOfListing_eq_ok.2 ⟨rfl, rfl, "a.proto", listed, by decide⟩⟩

end Sample

/-- In the sample, the files of the folder are told in the order of their paths and without the file that
does not belong to the module, and the session tells the same of what the module depends on. So do two
sessions that go on by building the one and the other set anew and then look for the second module. -/
theorem Sample.tells_same_storedSession :
    storedSession.outcome (folderModule.fileInfos Session.access) =
        .ok [⟨"a.proto", .proto, false⟩, ⟨"a/c.proto", .proto, false⟩] ∧
      storedSession.outcome (folderModule.read Session.access "a/c.proto") =
        storedSession.outcome (tableModule.read Session.access "a/c.proto") ∧
      storedSession.TellsSameDependencies storedSession folderSet tableSet folderModule tableModule ∧
      ∃ s t, storedSession.outcome (Session.build parser [folderAddition, addition "b" isValid_b]) = .ok s ∧
        storedSession.outcome (Session.build parser [tableAddition, addition "b" isValid_b]) = .ok t ∧
        List.Forall₂ (Session.TellsSameDependencies
            (storedSession.builtAndAsked parser [folderAddition, addition "b" isValid_b] s
              [.provider "b.proto"])
            (storedSession.builtAndAsked parser [tableAddition, addition "b" isValid_b] t
              [.provider "b.proto"]) s t) s.modules t.modules := by
  have mem : folderSet ∈ storedSession.sets := sets_storedSession ▸ List.mem_cons_self
  have mem' : tableSet ∈ storedSession.sets :=
    sets_storedSession ▸ List.mem_cons_of_mem _ (List.mem_singleton.2 rfl)
  obtain ⟨-, inStep, tells⟩ := @Session.Reachable.tells_same_of_stored _ _ parser _ _
    reachable_storedSession (isKnown_of_stored _) isStored_sample
  obtain ⟨files, dependencies⟩ := tells _ mem _ mem' rfl rfl
  cases files with
  | cons ofFirst _ =>
  cases dependencies hasTrueMarks_storedSession with
  | cons dependsFirst _ =>
  refine ⟨?_, (ofFirst.read _).symm, dependsFirst, _, _, rfl, rfl, ?_⟩
  · rw [← ofFirst.fileInfos, reachable_storedSession.outcome_fileInfos mem' List.mem_cons_self,
      indexOn_tableModule]
    rfl
  · exact (inStep _ _ rfl rfl [.provider "b.proto"] (by simp [Operation.IsOn])).imp fun _ _ same => same.2

end ProtoWorkspace
