import ProtoWorkspace.Proofs.ModuleDigest.Edited
import ProtoWorkspace.Proofs.ModuleSet.Contents

/-!
# Versions of local modules

The additions of local modules twice, perhaps on two disks, with the same declarations, the same paths
and the same bytes in all files but one. When the file imports the same in both versions, the sets
that are built of them are the same but for the bytes of that file.
-/

namespace ProtoWorkspace

namespace Inputs

/-- What the bucket lists on a disk. -/
def listingOn (i : Inputs) (disk : Disk) : Except Error Listing :=
  (·.list disk) <$> i.bucket.on disk

def readOn (i : Inputs) (disk : Disk) (path : String) : Except Error ByteArray := do
  let bucket ← i.bucket.on disk
  bucket.read disk path

/-- Whether the bucket lists a path. -/
def Lists (i : Inputs) (disk : Disk) (path : String) : Prop :=
  ∃ listing, i.listingOn disk = .ok listing ∧ path ∈ listing.paths

end Inputs

namespace Addition

/-- Whether two additions on two disks differ at most in the bytes of files. -/
structure IsVersion (disk disk' : Disk) (a a' : Addition) : Prop where
  declared : a' = { a with inputs := a'.inputs }
  listing : a.inputs.listingOn disk = a'.inputs.listingOn disk'
  yaml : a.inputs.yaml.on disk = a'.inputs.yaml.on disk'
  lock : a.inputs.lock.on disk = a'.inputs.lock.on disk'

/-- Whether two additions on two disks have the same bytes in all files. -/
structure IsCopy (disk disk' : Disk) (a a' : Addition) : Prop extends
    IsVersion disk disk' a a' where
  read : ∀ path, a.inputs.Lists disk path → a.inputs.readOn disk path = a'.inputs.readOn disk' path

/-- Whether two additions on two disks have different bytes in one module file, with the same imports,
and the same bytes in all other files. -/
structure IsEdit (disk disk' : Disk) (parser : ImportParser) (path : String) (a a' : Addition) :
    Prop extends IsVersion disk disk' a a' where
  listed : a.inputs.Lists disk path
  isModuleFile : (FileKind.ofPath? path).isSome
  changed : ∃ data data', a.inputs.readOn disk path = .ok data ∧
    a'.inputs.readOn disk' path = .ok data' ∧ data ≠ data' ∧
    (FileKind.ofPath? path = some .proto → parser.parse path data = parser.parse path data')
  read : ∀ other, other ≠ path → a.inputs.Lists disk other →
    a.inputs.readOn disk other = a'.inputs.readOn disk' other

/-- Whether two lists of additions on two disks differ in one of them, namely in the bytes of one
module file. -/
inductive DifferInOne (disk disk' : Disk) (parser : ImportParser) (path : String) (a : Addition) :
    List Addition → List Addition → Prop
  | edited {a' : Addition} {before before' after after' : List Addition}
    (first : List.Forall₂ (IsCopy disk disk') before before')
    (edit : IsEdit disk disk' parser path a a')
    (last : List.Forall₂ (IsCopy disk disk') after after') :
    DifferInOne disk disk' parser path a (before ++ a :: after) (before' ++ a' :: after')

section Versions

variable {disk disk' : Disk} {parser : ImportParser} {path : String} {a a' : Addition}

theorem IsVersion.identity (h : IsVersion disk disk' a a') : a'.identity = a.identity := by
  rw [h.declared]
  rfl

theorem IsVersion.label (h : IsVersion disk disk' a a') : a'.label = a.label := by
  rw [h.declared]
  rfl

theorem IsVersion.isLocal (h : IsVersion disk disk' a a') : a'.isLocal = a.isLocal := by
  rw [h.declared]

variable {additions additions' : List Addition}

theorem DifferInOne.exists_edit (h : DifferInOne disk disk' parser path a additions additions') :
    a ∈ additions ∧ ∃ a' ∈ additions', IsEdit disk disk' parser path a a' := by
  cases h with
  | edited first edit last => exact ⟨by simp, _, by simp, edit⟩

theorem DifferInOne.forall₂ (h : DifferInOne disk disk' parser path a additions additions') :
    List.Forall₂ (fun b b' => IsCopy disk disk' b b' ∨ b = a ∧ IsEdit disk disk' parser path b b')
      additions additions' := by
  cases h with
  | edited first edit last =>
    refine List.rel_append (first.imp fun _ _ => .inl) (.cons (.inr ⟨rfl, edit⟩) ?_)
    exact last.imp fun _ _ => .inl

theorem DifferInOne.isLocal (h : DifferInOne disk disk' parser path a additions additions')
    (hl : ∀ b ∈ additions, b.isLocal = true) : ∀ b' ∈ additions', b'.isLocal = true := by
  intro b' hb'
  obtain ⟨b, hb, copy | ⟨-, edit⟩⟩ := Fallible.exists_of_mem_right h.forall₂ hb'
  · exact copy.toIsVersion.isLocal.trans (hl b hb)
  · exact edit.toIsVersion.isLocal.trans (hl b hb)

end Versions

section Makes

variable {disk disk' : Disk} {parser : ImportParser} {path : String} {a a' : Addition}
variable {x x' : Module} (made : a.Makes x) (made' : a'.Makes x')

include made

theorem Makes.readOn (path : String) : x.readOn disk path = a.inputs.readOn disk path := by
  rw [Module.readOn, Inputs.readOn, made.inputs]

theorem Makes.indexOn :
    x.indexOn disk = a.inputs.listingOn disk >>= indexOfListing a.label := by
  rw [Module.indexOn, Inputs.listingOn, made.inputs, made.description]
  cases a.inputs.bucket.on disk <;> rfl

theorem Makes.hasProtoOn {path : String} :
    x.HasProtoOn disk path ↔ a.inputs.Lists disk path ∧ FileKind.ofPath? path = some .proto := by
  unfold Module.HasProtoOn Inputs.Lists Inputs.listingOn
  rw [made.inputs]
  cases a.inputs.bucket.on disk <;> simp

theorem Makes.mem_indexOn {entries : List FileEntry} (h : x.indexOn disk = .ok entries)
    {entry : FileEntry} : entry ∈ entries ↔
      a.inputs.Lists disk entry.path ∧ FileKind.ofPath? entry.path = some entry.kind := by
  rw [made.indexOn] at h
  obtain ⟨listing, hlisting, h⟩ := Fallible.bind_eq_ok.1 h
  obtain ⟨-, rfl, -⟩ := indexOfListing_eq_ok.1 h
  simp [mem_moduleEntries, Inputs.Lists, hlisting]

include made'

theorem IsVersion.identity_eq (h : IsVersion disk disk' a a') : x.identity = x'.identity := by
  rw [made.identity, made'.identity, h.identity]

theorem IsVersion.indexOn_eq (h : IsVersion disk disk' a a') :
    x.indexOn disk = x'.indexOn disk' := by
  rw [made.indexOn, made'.indexOn, h.listing, h.label]

theorem IsVersion.hasProtoOn_iff (h : IsVersion disk disk' a a') {path : String} :
    x.HasProtoOn disk path ↔ x'.HasProtoOn disk' path := by
  rw [made.hasProtoOn, made'.hasProtoOn, Inputs.Lists, Inputs.Lists, h.listing]

theorem IsCopy.contentsOn_eq (h : IsCopy disk disk' a a') :
    x.contentsOn disk = x'.contentsOn disk' := by
  rw [Module.contentsOn, Module.contentsOn, ← h.indexOn_eq made made']
  cases hentries : x.indexOn disk with
  | error e => rfl
  | ok entries =>
    apply Fallible.mapM_congr
    intro entry hentry
    rw [made.readOn, made'.readOn, h.read _ ((made.mem_indexOn hentries).1 hentry).1]

theorem IsEdit.differInOne (h : IsEdit disk disk' parser path a a')
    {files files' : List (String × ByteArray)} (hfiles : x.contentsOn disk = .ok files)
    (hfiles' : x'.contentsOn disk' = .ok files') : Digest.DifferInOne files files' := by
  obtain ⟨entries, hentries, hfiles⟩ := Fallible.bind_eq_ok.1 hfiles
  have hentries' := hentries
  rw [h.indexOn_eq made made'] at hentries'
  rw [Module.contentsOn, hentries', Fallible.ok_bind] at hfiles'
  obtain ⟨data, data', hdata, hdata', hne, -⟩ := h.changed
  obtain ⟨kind, hkind⟩ := Option.isSome_iff_exists.1 h.isModuleFile
  have member : ⟨path, kind⟩ ∈ entries := (made.mem_indexOn hentries).2 ⟨h.listed, hkind⟩
  have sorted := Module.pairwise_indexOn hentries
  have listed : ∀ entry ∈ entries, a.inputs.Lists disk entry.path :=
    fun _ he => ((made.mem_indexOn hentries).1 he).1
  obtain ⟨before, after, rfl⟩ := List.append_of_mem member
  obtain ⟨-, hafter, hbefore⟩ := List.pairwise_append.1 sorted
  -- the path stands in the list once, so all other files are read as before
  have same : ∀ entry ∈ before ++ after,
      x.readOn disk entry.path = x'.readOn disk' entry.path := by
    intro entry he
    rw [made.readOn, made'.readOn]
    rcases List.mem_append.1 he with he | he
    · apply h.read
      · exact (hbefore entry he _ List.mem_cons_self).ne
      · exact listed entry (List.mem_append_left _ he)
    · apply h.read
      · exact ((List.pairwise_cons.1 hafter).1 entry he).ne'
      · exact listed entry (List.mem_append_right _ (List.mem_cons_of_mem _ he))
  obtain ⟨first, file, last, hfirst, hfile, hlast, rfl⟩ :=
    Fallible.mapM_append_cons_eq_ok.1 hfiles
  obtain ⟨first', file', last', hfirst', hfile', hlast', rfl⟩ :=
    Fallible.mapM_append_cons_eq_ok.1 hfiles'
  rw [made.readOn, hdata] at hfile
  rw [made'.readOn, hdata'] at hfile'
  rw [Fallible.mapM_congr fun entry he => by rw [same entry (List.mem_append_left _ he)], hfirst']
    at hfirst
  rw [Fallible.mapM_congr fun entry he => by rw [same entry (List.mem_append_right _ he)], hlast']
    at hlast
  cases hfile
  cases hfile'
  cases hfirst
  cases hlast
  exact ⟨first, path, data, data', last, hne, rfl, rfl⟩

variable {s s' : ModuleSet} (hparser : s.parser = parser) (hparser' : s'.parser = parser)

include hparser hparser'

theorem IsCopy.alike (h : IsCopy disk disk' a a') : ModuleSet.Alike s s' disk disk' x x' where
  identity := h.identity_eq made made'
  hasProto _ := h.hasProtoOn_iff made made'
  imports path hp := by
    have listed := (made.hasProtoOn.1 hp).1
    rw [ModuleSet.importsOn, ModuleSet.importsOn, made.readOn, made'.readOn, h.read path listed,
      hparser, hparser']

theorem IsEdit.alike (h : IsEdit disk disk' parser path a a') :
    ModuleSet.Alike s s' disk disk' x x' where
  identity := h.identity_eq made made'
  hasProto _ := h.hasProtoOn_iff made made'
  imports other hp := by
    obtain ⟨listed, isProto⟩ := made.hasProtoOn.1 hp
    rw [ModuleSet.importsOn, ModuleSet.importsOn, made.readOn, made'.readOn, hparser, hparser']
    by_cases hother : other = path
    · subst hother
      obtain ⟨data, data', hdata, hdata', -, imports⟩ := h.changed
      rw [hdata, hdata']
      exact imports isProto
    · rw [h.read other hother listed]

end Makes

end Addition

namespace ModuleSet

open Addition

variable {disk disk' : Disk} {parser : ImportParser} {path : String} {a : Addition}
variable {additions additions' : List Addition} {number number' : Nat} {s s' : ModuleSet}

/-- Whether two modules are made of additions of which the second is a copy of the first or, if the
first is `a`, has the edited file. -/
def AreVersions (disk disk' : Disk) (parser : ImportParser) (path : String) (a : Addition)
    (y y' : Module) : Prop :=
  ∃ b b', b.Makes y ∧ b'.Makes y' ∧
    (IsCopy disk disk' b b' ∨ b = a ∧ IsEdit disk disk' parser path b b')

theorem AreVersions.alike {y y' : Module} (h : AreVersions disk disk' parser path a y y')
    (hparser : s.parser = parser) (hparser' : s'.parser = parser) :
    Alike s s' disk disk' y y' := by
  obtain ⟨b, b', made, made', copy | ⟨-, edit⟩⟩ := h
  · exact copy.alike made made' hparser hparser'
  · exact edit.alike made made' hparser hparser'

/-- Local additions that differ in one file make modules that are versions of each other. -/
theorem forall₂_areVersions (h : DifferInOne disk disk' parser path a additions additions')
    (hl : ∀ b ∈ additions, b.isLocal = true) (hs : build number parser additions = .ok s)
    (hs' : build number' parser additions' = .ok s') :
    List.Forall₂ (AreVersions disk disk' parser path a) s.modules s'.modules := by
  have made := makes_of_build_isLocal hs hl
  have made' := makes_of_build_isLocal hs' (h.isLocal hl)
  have between : List.Forall₂ (fun b' y => ∃ b, b.Makes y ∧ (IsCopy disk disk' b b' ∨
      b = a ∧ IsEdit disk disk' parser path b b')) additions' s.modules :=
    Fallible.forall₂_of_common h.forall₂ made fun b _ _ _ _ version makes => ⟨b, makes, version⟩
  refine Fallible.forall₂_of_common between made' ?_
  rintro b' - y - y' ⟨b, makes, version⟩ makes'
  exact ⟨b, b', makes, makes', version⟩

theorem isLocal_of_build (hs : build number parser additions = .ok s)
    (hl : ∀ b ∈ additions, b.isLocal = true) : ∀ y ∈ s.modules, y.isLocal = true := by
  intro y hy
  obtain ⟨b, hb, makes⟩ := Fallible.exists_of_mem_right (makes_of_build_isLocal hs hl) hy
  rw [makes.isLocal]
  exact hl b hb

/-- Two sets that are built of local additions which differ in one file have the same identities, and
are the same but for the bytes of that file. -/
theorem edits_of_build (h : DifferInOne disk disk' parser path a additions additions')
    (hl : ∀ b ∈ additions, b.isLocal = true) (hs : build number parser additions = .ok s)
    (hs' : build number' parser additions' = .ok s') {x : Module} (hx : x ∈ s.modules)
    (hxa : x.identity = a.identity) :
    s.identities = s'.identities ∧ ∃ x', Edits s s' disk disk' x x' := by
  obtain ⟨-, hparser, -⟩ := build_eq_ok hs
  obtain ⟨-, hparser', -⟩ := build_eq_ok hs'
  have versions := forall₂_areVersions h hl hs hs'
  have alike : List.Forall₂ (Alike s s' disk disk') s.modules s'.modules :=
    versions.imp fun _ _ version => version.alike hparser hparser'
  have ofPair : ∀ y ∈ s.modules, ∀ y' ∈ s'.modules, y.identity = y'.identity →
      AreVersions disk disk' parser path a y y' := by
    intro y hy y' hy' same
    obtain ⟨z', hz', version, alike⟩ :=
      Fallible.exists_of_mem_right (Fallible.forall₂_and versions alike).flip hy
    obtain rfl := eq_of_identity hz' hy' (alike.identity.symm.trans same)
    exact version
  -- the addition of a module has its identity, so only `x` is made of the edited one
  have only : ∀ y ∈ s.modules, a.Makes y → y = x := fun y hy makes =>
    eq_of_identity hy hx (makes.identity.trans hxa.symm)
  obtain ⟨x', hx', alikeX⟩ := Fallible.exists_of_mem_right alike.flip hx
  refine ⟨Fallible.map_eq_map_of_forall₂ (alike.imp fun _ _ => Alike.identity), x', ?_⟩
  exact {
    agrees := ⟨fun y hy => Fallible.exists_of_mem_right alike.flip hy,
      fun y' hy' => Fallible.exists_of_mem_right alike hy'⟩
    isLocal := isLocal_of_build hs hl
    isLocal' := isLocal_of_build hs' (h.isLocal hl)
    mem := hx
    mem' := hx'
    identity := alikeX.identity
    yaml := by
      intro y hy y' hy' same
      obtain ⟨b, b', makes, makes', copy | ⟨-, edit⟩⟩ := ofPair y hy y' hy' same
      · rw [makes.inputs, makes'.inputs, copy.yaml]
      · rw [makes.inputs, makes'.inputs, edit.yaml]
    lock := by
      intro y hy y' hy' same
      obtain ⟨b, b', makes, makes', copy | ⟨-, edit⟩⟩ := ofPair y hy y' hy' same
      · rw [makes.inputs, makes'.inputs, copy.lock]
      · rw [makes.inputs, makes'.inputs, edit.lock]
    kept := by
      intro y hy y' hy' same hne
      obtain ⟨b, b', makes, makes', copy | ⟨rfl, -⟩⟩ := ofPair y hy y' hy' same
      · exact copy.contentsOn_eq makes makes'
      · exact absurd (only y hy makes) hne
    edited := by
      obtain ⟨ha, a', ha', edit⟩ := h.exists_edit
      obtain ⟨y, hy, makes⟩ := Fallible.exists_of_mem_right (makes_of_build_isLocal hs hl).flip ha
      obtain ⟨y', hy', makes'⟩ :=
        Fallible.exists_of_mem_right (makes_of_build_isLocal hs' (h.isLocal hl)).flip ha'
      obtain rfl := only y hy makes
      have same : y.identity = y'.identity := edit.identity_eq makes makes'
      obtain rfl := eq_of_identity hx' hy' (alikeX.identity.symm.trans same)
      intro files files'
      exact edit.differInOne makes makes' }

end ModuleSet

end ProtoWorkspace
