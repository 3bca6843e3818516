import Mathlib.Tactic
import ProtoWorkspace.LockFile
import ProtoWorkspace.Proofs.Digest.Text
import ProtoWorkspace.Proofs.Toml.Tables

/-!
# Lock files read back

The text of a lock file is a TOML document of lines and tables, which is read as its statements; what
is left to show is that these are decoded to the modules. Main statement: every lock file is read
back from its text (`LockFile.text_reads_back`).
-/

namespace ProtoWorkspace

open Toml (Line tableOf)

namespace Toml.Value

theorem toDigest_text (d : Digest) : (string d.text).toDigest .string = .ok d := by
  change (Digest.parse d.text).mapError Fault.badDigest = .ok d
  rw [Digest.parse_text]
  rfl

end Toml.Value

namespace LockedModule

def fieldLines (m : LockedModule) : List Line :=
  [.string "name" m.name.text (by decide), .string "commit" m.commit (by decide),
    .string "digest" m.digest.text (by decide)]

theorem lines_eq (m : LockedModule) : m.lines = Toml.linesText m.fieldLines := by
  rw [← String.toList_inj]
  simp [lines, fieldLines, Toml.linesText, Line.written, Line.string]

def toValue (m : LockedModule) : Toml.Value :=
  .table (m.fieldLines.map Line.field)

theorem ofValue_toValue (m : LockedModule) : ofValue m.toValue = .ok m := by
  have drafts : (m.fieldLines.map Line.field).foldlM Draft.set {} =
      .ok ⟨some m.name, some m.commit, some m.digest⟩ := by
    have name : Draft.set {} ("name", .string m.name.text) = .ok { name := some m.name } := by
      simp only [Draft.set, Toml.Value.toFullName_text]
      rfl
    have digest (d : Draft) : Draft.set d ("digest", .string m.digest.text) =
        .ok { d with digest := some m.digest } := by
      simp only [Draft.set, Toml.Value.toDigest_text]
      rfl
    change (Draft.set {} ("name", .string m.name.text) >>= fun d =>
      Draft.set d ("commit", .string m.commit) >>= fun d =>
      Draft.set d ("digest", .string m.digest.text) >>= fun d => .ok d) = _
    rw [name]
    change (Draft.set _ ("digest", .string m.digest.text) >>= fun d => .ok d) = _
    rw [digest]
    rfl
  change ((m.fieldLines.map Line.field).foldlM Draft.set {} >>= fun draft => draft.finish _) = _
  rw [drafts]
  rfl

theorem resolve?_toValue (m : LockedModule) : m.toValue.resolve? = some m.toValue := by
  have table : m.toValue = .table [("name", .string m.name.text), ("commit", .string m.commit),
      ("digest", .string m.digest.text)] := rfl
  have notDateTime : ("name" == Toml.DateTime.key) = false := rfl
  simp [table, Toml.Value.resolve?, Toml.standsForDateTime, notDateTime, Toml.resolveEntries?]

end LockedModule

namespace LockFile

/-- Neither a date nor a number with a fraction starts with the version and a line feed. -/
theorem scalar_version (rest : List Char) :
    Toml.scalar ('1' :: '\n' :: rest) = some (.integer version, '\n' :: rest) := by
  have noString : Toml.stringValue ('1' :: '\n' :: rest) = none := rfl
  have noDate : Toml.date ('1' :: '\n' :: rest) = none := by
    simp [Toml.date, Toml.fixedDigits, Toml.digitBelow?, Hex.digit?]
  have noTime : Toml.time ('1' :: '\n' :: rest) = none := by
    simp [Toml.time, Toml.boundedDigits, Toml.fixedDigits, Toml.digitBelow?, Hex.digit?]
  have digits : Toml.decimalDigits ('1' :: '\n' :: rest) = some ([1], '\n' :: rest) := rfl
  have noFloat : Toml.decimalFloat ('1' :: '\n' :: rest) = none := by
    simp [Toml.decimalFloat, Toml.sign, digits, Toml.fraction, Toml.exponent]
  have integer : Toml.integer ('1' :: '\n' :: rest) = some (version, '\n' :: rest) := by
    simp [Toml.integer, Toml.sign, digits, Toml.digitsValue, Toml.fitsWord, version]
  have noSpecial : Toml.specialFloat ('1' :: '\n' :: rest) = none := rfl
  simp [Toml.scalar, noString, Toml.dateTime, noDate, noTime, noFloat, noSpecial, integer]

/-- The line that states the version of the format. -/
def versionLine : Line where
  key := "version"
  text := toString version
  value := .integer version
  isBareKey := by decide
  return_notMem := by decide
  reads := by
    intro fuel rest hf
    obtain ⟨fuel, rfl⟩ := Nat.exists_eq_succ_of_ne_zero (Nat.ne_zero_of_lt hf)
    change Toml.value (fuel + 1) 0 ('1' :: '\n' :: rest) = _
    rw [Toml.value_of_scalar (by decide) (by decide), scalar_version]

theorem text_eq (l : LockFile) :
    l.text = Toml.writtenTables (Toml.linesText [versionLine]) "modules"
      ((l.modules.map LockedModule.fieldLines).map Toml.linesText) := by
  have lines : l.modules.map LockedModule.lines =
      (l.modules.map LockedModule.fieldLines).map Toml.linesText := by
    induction l.modules with
    | nil => rfl
    | cons m modules ih => rw [List.map_cons, m.lines_eq, ih, List.map_cons, List.map_cons]
  rw [text, lines, Toml.linesText_singleton]
  rfl

/-- The document of a lock file. -/
def toTable (l : LockFile) : Toml.Table :=
  tableOf [versionLine] "modules" (l.modules.map LockedModule.fieldLines)

theorem toTable_eq (l : LockFile) :
    l.toTable = [("version", .integer version),
      ("modules", .array (l.modules.map LockedModule.toValue))] := by
  rw [toTable, tableOf, List.map_map]
  rfl

theorem parse?_text (l : LockFile) : Toml.parse? l.text = some l.toTable := by
  rw [text_eq, toTable]
  refine Toml.parse?_writtenTables (by decide) (by decide) (by decide) ?_
  intro lines hl
  obtain ⟨m, -, rfl⟩ := List.mem_map.1 hl
  have keys : m.fieldLines.map Line.key = ["name", "commit", "digest"] := rfl
  rw [keys]
  decide

theorem resolveEntries?_toTable (l : LockFile) :
    Toml.resolveEntries? l.toTable = some l.toTable := by
  have modules : Toml.resolveElements? (l.modules.map LockedModule.toValue) =
      some (l.modules.map LockedModule.toValue) := by
    induction l.modules with
    | nil => rfl
    | cons m modules ih => simp [Toml.resolveElements?, m.resolve?_toValue, ih]
  simp [toTable_eq, Toml.resolveEntries?, Toml.Value.resolve?, modules]

theorem ofTable_toTable (l : LockFile) : ofTable l.toTable = .ok l := by
  have modules : (l.modules.map LockedModule.toValue).mapM LockedModule.ofValue =
      .ok l.modules := by
    induction l.modules with
    | nil => rfl
    | cons m modules ih =>
      rw [List.map_cons, List.mapM_cons, m.ofValue_toValue, ih]
      rfl
  rw [toTable_eq]
  change LockFile.mk <$> (l.modules.map LockedModule.toValue).mapM LockedModule.ofValue = _
  rw [modules]
  rfl

/-- A text that is the document of a lock file is read as that lock file. -/
theorem parse_of_document {s : String} {l : LockFile} (h : Toml.parse? s = some l.toTable) :
    parse s = .ok l := by
  have found : l.toTable.lookup "version" = some (.integer version) := rfl
  have supported : isSupported (.integer version) = true := rfl
  simp only [parse, h, Option.bind_eq_bind, Option.bind_some, resolveEntries?_toTable, found,
    supported, if_true, ofTable_toTable]
  rfl

/-- A lock file is read back from its text. -/
theorem text_reads_back (l : LockFile) : parse l.text = .ok l :=
  parse_of_document l.parse?_text

end LockFile

end ProtoWorkspace
