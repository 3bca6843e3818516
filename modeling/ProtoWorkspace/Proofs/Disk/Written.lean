import Mathlib.Tactic
import ProtoWorkspace.Disk
import ProtoWorkspace.Proofs.Fallible

/-!
# Written files

A file that was written is at its path, with the bytes that were written. A way through folders only
depends on the folders, and these stay as they are when a file is written.
-/

namespace ProtoWorkspace.Disk

open Fallible

variable {d d' : Disk} {path : String} {data : ByteArray}

theorem step_of_folders (same : d'.folders = d.folders) {place next : List String}
    {component : String} (h : d.step place component = .ok next) :
    d'.step place component = .ok next := by
  have folder : d'.isFolderAt place = d.isFolderAt place := by simp [isFolderAt, same]
  unfold step at h ⊢
  rw [folder]
  split at h
  · next isFolder => rwa [if_pos isFolder]
  · split at h <;> cases h

theorem walk_of_folders (same : d'.folders = d.folders) (current : d'.current = d.current)
    {components place : List String} (h : d.walk path components = .ok place) :
    d'.walk path components = .ok place := by
  unfold walk at h ⊢
  rw [current]
  generalize (if Path.isAbsolute path then [] else d.current) = start at h ⊢
  induction components generalizing start with
  | nil => exact h
  | cons component components ih =>
    rw [List.foldlM_cons] at h ⊢
    obtain ⟨next, first, rest⟩ := bind_eq_ok.1 h
    rw [step_of_folders same first]
    exact ih next rest

theorem withoutLastSlashes_eq (h : endsWithSlash path = false) :
    withoutLastSlashes path = path := by
  have kept : path.toList.reverse.dropWhile (· == '/') = path.toList.reverse := by
    rw [endsWithSlash, beq_eq_false_iff_ne, ← List.head?_reverse] at h
    cases hr : path.toList.reverse with
    | nil => rfl
    | cons c cs =>
      rw [hr, List.head?_cons] at h
      rw [List.dropWhile_cons_of_neg]
      simpa using fun e => h (congrArg some e)
  unfold withoutLastSlashes
  rw [kept]
  split
  · rfl
  · rw [List.reverse_reverse, String.ofList_toList]

/-- A write finds a folder that the file can be in, and puts the file there. -/
theorem write_eq_ok (h : d.write path data = .ok d') :
    check path = .ok () ∧ ∃ place, d.walk path (Path.components path) = .ok place ∧
      d.isFolderAt place = false ∧ d' = d.putFile place data := by
  obtain ⟨⟨⟩, valid, h⟩ := bind_eq_ok.1 h
  cases slash : endsWithSlash path with
  | true =>
    simp only [slash, if_true] at h
    obtain ⟨_, -, h⟩ := bind_eq_ok.1 h
    obtain ⟨_, -, h⟩ := bind_eq_ok.1 h
    cases h
  | false =>
    rw [withoutLastSlashes_eq slash] at h
    simp only [slash, Bool.false_eq_true, if_false] at h
    obtain ⟨place, walked, h⟩ := bind_eq_ok.1 h
    cases folder : d.isFolderAt place with
    | true =>
      simp only [folder, if_true] at h
      cases h
    | false =>
      simp only [folder, Bool.false_eq_true, if_false] at h
      cases h
      exact ⟨valid, place, walked, folder, rfl⟩

theorem hasPath_of_read (h : d.read path = .ok data) : d.hasPath path = true := by
  obtain ⟨place, located, h⟩ := bind_eq_ok.1 h
  unfold hasPath
  rw [located]
  cases folder : d.isFolderAt place with
  | true => simp [folder]
  | false =>
    cases file : d.fileAt place with
    | none =>
      simp only [folder, file] at h
      cases h
    | some => simp [file]

theorem read_of_write (h : d.write path data = .ok d') : d'.read path = .ok data := by
  obtain ⟨valid, place, walked, notFolder, rfl⟩ := write_eq_ok h
  have located : (d.putFile place data).locate path = .ok place := by
    rw [locate, valid, ok_bind]
    have folders : (d.putFile place data).folders = d.folders := rfl
    have current : (d.putFile place data).current = d.current := rfl
    exact walk_of_folders folders current walked
  have notFolder : (d.putFile place data).isFolderAt place = false := notFolder
  rw [read, located, ok_bind, notFolder, fileAt_putFile]
  rfl

end ProtoWorkspace.Disk
