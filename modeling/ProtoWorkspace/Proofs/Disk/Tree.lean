import Mathlib.Tactic
import ProtoWorkspace.Proofs.Access.Shown

/-!
# A tree of files in a folder

Below a folder there may be a tree of files, each of which the system can open. The bucket of the folder
lists the files of the tree by their paths from the folder, and a file that is asked for by such a path is
found. Hence a table in memory with the same module files shows a module the same as the folder does,
whatever other files there are in either of them.
-/

namespace ProtoWorkspace

open Fallible

/-! ## Paths that are made of names -/

namespace Path

/-- Whether a text names one thing in a folder. -/
structure IsName (name : String) : Prop where
  ne_empty : name ≠ ""
  ne_dot : name ≠ "."
  ne_dots : name ≠ ".."
  no_slash : '/' ∉ name.toList

instance (name : String) : Decidable (IsName name) :=
  decidable_of_iff (name ≠ "" ∧ name ≠ "." ∧ name ≠ ".." ∧ '/' ∉ name.toList)
    ⟨fun ⟨h₁, h₂, h₃, h₄⟩ => ⟨h₁, h₂, h₃, h₄⟩, fun ⟨h₁, h₂, h₃, h₄⟩ => ⟨h₁, h₂, h₃, h₄⟩⟩

variable {names : List String} {root sub : String}

theorem components_join_of_no_slash (some : names ≠ []) (separate : ∀ name ∈ names, '/' ∉ name.toList) :
    components (join names) = names := by
  have fields : ∀ field ∈ names.map String.toList, '/' ∉ field := List.forall_mem_map.2 separate
  rw [components, join, String.toList_ofList, Text.fields_joinFields (by simpa using some) fields,
    List.map_map]
  exact (List.map_congr_left fun name _ => String.ofList_toList).trans (List.map_id names)

theorem components_join (some : names ≠ []) (valid : ∀ name ∈ names, IsName name) :
    components (join names) = names :=
  components_join_of_no_slash some fun name hname => (valid name hname).no_slash

theorem components_ne_nil (path : String) : components path ≠ [] := by
  rw [components, Ne, List.map_eq_nil_iff]
  exact Text.fields_ne_nil '/' path.toList

theorem components_append_slash (first rest : String) :
    components (first ++ "/" ++ rest) = components first ++ components rest := by
  have chars : (first ++ "/" ++ rest).toList = first.toList ++ '/' :: rest.toList := by
    simp [String.toList_append]
  rw [components, chars, Text.fields_append, List.map_append]
  rfl

/-- A path that is made of names has the characters of the names, and slashes. -/
theorem mem_join {c : Char} (h : c ∈ (join names).toList) : c = '/' ∨ ∃ name ∈ names, c ∈ name.toList := by
  rw [join, String.toList_ofList] at h
  induction names with
  | nil => simp [Text.joinFields] at h
  | cons name rest ih =>
    cases rest with
    | nil => exact .inr ⟨name, List.mem_singleton.2 rfl, h⟩
    | cons next rest =>
      rw [List.map_cons, List.map_cons, Text.joinFields, ← List.map_cons, List.mem_append,
        List.mem_cons] at h
      rcases h with h | h | h
      · exact .inr ⟨name, List.mem_cons_self, h⟩
      · exact .inl h
      · obtain h | ⟨other, hmem, hc⟩ := ih h
        · exact .inl h
        · exact .inr ⟨other, List.mem_cons_of_mem _ hmem, hc⟩

theorem foldlM_step_names (valid : ∀ name ∈ names, IsName name) (way : List String) :
    names.foldlM step way = some (names.reverse ++ way) := by
  induction names generalizing way with
  | nil => rfl
  | cons name rest ih =>
    obtain ⟨hname, hrest⟩ := List.forall_mem_cons.1 valid
    have down : step way name = some (name :: way) := by
      simp [step, hname.ne_empty, hname.ne_dot, hname.ne_dots]
    rw [List.foldlM_cons, down, Option.bind_eq_bind, Option.bind_some, ih hrest]
    simp

theorem isAbsolute_join (some : names ≠ []) (valid : ∀ name ∈ names, IsName name) :
    isAbsolute (join names) = false := by
  cases habs : isAbsolute (join names) with
  | false => rfl
  | true =>
    obtain ⟨name, rest, rfl⟩ := List.exists_cons_of_ne_nil some
    have found := components_join some valid
    obtain ⟨chars, hchars⟩ : ∃ chars, (join (name :: rest)).toList = '/' :: chars := by
      rw [isAbsolute, beq_iff_eq, List.head?_eq_some_iff] at habs
      exact habs
    rw [components, hchars, Text.fields, if_pos rfl, List.map_cons] at found
    exact absurd (List.cons.inj found).1.symm (valid name List.mem_cons_self).ne_empty

/-- A path that is made of names stands for itself. -/
theorem normalize_join (some : names ≠ []) (valid : ∀ name ∈ names, IsName name) :
    normalize (join names) = .ok (join names) := by
  rw [normalize, isAbsolute_join some valid, if_neg Bool.false_ne_true, components_join some valid,
    walk, foldlM_step_names valid, List.append_nil, Option.map_some, List.reverse_reverse]

theorem mem_behind {c : Char} (h : c ∈ (behind root sub).toList) :
    c ∈ root.toList ∨ c = '/' ∨ c ∈ sub.toList := by
  rw [behind] at h
  split at h
  · rw [String.toList_append, List.mem_append] at h
    exact h.imp_right .inr
  · rw [String.toList_append, String.toList_append, List.mem_append, List.mem_append, or_assoc] at h
    exact h.imp_right (.imp_left List.mem_singleton.1)

theorem under_eq_behind (relative : isAbsolute sub = false) : under root sub = behind root sub := by
  rw [under, relative, if_neg Bool.false_ne_true]

theorem behind_ne_empty (some : root ≠ "") : behind root sub ≠ "" := by
  intro none
  have chars := congrArg String.toList none
  rw [behind] at chars
  refine some (String.toList_eq_nil_iff.1 ?_)
  split at chars
  · rw [String.toList_append] at chars
    exact (List.append_eq_nil_iff.1 chars).1
  · rw [String.toList_append, String.toList_append] at chars
    exact (List.append_eq_nil_iff.1 (List.append_eq_nil_iff.1 chars).1).1

theorem isAbsolute_behind (some : root ≠ "") : isAbsolute (behind root sub) = isAbsolute root := by
  obtain ⟨c, chars, hroot⟩ := List.exists_cons_of_ne_nil (mt String.toList_eq_nil_iff.1 some)
  rw [behind]
  split <;> simp [isAbsolute, String.toList_append, hroot]

/-- Behind another path the components of a path follow those of the other path. A slash at the end of
that one stands for an empty component, which does not stay. -/
theorem components_behind (some : root ≠ "") :
    ∃ first ≠ [], components (behind root sub) = first ++ components sub ∧
      (components root = first ∨ components root = first ++ [""]) := by
  rw [behind]
  split
  · next slash =>
    have last : root.toList.getLast? = Option.some '/' := by
      simpa [String.toList_eq_nil_iff, some] using slash
    obtain ⟨chars, hchars⟩ := List.getLast?_eq_some_iff.1 last
    have hroot : root = String.ofList chars ++ "/" ++ "" := by
      rw [← String.toList_inj]
      simp [String.toList_append, hchars]
    have hsub : root ++ sub = String.ofList chars ++ "/" ++ sub := by
      rw [← String.toList_inj]
      simp [String.toList_append, hchars]
    refine ⟨components (String.ofList chars), components_ne_nil _, ?_, .inr ?_⟩
    · rw [hsub, components_append_slash]
    · rw [hroot, components_append_slash]
      rfl
  · exact ⟨components root, components_ne_nil root, components_append_slash root sub, .inl rfl⟩

/-- The components of a path that stay wherever they are. -/
def lasting (path : String) : List String :=
  ((components path).filter (· ≠ "")).filter (· ≠ ".")

/-- Of a relative path a dot at the very start stays, too. -/
theorem parts_of_first {path first : String} {rest : List String} (relative : isAbsolute path = false)
    (split : components path = first :: rest) :
    parts path = if first = "." then "." :: lasting path else lasting path := by
  rw [parts, relative, if_neg Bool.false_ne_true, split]
  by_cases dot : first = "."
  · subst dot
    simp [lasting, split]
  · rw [if_neg dot]
    split
    · next same => exact absurd (List.cons.inj same).1 dot
    · rw [lasting, split]

/-- Whatever path is put behind another one, its parts follow those of the other one. -/
theorem parts_behind (some : root ≠ "") : parts (behind root sub) = parts root ++ lasting sub := by
  obtain ⟨first, nonempty, both, own⟩ := components_behind some
  have last : lasting (behind root sub) = lasting root ++ lasting sub := by
    rw [lasting, both, List.filter_append, List.filter_append]
    rcases own with own | own <;> simp [lasting, own]
  cases absolute : isAbsolute root with
  | true =>
    rw [parts, parts, isAbsolute_behind some, absolute, if_pos rfl, if_pos rfl]
    exact congrArg ("/" :: ·) last
  | false =>
    obtain ⟨c, rest, rfl⟩ := List.exists_cons_of_ne_nil nonempty
    obtain ⟨more, hroot⟩ : ∃ more, components root = c :: more := by
      rcases own with own | own
      · exact ⟨rest, own⟩
      · exact ⟨rest ++ [""], own⟩
    rw [parts_of_first absolute hroot, parts_of_first ((isAbsolute_behind some).trans absolute) both, last]
    split <;> rfl

/-- What is put behind a path is seen from it. -/
theorem from?_behind (some : root ≠ "") :
    from? root (behind root sub) = Option.some (join (lasting sub)) := by
  rw [from?, parts_behind some, if_pos, List.drop_left]
  exact List.isPrefixOf_iff_prefix.2 (List.prefix_append _ _)

theorem lasting_join (some : names ≠ []) (valid : ∀ name ∈ names, IsName name) :
    lasting (join names) = names := by
  rw [lasting, components_join some valid, List.filter_filter, List.filter_eq_self]
  intro name hname
  simp [(valid name hname).ne_empty, (valid name hname).ne_dot]

end Path

/-! ## Files below a folder -/

namespace Disk

/-- Whether names lead from the folder at a path, which is at the given place, through folders to
something that is none. The system takes the names and the path that is made of them. -/
structure LeadsToFile (d : Disk) (root : String) (place names : List String) : Prop where
  valid : ∀ name ∈ names, Path.IsName name
  plain : ∀ name ∈ names, '\x00' ∉ name.toList
  short : ∀ name ∈ names, name.utf8ByteSize ≤ longestName
  path_short : (Path.under root (Path.join names)).utf8ByteSize ≤ longestPath
  through : ∀ n < names.length, d.isFolderAt (place ++ names.take n) = true
  ends : d.isFolderAt (place ++ names) = false

/-- Whether there is a folder at a path, and below it a tree of files that the system can open. -/
structure HasTree (d : Disk) (root : String) (place : List String) : Prop where
  folder : d.folder? root = some place
  leads : ∀ names, (d.fileAt (place ++ names)).isSome → d.LeadsToFile root place names

variable {d : Disk} {root sub path : String} {place names front rest : List String} {data : ByteArray}

theorem folder?_eq_some : d.folder? root = some place ↔
    d.locate root = .ok place ∧ d.isFolderAt place = true := by
  unfold folder?
  cases d.locate root with
  | error e => simp
  | ok found =>
    cases folder : d.isFolderAt found with
    | false => simp only [folder]; grind
    | true => simp only [folder]; grind

theorem check_eq_ok : check path = .ok () ↔
    path ≠ "" ∧ '\x00' ∉ path.toList ∧ path.utf8ByteSize ≤ longestPath := by
  unfold check
  split
  · simp [*]
  · split
    · simp_all
    · split <;> simp_all

/-- Behind a folder the way goes on from the place of the folder. -/
theorem walk_behind (folder : d.folder? root = some place) :
    d.walk (Path.behind root sub) (Path.components (Path.behind root sub)) =
      (Path.components sub).foldlM d.step place := by
  obtain ⟨located, isFolder⟩ := folder?_eq_some.1 folder
  obtain ⟨⟨⟩, valid, walked⟩ := bind_eq_ok.1 located
  obtain ⟨some, -, -⟩ := check_eq_ok.1 valid
  obtain ⟨first, -, hcomponents, hroot⟩ := Path.components_behind some
  unfold walk at walked ⊢
  rw [Path.isAbsolute_behind some, hcomponents, List.foldlM_append]
  generalize (if Path.isAbsolute root then [] else d.current) = start at walked ⊢
  have led : first.foldlM d.step start = .ok place := by
    rcases hroot with hroot | hroot
    · rwa [hroot] at walked
    · rw [hroot, List.foldlM_append] at walked
      obtain ⟨last, hlast, walked⟩ := bind_eq_ok.1 walked
      obtain ⟨next, stepped, walked⟩ := bind_eq_ok.1 walked
      cases walked
      unfold step at stepped
      split at stepped
      · cases stepped
        exact hlast
      · split at stepped <;> cases stepped
  rw [led, ok_bind]

theorem ne_empty_of_folder (folder : d.folder? root = some place) : root ≠ "" := by
  obtain ⟨⟨⟩, valid, -⟩ := bind_eq_ok.1 (folder?_eq_some.1 folder).1
  exact (check_eq_ok.1 valid).1

/-- Names that lead through folders lead to the place that they are the names of. -/
theorem foldlM_step_names (valid : ∀ name ∈ names, Path.IsName name)
    (short : ∀ name ∈ names, name.utf8ByteSize ≤ longestName)
    (through : ∀ n < names.length, d.isFolderAt (place ++ names.take n) = true) :
    names.foldlM d.step place = .ok (place ++ names) := by
  induction names generalizing place with
  | nil => rw [List.append_nil]; rfl
  | cons name names ih =>
    obtain ⟨hname, hnames⟩ := List.forall_mem_cons.1 valid
    obtain ⟨hshort, hshorts⟩ := List.forall_mem_cons.1 short
    have folder : d.isFolderAt place = true := by
      have := through 0 (Nat.zero_lt_succ _)
      rwa [List.take_zero, List.append_nil] at this
    have down : d.step place name = .ok (place ++ [name]) := by
      simp [step, folder, hname.ne_empty, hname.ne_dot, hname.ne_dots, hshort]
    rw [List.foldlM_cons, down, ok_bind, ih hnames hshorts ?_, List.append_assoc]
    · rfl
    · intro n hn
      have := through (n + 1) (Nat.succ_lt_succ hn)
      rwa [List.take_succ_cons, List.append_cons] at this

theorem mem_filesUnder : names ∈ d.filesUnder place ↔ (d.fileAt (place ++ names)).isSome := by
  have below : ∀ file : List String,
      (if place.isPrefixOf file then some (file.drop place.length) else none) = some names ↔
        place ++ names = file := by
    intro file
    constructor
    · intro h
      obtain ⟨front, rest⟩ := Option.ite_none_right_eq_some.1 h
      obtain ⟨rest', rfl⟩ := List.isPrefixOf_iff_prefix.1 front
      cases rest
      rw [List.drop_left]
    · rintro rfl
      simp
  rw [filesUnder, List.mem_mergeSort, List.mem_filterMap, fileAt, List.lookup_isSome_iff]
  refine exists_congr fun file => and_congr_right fun _ => ?_
  rw [below, beq_iff_eq]

namespace HasTree

variable (h : d.HasTree root place)

include h

theorem ne_nil (file : d.fileAt (place ++ names) = some data) : names ≠ [] := by
  rintro rfl
  have ends := (h.leads [] (by rw [file]; rfl)).ends
  rw [List.append_nil, (folder?_eq_some.1 h.folder).2] at ends
  cases ends

/-- The path that is made of the names of a file in the tree leads to it. -/
theorem locate_behind (file : d.fileAt (place ++ names) = some data) :
    d.locate (Path.behind root (Path.join names)) = .ok (place ++ names) := by
  have leads := h.leads names (by rw [file]; rfl)
  have relative := Path.isAbsolute_join (h.ne_nil file) leads.valid
  obtain ⟨⟨⟩, valid, -⟩ := bind_eq_ok.1 (folder?_eq_some.1 h.folder).1
  obtain ⟨some, plain, -⟩ := check_eq_ok.1 valid
  have valid : check (Path.behind root (Path.join names)) = .ok () := by
    refine check_eq_ok.2 ⟨Path.behind_ne_empty some, fun hnul => ?_, ?_⟩
    · rcases Path.mem_behind hnul with hnul | hnul | hnul
      · exact plain hnul
      · cases hnul
      · rcases Path.mem_join hnul with hnul | ⟨name, hname, hnul⟩
        · cases hnul
        · exact leads.plain name hname hnul
    · rw [← Path.under_eq_behind relative]
      exact leads.path_short
  rw [locate, valid, ok_bind, walk_behind h.folder, Path.components_join (h.ne_nil file) leads.valid]
  exact foldlM_step_names leads.valid leads.short leads.through

theorem hasFile_behind (file : d.fileAt (place ++ names) = some data) :
    d.hasFile (Path.behind root (Path.join names)) = true := by
  have leads := h.leads names (by rw [file]; rfl)
  rw [hasFile, h.locate_behind file]
  simp [leads.ends, file]

/-- A file of the tree is read by the path that is made of its names. -/
theorem read_under (file : d.fileAt (place ++ names) = some data) :
    d.read (Path.under root (Path.join names)) = .ok data := by
  have leads := h.leads names (by rw [file]; rfl)
  have relative := Path.isAbsolute_join (h.ne_nil file) leads.valid
  rw [read, Path.under_eq_behind relative, h.locate_behind file, ok_bind, leads.ends, file]
  rfl

end HasTree

end Disk

/-! ## The bucket of a folder -/

namespace Bucket

variable {d : Disk} {root : String} {place : List String}

theorem seenFrom_behind (some : root ≠ "") (subs : List String) :
    seenFrom root (subs.map (Path.behind root)) =
      { paths := subs.map fun sub => Path.join (Path.lasting sub) } := by
  induction subs with
  | nil => rfl
  | cons sub subs ih =>
    rw [List.map_cons, seenFrom, Path.from?_behind some]
    simp only [ih, List.map_cons]

/-- All that is found below a folder is under it, whatever its names are. -/
theorem list_folder (found : d.folder? root = some place) : (folder root).list d =
    { paths := ((d.filesUnder place).filter fun names => d.hasFile (Path.behind root (Path.join names))).map
        fun names => Path.join (Path.lasting (Path.join names)) } := by
  have seen := seenFrom_behind (Disk.ne_empty_of_folder found) (((d.filesUnder place).filter fun names =>
    d.hasFile (Path.behind root (Path.join names))).map Path.join)
  rw [List.map_map, List.map_map] at seen
  simp only [folder, found, List.filter_map]
  exact seen

/-- Listing a folder fails only where there is none. -/
theorem failure_list_folder (root : String) (d : Disk) : ((folder root).list d).failure =
    if (d.folder? root).isSome then none else some (.fileNotFound root) := by
  cases found : d.folder? root with
  | some place => rw [list_folder found]; rfl
  | none => simp only [folder, found]; rfl

end Bucket

/-- Whether the module files in a table are those of the tree of files at a place, at the paths that are
made of their names. -/
def FileTable.HoldsModuleFiles (t : FileTable) (d : Disk) (place : List String) : Prop :=
  ∀ path data, (FileKind.ofPath? path).isSome →
    (t.get path = .ok data ↔ ∃ names, path = Path.join names ∧ d.fileAt (place ++ names) = some data)

theorem FileTable.mem_paths {t : FileTable} {path : String} :
    path ∈ t.paths ↔ ∃ data, t.get path = .ok data := by
  simp only [FileTable.get_eq_ok, ← Option.isSome_iff_exists, List.lookup_isSome_iff, FileTable.paths,
    List.mem_map, beq_iff_eq]
  exact exists_congr fun file => and_congr_right fun _ => eq_comm

namespace Disk.HasTree

variable {d : Disk} {root path : String} {place names : List String} {data : ByteArray}
variable (h : d.HasTree root place)

include h

theorem list_folder : (Bucket.folder root).list d = ⟨(d.filesUnder place).map Path.join, none⟩ := by
  have file : ∀ names ∈ d.filesUnder place, ∃ data, d.fileAt (place ++ names) = some data :=
    fun names hnames => Option.isSome_iff_exists.1 (mem_filesUnder.1 hnames)
  have openable : ∀ names ∈ d.filesUnder place, d.hasFile (Path.behind root (Path.join names)) = true := by
    intro names hnames
    obtain ⟨data, file⟩ := file names hnames
    exact h.hasFile_behind file
  rw [Bucket.list_folder h.folder, List.filter_eq_self.2 openable]
  congr 1
  refine List.map_congr_left fun names hnames => ?_
  obtain ⟨data, file⟩ := file names hnames
  rw [Path.lasting_join (h.ne_nil file) (h.leads names (mem_filesUnder.1 hnames)).valid]

theorem mem_list_folder : path ∈ ((Bucket.folder root).list d).paths ↔
    ∃ names data, path = Path.join names ∧ d.fileAt (place ++ names) = some data := by
  rw [h.list_folder, List.mem_map]
  refine exists_congr fun names => ?_
  rw [mem_filesUnder, Option.isSome_iff_exists]
  constructor
  · rintro ⟨⟨data, file⟩, rfl⟩
    exact ⟨data, rfl, file⟩
  · rintro ⟨data, rfl, file⟩
    exact ⟨⟨data, file⟩, rfl⟩

theorem read_folder (file : d.fileAt (place ++ names) = some data) :
    (Bucket.folder root).read d (Path.join names) = .ok data := by
  have leads := h.leads names (by rw [file]; rfl)
  simp only [Bucket.folder, Path.normalize_join (h.ne_nil file) leads.valid, h.read_under file]
  rfl

/-- A folder shows the same as a table with the same module files. -/
theorem showsSame {t : FileTable} (same : t.HoldsModuleFiles d place) :
    (Bucket.folder root).ShowsSame d (.memory t) where
  failure := by rw [h.list_folder]; rfl
  listed path hkind := by
    have listed : path ∈ ((Bucket.memory t).list d).paths ↔ ∃ data, t.get path = .ok data :=
      FileTable.mem_paths
    rw [h.mem_list_folder, listed, exists_comm]
    exact exists_congr fun data => (same path data hkind).symm
  read path hkind hpath := by
    obtain ⟨names, data, rfl, file⟩ := h.mem_list_folder.1 hpath
    have stored := (same _ data hkind).2 ⟨names, rfl, file⟩
    exact (h.read_folder file).trans stored.symm

end Disk.HasTree

end ProtoWorkspace
