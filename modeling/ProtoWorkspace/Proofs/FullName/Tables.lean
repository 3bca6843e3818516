import Mathlib
import ProtoWorkspace.Proofs.FullName.Spelling
import ProtoWorkspace.Proofs.ModuleSet.Fresh
import ProtoWorkspace.Proofs.ModuleSet.Names
import ProtoWorkspace.Registry

/-!
# Tables keyed by the texts of names

The modules of a set, the additions that are merged into one and the labels of a registry are found in
tables that are keyed by the texts of names. As different names have different texts, each table gives what
a search by name gives. Main statement: `FullName.text_is_exact`.
-/

namespace ProtoWorkspace

open Fallible

/-! ## Modules by identity -/

section Positions

variable {α : Type} {text : α → String} {xs : List α}

/-- The table of the positions of elements by their texts. -/
def positions (text : α → String) (xs : List α) : Std.HashMap String ℕ :=
  xs.zipIdx.foldl (fun table p => table.insert (text p.1) p.2) ∅

theorem getElem?_foldl_insert (different : (xs.map text).Nodup) (start : ℕ) (table : Std.HashMap String ℕ)
    (t : String) : ((xs.zipIdx start).foldl (fun table p => table.insert (text p.1) p.2) table)[t]? =
      ((xs.findIdx? (text · == t)).map (start + ·)).or table[t]? := by
  induction xs generalizing start table with
  | nil => simp
  | cons x xs ih =>
    rw [List.map_cons, List.nodup_cons] at different
    rw [List.zipIdx_cons, List.foldl_cons, ih different.2, List.findIdx?_cons, Std.HashMap.getElem?_insert]
    by_cases here : text x = t
    · have later : xs.findIdx? (text · == t) = none := by
        rw [List.findIdx?_eq_none_iff]
        intro y hy
        simpa using fun same : text y = t => different.1 (List.mem_map.2 ⟨y, hy, same.trans here.symm⟩)
      simp [later, here]
    · simp only [here, beq_iff_eq, if_false, Option.map_map]
      congr 2
      funext i
      simp only [Function.comp_apply]
      omega

/-- Elements with different texts are found where they are. -/
theorem getElem?_positions (different : (xs.map text).Nodup) (t : String) :
    (positions text xs)[t]? = xs.findIdx? (text · == t) := by
  rw [positions, getElem?_foldl_insert different]
  simp

end Positions

namespace ModuleSet

variable {s : ModuleSet} {x : Module} {a b : FullName}

/-- The module with an identity is found at the position that the table has for the identity. -/
theorem find?_eq_positions (s : ModuleSet) (identity : String) :
    s.find? identity = (positions Module.identity s.modules)[identity]?.bind (s.modules[·]?) := by
  rw [find?, List.find?_eq_bind_findIdx?_getElem?, getElem?_positions s.nodup_identity]

/-- Under the text of a name no module of another name is found. -/
theorem findName?_eq_some_iff_eq (hx : x ∈ s.modules) (named : x.name = some a) :
    s.findName? b = some x ↔ a = b := by
  rw [findName?_eq_some, named]
  simp [hx]

/-! ## Merging with an index -/

/-- Settles which of two additions of one name stands where the first one stood, and what is put behind
all others. -/
def settle (name : FullName) (old incoming : Source × Addition) :
    Except Error ((Source × Addition) × List (Source × Addition)) :=
  match old.2.isLocal, incoming.2.isLocal with
  | true, true => .ok (old, [incoming])
  | true, false => .ok (old, [])
  | false, true => .ok (incoming, [])
  | false, false =>
    if old.2.commit = incoming.2.commit then
      .ok ((old.1, { old.2 with isTarget := old.2.isTarget || incoming.2.isTarget }), [])
    else .error (.conflictingCommits name.text old.2.commit.plain incoming.2.commit.plain)

/-- Additions that are kept, and a table of the positions of names by their texts. -/
structure Indexed where
  kept : List (Source × Addition) := []
  index : Std.HashMap String ℕ := ∅

namespace Indexed

/-- Puts an addition among those that are kept. The table tells whether its name has been met, and where. -/
def add (t : Indexed) (incoming : Source × Addition) : Except Error Indexed :=
  match incoming.2.name with
  | none => .ok { t with kept := t.kept ++ [incoming] }
  | some name =>
    match t.index[name.text]? with
    | none => .ok ⟨t.kept ++ [incoming], t.index.insert name.text t.kept.length⟩
    | some position =>
      match t.kept[position]? with
      | none => .ok t
      | some old => do
        let (first, behind) ← settle name old incoming
        return { t with kept := t.kept.set position first ++ behind }

/-- The texts of the names of additions. -/
def texts (kept : List (Source × Addition)) : List (Option String) :=
  kept.map fun p => p.2.name.map FullName.text

/-- Whether the table has the first position of each name. -/
def IsTrue (t : Indexed) : Prop :=
  ∀ text, t.index[text]? = (texts t.kept).findIdx? (· == some text)

end Indexed

section Settle

variable {name : FullName} {old incoming : Source × Addition} {kept : List (Source × Addition)}

theorem settle_eq_ok {first : Source × Addition} {behind : List (Source × Addition)}
    (h : settle name old incoming = .ok (first, behind)) (hold : old.2.name = some name)
    (hin : incoming.2.name = some name) :
    first.2.name = some name ∧ (behind = [] ∨ behind = [incoming]) := by
  unfold settle at h
  split at h
  · cases h
    exact ⟨hold, .inr rfl⟩
  · cases h
    exact ⟨hold, .inl rfl⟩
  · cases h
    exact ⟨hin, .inl rfl⟩
  · split at h
    · cases h
      exact ⟨hold, .inl rfl⟩
    · cases h

theorem merge_cons_of_settle (hold : old.2.name = some name) (hin : incoming.2.name = some name) :
    merge incoming (old :: kept) =
      (fun settled => settled.1 :: kept ++ settled.2) <$> settle name old incoming := by
  rw [merge_cons_of_eq hin hold, settle]
  cases old.2.isLocal <;> cases incoming.2.isLocal
  · dsimp only
    split <;> simp
  · simp
  · simp
  · simp

/-- Merging meets the first addition with the name. -/
theorem merge_of_findIdx? (hin : incoming.2.name = some name) {position : ℕ}
    (found : (Indexed.texts kept).findIdx? (· == some name.text) = some position) :
    ∃ old, kept[position]? = some old ∧ old.2.name = some name ∧ merge incoming kept =
      (fun settled => kept.set position settled.1 ++ settled.2) <$> settle name old incoming := by
  induction kept generalizing position with
  | nil => cases found
  | cons q kept ih =>
    rw [Indexed.texts, List.map_cons, List.findIdx?_cons] at found
    have same : (q.2.name.map FullName.text == some name.text) = true ↔ q.2.name = some name := by
      cases q.2.name <;> simp [FullName.text_inj]
    split at found
    · next here =>
      cases found
      exact ⟨q, rfl, same.1 here, merge_cons_of_settle (same.1 here) hin⟩
    · next there =>
      obtain ⟨i, later, rfl⟩ := Option.map_eq_some_iff.1 found
      obtain ⟨old, hold, hname, merged⟩ := ih later
      refine ⟨old, hold, hname, ?_⟩
      rw [merge_cons_of_ne fun _ equal => there (same.2 (equal.trans hin)), merged]
      cases settle name old incoming <;> simp

end Settle

namespace Indexed

variable {t : Indexed} {incoming : Source × Addition} {name : FullName}

/-- What is put behind does not move the names that were met. -/
theorem findIdx?_texts_append (before behind : List (Source × Addition)) (text : String) :
    (texts (before ++ behind)).findIdx? (· == some text) =
      ((texts before).findIdx? (· == some text)).or
        (((texts behind).findIdx? (· == some text)).map (· + before.length)) := by
  rw [texts, texts, texts, List.map_append, List.findIdx?_append, List.length_map]

theorem IsTrue.add_unnamed (h : t.IsTrue) (unnamed : incoming.2.name = none) :
    IsTrue { t with kept := t.kept ++ [incoming] } := by
  intro text
  rw [findIdx?_texts_append, ← h text]
  simp [texts, unnamed]

theorem IsTrue.add_new (h : t.IsTrue) (hin : incoming.2.name = some name)
    (new : t.index[name.text]? = none) :
    IsTrue ⟨t.kept ++ [incoming], t.index.insert name.text t.kept.length⟩ := by
  intro text
  rw [findIdx?_texts_append, ← h text, Std.HashMap.getElem?_insert]
  by_cases here : name.text = text
  · subst here
    simp [texts, hin, new]
  · simp [texts, hin, here]

theorem IsTrue.add_settled (h : t.IsTrue) {position : ℕ} {old first : Source × Addition}
    {behind : List (Source × Addition)} (met : t.index[name.text]? = some position)
    (there : t.kept[position]? = some old) (hold : old.2.name = some name)
    (hin : incoming.2.name = some name) (settled : settle name old incoming = .ok (first, behind)) :
    IsTrue { t with kept := t.kept.set position first ++ behind } := by
  obtain ⟨hfirst, hbehind⟩ := settle_eq_ok settled hold hin
  have same : texts (t.kept.set position first) = texts t.kept := by
    obtain ⟨bound, rfl⟩ := List.getElem?_eq_some_iff.1 there
    have bound' : position < (texts t.kept).length := by simpa [texts] using bound
    have here : first.2.name.map FullName.text = (texts t.kept)[position] := by simp [texts, hfirst, hold]
    calc texts (t.kept.set position first)
      _ = (texts t.kept).set position (first.2.name.map FullName.text) := List.map_set
      _ = texts t.kept := by rw [here, List.set_getElem_self]
  intro text
  rw [findIdx?_texts_append, same, ← h text]
  rcases hbehind with rfl | rfl
  · simp [texts]
  · by_cases here : name.text = text
    · subst here
      simp [met]
    · simp [texts, hin, here]

theorem add_of_met {position : ℕ} {old : Source × Addition} (hin : incoming.2.name = some name)
    (met : t.index[name.text]? = some position) (there : t.kept[position]? = some old) :
    t.add incoming = (fun settled => { t with kept := t.kept.set position settled.1 ++ settled.2 }) <$>
      settle name old incoming := by
  simp only [Indexed.add, hin, met, there]
  cases settle name old incoming <;> rfl

/-- With a table of the first positions an addition is put where merging puts it, and the table stays
one. -/
theorem IsTrue.add (h : t.IsTrue) (incoming : Source × Addition) :
    Indexed.kept <$> t.add incoming = merge incoming t.kept ∧
      ∀ t', t.add incoming = .ok t' → t'.IsTrue := by
  cases hin : incoming.2.name with
  | none =>
    have added : t.add incoming = .ok { t with kept := t.kept ++ [incoming] } := by
      simp only [Indexed.add, hin]
    rw [added, merge_of_forall_ne fun _ _ => by simp [hin]]
    refine ⟨rfl, ?_⟩
    rintro _ ⟨⟩
    exact h.add_unnamed hin
  | some name =>
    cases met : t.index[name.text]? with
    | none =>
      have added : t.add incoming =
          .ok ⟨t.kept ++ [incoming], t.index.insert name.text t.kept.length⟩ := by
        simp only [Indexed.add, hin, met]
      have absent := met
      rw [h, List.findIdx?_eq_none_iff] at absent
      have others (q : Source × Addition) (hq : q ∈ t.kept) : q.2.name ≠ incoming.2.name := by
        rw [hin]
        intro same
        simpa [same] using absent _ (List.mem_map_of_mem hq)
      rw [added, merge_of_forall_ne fun q hq _ => others q hq]
      refine ⟨rfl, ?_⟩
      rintro _ ⟨⟩
      exact h.add_new hin met
    | some position =>
      obtain ⟨old, there, hold, merged⟩ := merge_of_findIdx? hin ((h name.text).symm.trans met)
      rw [add_of_met hin met there, merged]
      refine ⟨by cases settle name old incoming <;> rfl, fun t' added => ?_⟩
      obtain ⟨⟨first, behind⟩, settled, rfl⟩ := map_eq_ok.1 added
      exact h.add_settled met there hold hin settled

/-- Additions are merged with an index as they are by their names. -/
theorem foldlM_add (additions : List (Source × Addition)) :
    Indexed.kept <$> additions.foldlM add {} = mergeAll additions := by
  have all : ∀ t : Indexed, t.IsTrue →
      Indexed.kept <$> additions.foldlM add t = additions.foldlM (fun kept new => merge new kept) t.kept := by
    induction additions with
    | nil => exact fun _ _ => rfl
    | cons incoming rest ih =>
      intro t h
      obtain ⟨merged, stays⟩ := h.add incoming
      rw [List.foldlM_cons, List.foldlM_cons, ← merged]
      cases added : t.add incoming with
      | error e => rfl
      | ok t' => exact ih t' (stays t' added)
  exact all {} fun text => by simp [texts]

end Indexed

end ModuleSet

/-! ## Labels -/

namespace Registry

/-- The labels of each name by its text, where the first of equal entries counts. -/
def labelTable : List ((FullName × String) × CommitId) → Std.HashMap String (Std.HashMap String CommitId)
  | [] => ∅
  | ((name, label), commit) :: labels =>
    (labelTable labels).alter name.text fun named => some ((named.getD ∅).insert label commit)

/-- The table of labels leads to the commits that the registry has under names and labels. -/
theorem labeled?_eq_labelTable (r : Registry) (name : FullName) (label : String) :
    r.labeled? name label = (labelTable r.labels)[name.text]?.bind (·[label]?) := by
  rw [labeled?]
  induction r.labels with
  | nil => simp [labelTable]
  | cons entry labels ih =>
    obtain ⟨⟨name', label'⟩, commit⟩ := entry
    rw [List.lookup_cons, ih, labelTable, Std.HashMap.getElem?_alter]
    by_cases names : name = name'
    · subst names
      by_cases same : label = label'
      · subst same
        simp
      · have apart : ((name, label) == (name, label')) = false := by simpa using same
        rw [apart]
        cases (labelTable labels)[name.text]? <;> simp [Std.HashMap.getElem?_insert, Ne.symm same]
    · have apart : ((name, label) == (name', label')) = false := by simp [names]
      have texts : ¬ name'.text = name.text := fun same => names (FullName.text_injective same).symm
      rw [apart]
      simp [texts]

end Registry

namespace FullName

/-- A text is a full name exactly when it is made of three valid parts with slashes between them, and it is
the text of that name. A full name is made of three parts exactly when they are valid, and it is the name
that is read from them with slashes between them. So two names are equal exactly when their texts are. Hence
the tables that are keyed by texts do not confuse names: under the text of a name no module of another name
is found, additions are merged with an index of texts as they are by their names, and the labels under the
text of a name are the labels of this name. -/
theorem text_is_exact :
    (∀ s, (Succeeds (parse s) ↔ IsSpelled s) ∧ ∀ n, parse s = .ok n → n.text = s) ∧
    (∀ registry owner name,
      (Succeeds (ofParts registry owner name) ↔
        NamePart.IsValid registry ∧ NamePart.IsValid owner ∧ NamePart.IsValid name) ∧
      SameValue (ofParts registry owner name) (parse (textOf registry owner name))) ∧
    (∀ a b : FullName, a = b ↔ a.text = b.text) ∧
    (∀ s : ModuleSet,
      (∀ identity, s.find? identity =
        (positions Module.identity s.modules)[identity]?.bind (s.modules[·]?)) ∧
      ∀ x ∈ s.modules, ∀ a b, x.name = some a → (s.findName? b = some x ↔ a = b)) ∧
    (∀ additions, ModuleSet.Indexed.kept <$> additions.foldlM ModuleSet.Indexed.add {} =
      ModuleSet.mergeAll additions) ∧
    ∀ (r : Registry) (name : FullName) (label : String), r.labeled? name label =
      (Registry.labelTable r.labels)[name.text]?.bind (·[label]?) :=
  ⟨fun _ => ⟨succeeds_parse_iff, fun _ => parse_eq_ok.1⟩,
    fun registry owner name => ⟨succeeds_ofParts_iff, ofParts_sameValue_parse registry owner name⟩,
    fun _ _ => text_inj.symm,
    fun s => ⟨s.find?_eq_positions, fun _ hx _ _ => ModuleSet.findName?_eq_some_iff_eq hx⟩,
    ModuleSet.Indexed.foldlM_add, Registry.labeled?_eq_labelTable⟩

end FullName

namespace Sample

/-- A name that is read from its text finds the module of the name, in a set of which it was given twice. -/
theorem findName?_read : ∃ t x name,
    ModuleSet.build 0 .standard [olderRemote, sharedLocal] = .ok t ∧ x ∈ t.modules ∧
    FullName.parse "registry/owner/shared" = .ok name ∧ x.name = some name ∧
    t.findName? name = some x := by
  obtain ⟨reads, -, same, finds, -⟩ := FullName.text_is_exact
  obtain ⟨name, read⟩ := (reads "registry/owner/shared").1.2
    ⟨"registry", "owner", "shared", by decide, by decide, by decide, rfl⟩
  obtain rfl : name = sharedName := (same _ _).2 ((reads _).2 name read)
  exact ⟨_, _, sharedName, rfl, List.mem_cons_self, read, rfl,
    ((finds _).2 _ List.mem_cons_self _ _ rfl).2 rfl⟩

end Sample

end ProtoWorkspace
