import Mathlib.Tactic
import ProtoWorkspace.Proofs.Disk.Tree

/-!
# Paths by their components

What a path means can be told by its components alone: the place that they lead to, one component after
the other, and which other paths lie under it. Normalizing a path writes down the place that it leads
to, and of two places each has a text of its own.
-/

namespace ProtoWorkspace

theorem Text.joinFields_append {sep : Char} {first more : List (List Char)} (hf : first ≠ [])
    (hm : more ≠ []) :
    joinFields sep (first ++ more) = joinFields sep first ++ sep :: joinFields sep more := by
  induction first with
  | nil => exact absurd rfl hf
  | cons field rest ih =>
    cases rest with
    | nil =>
      obtain ⟨next, more, rfl⟩ := List.exists_cons_of_ne_nil hm
      rfl
    | cons next rest =>
      have shorter := ih (List.cons_ne_nil next rest)
      rw [List.cons_append] at shorter
      rw [List.cons_append, List.cons_append, joinFields, joinFields, shorter, List.append_assoc,
        List.cons_append]

namespace Path

variable {path base : String} {cs names place place' : List String}

/-! ## Texts and components -/

theorem map_toList_components (path : String) :
    (components path).map String.toList = Text.fields '/' path.toList := by
  rw [components, List.map_map]
  exact (List.map_congr_left fun field _ => String.toList_ofList).trans (List.map_id _)

theorem join_components (path : String) : join (components path) = path := by
  rw [join, map_toList_components, Text.joinFields_fields, String.ofList_toList]

theorem no_slash_of_mem_components {c : String} (h : c ∈ components path) : '/' ∉ c.toList := by
  rw [components] at h
  obtain ⟨field, hfield, rfl⟩ := List.mem_map.1 h
  rw [String.toList_ofList]
  exact Text.not_mem_of_mem_fields hfield

theorem join_append (hf : cs ≠ []) (hn : names ≠ []) :
    join (cs ++ names) = join cs ++ "/" ++ join names := by
  rw [join, List.map_append, Text.joinFields_append (by simpa using hf) (by simpa using hn)]
  rw [← String.toList_inj]
  simp [join, String.toList_append]

/-- Whether a path is `base` or lies under it, told by their components. Everything lies under the empty
path. -/
def Covers (base path : String) : Prop :=
  base = "" ∨ components base <+: components path

theorem components_prefix_iff : components base <+: components path ↔
    path = base ∨ ∃ rest, path = base ++ "/" ++ rest := by
  constructor
  · rintro ⟨more, split⟩
    have whole := join_components path
    rw [← split] at whole
    cases more with
    | nil =>
      rw [List.append_nil, join_components] at whole
      exact .inl whole.symm
    | cons next more =>
      rw [join_append (components_ne_nil base) (List.cons_ne_nil next more), join_components] at whole
      exact .inr ⟨_, whole.symm⟩
  · rintro (rfl | ⟨rest, rfl⟩)
    · exact List.prefix_rfl
    · rw [components_append_slash]
      exact List.prefix_append _ _

theorem isWithin_iff : isWithin path base = true ↔ Covers base path := by
  have behind : (base.toList ++ ['/']).isPrefixOf path.toList = true ↔
      ∃ rest, path = base ++ "/" ++ rest := by
    rw [List.isPrefixOf_iff_prefix]
    constructor
    · rintro ⟨rest, split⟩
      refine ⟨String.ofList rest, ?_⟩
      rw [← String.toList_inj, ← split]
      simp [String.toList_append]
    · rintro ⟨rest, rfl⟩
      exact ⟨rest.toList, by simp [String.toList_append]⟩
  rw [isWithin, Bool.or_eq_true, Bool.or_eq_true, behind, beq_iff_eq, List.isEmpty_iff,
    String.toList_eq_nil_iff, or_assoc, Covers, components_prefix_iff]

/-! ## Places -/

/-- Where the components of a path lead to from a place, one after the other: empty ones and `.` stay, `..`
goes up one level, and any other goes down. From the root there is no way up. -/
inductive Leads : List String → List String → List String → Prop
  | here (place : List String) : Leads place [] place
  | stay {c : String} {rest place place' : List String} (h : c = "" ∨ c = ".")
    (go : Leads place rest place') : Leads place (c :: rest) place'
  | up {last : String} {rest place place' : List String} (go : Leads place rest place') :
    Leads (place ++ [last]) (".." :: rest) place'
  | down {c : String} {rest place place' : List String} (empty : c ≠ "") (dot : c ≠ ".")
    (dots : c ≠ "..") (go : Leads (place ++ [c]) rest place') : Leads place (c :: rest) place'

/-- Whether a path leads from the root to a place. -/
def LeadsTo (path : String) (place : List String) : Prop :=
  Leads [] (components path) place

/-- Whether two paths lead to one place. -/
def SamePlace (path path' : String) : Prop :=
  ∃ place, LeadsTo path place ∧ LeadsTo path' place

theorem leads_nil_iff : Leads place [] place' ↔ place = place' := by
  constructor
  · rintro ⟨⟩
    rfl
  · rintro rfl
    exact .here _

theorem leads_stay_iff {c : String} (h : c = "" ∨ c = ".") :
    Leads place (c :: cs) place' ↔ Leads place cs place' := by
  refine ⟨fun leads => ?_, .stay h⟩
  cases leads with
  | stay _ go => exact go
  | up go => exact absurd h (by decide)
  | down empty dot => exact absurd h (not_or.2 ⟨empty, dot⟩)

theorem leads_up_iff :
    Leads place (".." :: cs) place' ↔ ∃ above last, place = above ++ [last] ∧ Leads above cs place' := by
  constructor
  · intro leads
    cases leads with
    | stay h => exact absurd h (by decide)
    | up go => exact ⟨_, _, rfl, go⟩
    | down _ _ dots => exact absurd rfl dots
  · rintro ⟨above, last, rfl, go⟩
    exact .up go

theorem leads_down_iff {c : String} (h : ¬ (c = "" ∨ c = ".")) (dots : c ≠ "..") :
    Leads place (c :: cs) place' ↔ Leads (place ++ [c]) cs place' := by
  obtain ⟨empty, dot⟩ := not_or.1 h
  refine ⟨fun leads => ?_, .down empty dot dots⟩
  cases leads with
  | stay stays => exact absurd stays h
  | up => exact absurd rfl dots
  | down _ _ _ go => exact go

/-- A walk keeps the way from the root with its last component in front. -/
theorem foldlM_step_eq_some {way way' : List String} :
    cs.foldlM step way = some way' ↔ Leads way.reverse cs way'.reverse := by
  induction cs generalizing way with
  | nil => rw [List.foldlM_nil, leads_nil_iff, List.reverse_inj, Option.pure_def, Option.some_inj]
  | cons c rest ih =>
    rw [List.foldlM_cons, step.eq_def]
    split
    · next stays =>
      rw [leads_stay_iff stays]
      exact ih
    · next moves =>
      split
      · next up =>
        subst up
        rw [leads_up_iff]
        cases way with
        | nil => simp
        | cons last way =>
          rw [List.reverse_cons]
          simp only [List.append_singleton_inj]
          exact ih.trans ⟨fun go => ⟨_, _, ⟨rfl, rfl⟩, go⟩, fun ⟨_, _, ⟨same, _⟩, go⟩ => same ▸ go⟩
      · next down =>
        rw [leads_down_iff moves down, ← List.reverse_cons]
        exact ih

theorem walk_eq_some : walk cs = some place ↔ Leads [] cs place := by
  rw [walk, Option.map_eq_some_iff]
  constructor
  · rintro ⟨way, walked, rfl⟩
    exact foldlM_step_eq_some.1 walked
  · intro leads
    refine ⟨place.reverse, foldlM_step_eq_some.2 ?_, List.reverse_reverse place⟩
    rwa [List.reverse_reverse]

theorem normalize_eq_ok {text : String} :
    normalize path = .ok text ↔ isAbsolute path = false ∧ ∃ place, LeadsTo path place ∧ text = join place := by
  rw [normalize]
  cases isAbsolute path with
  | true => simp
  | false =>
    cases walked : walk (components path) with
    | none =>
      have nowhere : ¬ ∃ place, LeadsTo path place ∧ text = join place := by
        rintro ⟨place, leads, -⟩
        cases walked.symm.trans (walk_eq_some.2 leads)
      simp [nowhere]
    | some place =>
      constructor
      · rintro ⟨⟩
        exact ⟨rfl, place, walk_eq_some.1 walked, rfl⟩
      · rintro ⟨-, place', leads, rfl⟩
        cases walked.symm.trans (walk_eq_some.2 leads)
        rfl

/-- A path leads to one place at most. -/
theorem LeadsTo.unique (h : LeadsTo path place) (h' : LeadsTo path place') : place = place' :=
  Option.some.inj ((walk_eq_some.2 h).symm.trans (walk_eq_some.2 h'))

/-- On the way there are only names. -/
theorem Leads.isName (h : Leads place cs place') (slashes : ∀ c ∈ cs, '/' ∉ c.toList)
    (before : ∀ name ∈ place, IsName name) : ∀ name ∈ place', IsName name := by
  induction h with
  | here => exact before
  | stay _ _ ih => exact ih (List.forall_mem_cons.1 slashes).2 before
  | up _ ih =>
    exact ih (List.forall_mem_cons.1 slashes).2 fun name h => before name (List.mem_append_left _ h)
  | down empty dot dots _ ih =>
    obtain ⟨slash, slashes⟩ := List.forall_mem_cons.1 slashes
    refine ih slashes (List.forall_mem_append.2 ⟨before, List.forall_mem_singleton.2 ?_⟩)
    exact ⟨empty, dot, dots, slash⟩

theorem LeadsTo.isName (h : LeadsTo path place) : ∀ name ∈ place, IsName name :=
  Leads.isName h (fun _ => no_slash_of_mem_components) (by simp)

/-- Different places have different texts. -/
theorem join_inj (h : ∀ name ∈ place, IsName name) (h' : ∀ name ∈ place', IsName name) :
    join place = join place' ↔ place = place' := by
  refine ⟨fun same => ?_, congrArg join⟩
  have nonempty {names : List String} (valid : ∀ name ∈ names, IsName name) (some : names ≠ []) :
      join names ≠ join [] := by
    intro none
    have found := components_join some valid
    rw [none] at found
    exact (valid "" (found ▸ List.mem_singleton.2 rfl)).ne_empty rfl
  by_cases none : place = []
  · subst none
    by_contra other
    exact nonempty h' (Ne.symm other) same.symm
  · by_cases none' : place' = []
    · subst none'
      exact absurd same (nonempty h none)
    · rw [← components_join none h, same, components_join none' h']

/-! ## The parts of a path -/

/-- Components that stay where they are can be left out. -/
theorem foldlM_step_filter {keep : String → Bool} (h : ∀ c, keep c = false → c = "" ∨ c = ".")
    (cs way : List String) : (cs.filter keep).foldlM step way = cs.foldlM step way := by
  induction cs generalizing way with
  | nil => rfl
  | cons c rest ih =>
    cases kept : keep c with
    | true =>
      rw [List.filter_cons_of_pos kept, List.foldlM_cons, List.foldlM_cons]
      exact congrArg (step way c >>= ·) (funext ih)
    | false =>
      have stays : step way c = some way := by rw [step.eq_def, if_pos (h c kept)]
      rw [List.filter_cons_of_neg (by simp [kept]), ih, List.foldlM_cons, stays]
      rfl

/-- The parts of a relative path are its components without those that stay where they are, but for one
at the very start. -/
theorem parts_eq_filter (relative : isAbsolute path = false) :
    ∃ keep : String → Bool, (∀ c, keep c = false → c = "" ∨ c = ".") ∧ keep "" = false ∧
      (parts path = (components path).filter keep ∨
        ∃ rest, components path = "." :: rest ∧ parts path = "." :: rest.filter keep) := by
  refine ⟨fun c => decide (c ≠ ".") && decide (c ≠ ""), fun c dropped => ?_, rfl, ?_⟩
  · simpa [or_comm, imp_iff_not_or] using dropped
  · rw [parts, relative, if_neg Bool.false_ne_true]
    split
    · next rest first =>
      refine .inr ⟨rest, first, ?_⟩
      rw [first, List.filter_cons_of_pos (by decide), List.drop_one, List.tail_cons,
        List.filter_filter]
    · exact .inl List.filter_filter

theorem walk_parts (relative : isAbsolute path = false) : walk (parts path) = walk (components path) := by
  obtain ⟨keep, stays, -, split | ⟨rest, first, split⟩⟩ := parts_eq_filter relative
  · rw [split, walk, walk, foldlM_step_filter stays]
  · rw [split, first, walk, walk, List.foldlM_cons, List.foldlM_cons]
    exact congrArg (Option.map List.reverse <| step [] "." >>= ·)
      (funext (foldlM_step_filter stays rest))

theorem mem_parts {c : String} (relative : isAbsolute path = false) (h : c ∈ parts path) :
    c ≠ "" ∧ '/' ∉ c.toList := by
  obtain ⟨keep, -, dropsEmpty, split | ⟨rest, first, split⟩⟩ := parts_eq_filter relative
  · rw [split] at h
    obtain ⟨hc, kept⟩ := List.mem_filter.1 h
    refine ⟨?_, no_slash_of_mem_components hc⟩
    rintro rfl
    cases dropsEmpty.symm.trans kept
  · rw [split] at h
    rcases List.mem_cons.1 h with rfl | h
    · decide
    · obtain ⟨hc, kept⟩ := List.mem_filter.1 h
      refine ⟨?_, no_slash_of_mem_components (first ▸ List.mem_cons_of_mem _ hc)⟩
      rintro rfl
      cases dropsEmpty.symm.trans kept

theorem head?_components_of_isAbsolute (h : isAbsolute path = true) :
    (components path).head? = some "" := by
  rw [isAbsolute, beq_iff_eq, List.head?_eq_some_iff] at h
  obtain ⟨chars, hchars⟩ := h
  rw [components, hchars, Text.fields, if_pos rfl]
  rfl

theorem isAbsolute_join_parts (path : String) : isAbsolute (join (parts path)) = isAbsolute path := by
  cases start : isAbsolute path with
  | true =>
    obtain ⟨chars, hchars⟩ : ∃ chars, (join (parts path)).toList = '/' :: chars := by
      rw [parts, start, if_pos rfl, join, String.toList_ofList]
      cases ((components path).filter (· ≠ "")).filter (· ≠ ".") with
      | nil => exact ⟨[], rfl⟩
      | cons next more => exact ⟨_, rfl⟩
    rw [isAbsolute, hchars]
    rfl
  | false =>
    cases split : parts path with
    | nil => rfl
    | cons first rest =>
      by_contra absolute
      have inner {c : String} (h : c ∈ first :: rest) := mem_parts start (split ▸ h)
      have found := components_join_of_no_slash (List.cons_ne_nil first rest) fun c hc => (inner hc).2
      have head := head?_components_of_isAbsolute (Bool.not_eq_false _ ▸ absolute)
      rw [found, List.head?_cons, Option.some_inj] at head
      exact (inner List.mem_cons_self).1 head

theorem walk_components_join_parts (relative : isAbsolute path = false) :
    walk (components (join (parts path))) = walk (components path) := by
  rw [← walk_parts relative]
  by_cases none : parts path = []
  · rw [none]
    rfl
  · rw [components_join_of_no_slash none fun c hc => (mem_parts relative hc).2]

/-- A path that is taken apart and joined again names the place that it named. -/
theorem normalize_join_parts :
    normalize (join (parts path)) = .ok base ↔ normalize path = .ok base := by
  rw [normalize, normalize, isAbsolute_join_parts]
  cases start : isAbsolute path with
  | true => simp
  | false =>
    rw [if_neg Bool.false_ne_true, if_neg Bool.false_ne_true, walk_components_join_parts start]
    cases walk (components path) <;> simp

end Path

end ProtoWorkspace
