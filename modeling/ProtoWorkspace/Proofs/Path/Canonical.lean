import Mathlib
import ProtoWorkspace.Proofs.Fallible
import ProtoWorkspace.Proofs.Path

/-!
# The canonical form of a path

A path under the root is refused exactly when it goes up more often than it has gone down. Any other leads
to a place, and normalizing it writes the names on the way to this place. So a path that was normalized
stays as it is, it stands for all paths that lead to its place, and it can take their part at the start of a
longer path. Main statement: `Path.normalize_canonical`.
-/

namespace ProtoWorkspace.Path

open Fallible

variable {path text c : String} {cs more place place' : List String}

/-! ## Paths that leave the root -/

/-- How many of the components go down, as all do but the empty one, `.` and `..`. -/
def descents (cs : List String) : Nat :=
  cs.countP fun c => decide (c ≠ "" ∧ c ≠ "." ∧ c ≠ "..")

/-- How many of the components go up. -/
def ascents (cs : List String) : Nat :=
  cs.count ".."

/-- Whether the components leave the root somewhere: up to there more of them go up than down. -/
def Escapes (cs : List String) : Prop :=
  ∃ front, front <+: cs ∧ descents front < ascents front

theorem descents_cons_of_stays (h : c = "" ∨ c = ".") : descents (c :: cs) = descents cs := by
  rcases h with rfl | rfl <;> simp [descents]

theorem ascents_cons_of_stays (h : c = "" ∨ c = ".") : ascents (c :: cs) = ascents cs := by
  rcases h with rfl | rfl <;> simp [ascents]

theorem descents_cons_up : descents (".." :: cs) = descents cs := by
  simp [descents]

theorem ascents_cons_up : ascents (".." :: cs) = ascents cs + 1 := by
  simp [ascents]

theorem descents_cons_down (h : ¬ (c = "" ∨ c = ".")) (dots : c ≠ "..") :
    descents (c :: cs) = descents cs + 1 := by
  obtain ⟨empty, dot⟩ := not_or.1 h
  simp [descents, empty, dot, dots]

theorem ascents_cons_down (dots : c ≠ "..") : ascents (c :: cs) = ascents cs := by
  simp [ascents, dots]

theorem exists_prefix_cons {P : List String → Prop} :
    (∃ front, front <+: c :: cs ∧ P front) ↔ P [] ∨ ∃ front, front <+: cs ∧ P (c :: front) := by
  constructor
  · rintro ⟨front, before, h⟩
    rcases List.prefix_cons_iff.1 before with rfl | ⟨rest, rfl, within⟩
    · exact .inl h
    · exact .inr ⟨rest, within, h⟩
  · rintro (h | ⟨front, before, h⟩)
    · exact ⟨[], List.nil_prefix, h⟩
    · exact ⟨c :: front, List.prefix_cons_iff.2 (.inr ⟨front, rfl, before⟩), h⟩

/-- A walk that has come down some way breaks off where the components go up further than that. -/
theorem foldlM_step_eq_none {way : List String} : cs.foldlM step way = none ↔
    ∃ front, front <+: cs ∧ way.length + descents front < ascents front := by
  induction cs generalizing way with
  | nil => simp [descents, ascents]
  | cons c rest ih =>
    have start : ¬ way.length + descents [] < ascents [] := Nat.not_lt_zero _
    rw [List.foldlM_cons, exists_prefix_cons, or_iff_right start, step.eq_def]
    split
    · next stays =>
      simp only [descents_cons_of_stays stays, ascents_cons_of_stays stays]
      exact ih
    · next moves =>
      split
      · next up =>
        subst up
        simp only [descents_cons_up, ascents_cons_up]
        cases way with
        | nil =>
          refine iff_of_true rfl ⟨[], List.nil_prefix, ?_⟩
          simp [descents, ascents]
        | cons last way =>
          refine ih.trans (exists_congr fun front => and_congr_right fun _ => ?_)
          rw [List.length_cons]
          omega
      · next down =>
        simp only [descents_cons_down moves down, ascents_cons_down down]
        refine ih.trans (exists_congr fun front => and_congr_right fun _ => ?_)
        rw [List.length_cons]
        omega

theorem walk_eq_none : walk cs = none ↔ Escapes cs := by
  rw [walk, Option.map_eq_none_iff, foldlM_step_eq_none, Escapes]
  simp only [List.length_nil, Nat.zero_add]

theorem normalize_eq_error {fault : Fault} : normalize path = .error fault ↔
    isAbsolute path = true ∧ fault = .absolute path ∨
    isAbsolute path = false ∧ Escapes (components path) ∧ fault = .outside path := by
  rw [normalize, ← walk_eq_none]
  cases isAbsolute path with
  | true => simp [eq_comm]
  | false => cases walk (components path) <;> simp [eq_comm]

/-! ## Paths as places are written -/

/-- Whether a path is written the way a place is: its components are names, and it has no slash at either
end. The place of the root has an empty text. -/
structure IsCanonical (path : String) : Prop where
  names : path = "" ∨ ∀ c ∈ components path, IsName c
  head : path.toList.head? ≠ some '/'
  last : path.toList.getLast? ≠ some '/'

theorem mem_components_of_head? (h : path.toList.head? = some '/') : "" ∈ components path := by
  rw [List.head?_eq_some_iff] at h
  obtain ⟨chars, hchars⟩ := h
  rw [components, hchars, Text.fields, if_pos rfl]
  exact List.mem_cons_self

theorem mem_components_of_getLast? (h : path.toList.getLast? = some '/') : "" ∈ components path := by
  obtain ⟨chars, hchars⟩ := List.getLast?_eq_some_iff.1 h
  have split : path = String.ofList chars ++ "/" ++ "" := by
    rw [← String.toList_inj]
    simp [String.toList_append, hchars]
  rw [split, components_append_slash]
  exact List.mem_append_right _ (List.mem_singleton.2 rfl)

theorem isCanonical_join (valid : ∀ name ∈ place, IsName name) : IsCanonical (join place) := by
  by_cases none : place = []
  · subst none
    exact ⟨.inl rfl, by decide, by decide⟩
  · have found := components_join none valid
    have noEmpty : "" ∉ components (join place) := by
      rw [found]
      exact fun h => (valid "" h).ne_empty rfl
    refine ⟨.inr ?_, fun h => noEmpty (mem_components_of_head? h),
      fun h => noEmpty (mem_components_of_getLast? h)⟩
    rwa [found]

theorem normalize_join_of_names (valid : ∀ name ∈ place, IsName name) :
    normalize (join place) = .ok (join place) := by
  by_cases none : place = []
  · subst none
    rfl
  · exact normalize_join none valid

theorem leadsTo_join (valid : ∀ name ∈ place, IsName name) : LeadsTo (join place) place := by
  obtain ⟨-, place', leads, same⟩ := normalize_eq_ok.1 (normalize_join_of_names valid)
  obtain rfl := (join_inj valid leads.isName).1 same
  exact leads

/-! ## Longer paths -/

theorem leads_append : Leads place (cs ++ more) place' ↔
    ∃ between, Leads place cs between ∧ Leads between more place' := by
  constructor
  · intro leads
    induction cs generalizing place with
    | nil => exact ⟨place, .here place, leads⟩
    | cons c rest ih =>
      cases leads with
      | stay h go =>
        obtain ⟨between, first, then'⟩ := ih go
        exact ⟨between, .stay h first, then'⟩
      | up go =>
        obtain ⟨between, first, then'⟩ := ih go
        exact ⟨between, .up first, then'⟩
      | down empty dot dots go =>
        obtain ⟨between, first, then'⟩ := ih go
        exact ⟨between, .down empty dot dots first, then'⟩
  · rintro ⟨between, first, then'⟩
    induction first with
    | here => exact then'
    | stay h _ ih => exact .stay h (ih then')
    | up _ ih => exact .up (ih then')
    | down empty dot dots _ ih => exact .down empty dot dots (ih then')

theorem leadsTo_append_slash {more : String} : LeadsTo (path ++ "/" ++ more) place' ↔
    ∃ place, LeadsTo path place ∧ Leads place (components more) place' := by
  rw [LeadsTo, components_append_slash, leads_append]
  rfl

theorem isAbsolute_append_slash (some : path ≠ "") (more : String) :
    isAbsolute (path ++ "/" ++ more) = isAbsolute path := by
  obtain ⟨c, chars, hpath⟩ := List.exists_cons_of_ne_nil (mt String.toList_eq_nil_iff.1 some)
  simp [isAbsolute, String.toList_append, hpath]

/-- Paths that lead to one place can take each other's part at the start of a longer path. -/
theorem sameValue_append_slash {path' : String} (hp : LeadsTo path place) (hp' : LeadsTo path' place)
    (some : path ≠ "") (some' : path' ≠ "") (same : isAbsolute path = isAbsolute path') (more : String) :
    SameValue (normalize (path ++ "/" ++ more)) (normalize (path' ++ "/" ++ more)) := by
  have onward {start : String} {place' : List String} (leads : LeadsTo start place) :
      LeadsTo (start ++ "/" ++ more) place' ↔ Leads place (components more) place' := by
    rw [leadsTo_append_slash]
    constructor
    · rintro ⟨between, first, rest⟩
      rwa [leads.unique first]
    · exact fun rest => ⟨place, leads, rest⟩
  intro text
  simp only [normalize_eq_ok, isAbsolute_append_slash some, isAbsolute_append_slash some', same,
    onward hp, onward hp']

/-- A path is refused exactly when it is absolute or leaves the root. Otherwise it leads to a place, and what
is written are the names on the way there, without slashes at the ends. A path that was written so stays as it
is. Two paths are written the same exactly when they lead to one place, and a path can be replaced by what
is written for it at the start of a longer path. -/
theorem normalize_canonical (path : String) :
    (∀ fault, normalize path = .error fault ↔
      isAbsolute path = true ∧ fault = .absolute path ∨
      isAbsolute path = false ∧ Escapes (components path) ∧ fault = .outside path) ∧
    ∀ text, (normalize path = .ok text ↔
        isAbsolute path = false ∧ ∃ place, LeadsTo path place ∧ text = join place) ∧
      (normalize path = .ok text → IsCanonical text ∧ normalize text = .ok text ∧
        (∀ path' text', normalize path' = .ok text' → (text = text' ↔ SamePlace path path')) ∧
        (text ≠ "" → ∀ more,
          SameValue (normalize (path ++ "/" ++ more)) (normalize (text ++ "/" ++ more)))) := by
  refine ⟨fun fault => normalize_eq_error, fun text => ⟨normalize_eq_ok, ?_⟩⟩
  intro written
  obtain ⟨relative, place, leads, rfl⟩ := normalize_eq_ok.1 written
  have valid := leads.isName
  have again := normalize_join_of_names valid
  refine ⟨isCanonical_join valid, again, ?_, ?_⟩
  · intro path' text' written'
    obtain ⟨-, place', leads', rfl⟩ := normalize_eq_ok.1 written'
    rw [join_inj valid leads'.isName]
    constructor
    · rintro rfl
      exact ⟨place, leads, leads'⟩
    · rintro ⟨shared, first, second⟩
      rw [leads.unique first, leads'.unique second]
  · intro some
    have started : path ≠ "" := by
      rintro rfl
      exact some (Except.ok.inj written).symm
    refine sameValue_append_slash leads (leadsTo_join valid) started some ?_
    rw [relative, (normalize_eq_ok.1 again).1]

/-- A path with empty components and detours is written without them, as is another one to the same place,
and longer paths can start with what is written. -/
theorem normalize_winding :
    normalize "a/./b/../c//" = .ok "a/c" ∧ normalize "a/c" = .ok "a/c" ∧
    SamePlace "a/./b/../c//" "x/../a/c" ∧
    ∀ more, SameValue (normalize ("a/./b/../c//" ++ "/" ++ more)) (normalize ("a/c" ++ "/" ++ more)) := by
  have written : normalize "a/./b/../c//" = .ok "a/c" := by rfl
  have written' : normalize "x/../a/c" = .ok "a/c" := by rfl
  obtain ⟨-, again, same, longer⟩ := ((normalize_canonical "a/./b/../c//").2 "a/c").2 written
  exact ⟨written, again, (same "x/../a/c" "a/c" written').1 rfl, longer (by decide)⟩

end ProtoWorkspace.Path
