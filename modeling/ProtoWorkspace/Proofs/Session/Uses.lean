import Mathlib.Tactic
import ProtoWorkspace.Proofs.Session.World

/-!
# What a session uses

The journal of a session tells every use of what modules are made of, and which questions were open
then. A piece of a journal in which every question that is asked is answered is a passage. In a passage
nothing is used more often on the way to a question than the question is asked, if no single way to it
uses anything twice.
-/

namespace ProtoWorkspace

/-- What can be used of a module. -/
inductive Input where
  | bucket
  /-- The paths of the bucket, which are walked. -/
  | listing
  | file (path : String)
  | yaml
  | lock
  | keys
  deriving DecidableEq

/-- A use of an input of the modules with a source. -/
structure Use where
  source : Source
  input : Input
  deriving DecidableEq

/-- What an event uses of a module, if anything. -/
def Event.use? : Event → Option Use
  | .openedBucket source => some ⟨source, .bucket⟩
  | .walkedBucket source _ _ => some ⟨source, .listing⟩
  | .fetchedFile source path => some ⟨source, .file path⟩
  | .loadedYaml source => some ⟨source, .yaml⟩
  | .loadedLock source => some ⟨source, .lock⟩
  | .loadedKeys source => some ⟨source, .keys⟩
  | .parsedFile _ _ | .loadedDigest _ | .metWellKnown _ _ => none

namespace Happening

def use? : Happening → Option Use
  | .event e => e.use?
  | _ => none

/-- The questions that are open after something happened, when the given ones were open before. -/
def openAfter : Happening → List Question → List Question
  | .asked q, asking => q :: asking
  | .answered _ _, asking => asking.tail
  | _, asking => asking

/-- Whether something neither uses anything nor opens or closes a question. -/
structure IsAside (happening : Happening) : Prop where
  use?_eq : happening.use? = none
  openAfter_eq (asking : List Question) : happening.openAfter asking = asking

theorem isAside_recalled (q : Question) : (recalled q).IsAside := ⟨rfl, fun _ => rfl⟩

theorem isAside_built (modules : Nat) : (built modules).IsAside := ⟨rfl, fun _ => rfl⟩

theorem isAside_told (record : Log.Record) : (told record).IsAside := ⟨rfl, fun _ => rfl⟩

theorem isAside_event {e : Event} (h : e.use? = none) : (event e).IsAside := ⟨h, fun _ => rfl⟩

end Happening

/-- The questions that are open after what happened, the innermost first. What happened is given with
the latest first. -/
def openQuestions (happenings : List Happening) : List Question :=
  happenings.foldr Happening.openAfter []

/-- All uses in what happened, each with the innermost question that was open then. -/
def usesIn : List Happening → List (Option Question × Use)
  | [] => []
  | happening :: before =>
    match happening.use? with
    | some use => ((openQuestions before).head?, use) :: usesIn before
    | none => usesIn before

def Session.uses (σ : Session) : List (Option Question × Use) :=
  usesIn σ.journal

/-- How often a question was asked in what happened. Nothing is asked by asking for nothing. -/
def timesAskedIn (happenings : List Happening) : Option Question → Nat
  | none => 0
  | some q => Session.timesAsked { journal := happenings } q

section Steps

variable {happening : Happening} {before : List Happening}

theorem usesIn_of_use {use : Use} (h : happening.use? = some use) :
    usesIn (happening :: before) = ((openQuestions before).head?, use) :: usesIn before := by
  rw [usesIn, h]

theorem usesIn_of_none (h : happening.use? = none) :
    usesIn (happening :: before) = usesIn before := by
  rw [usesIn, h]

/-- Every use is told once. -/
theorem countP_usesIn (happenings : List Happening) (use : Use) :
    (usesIn happenings).countP (fun u => u.2 == use) =
      happenings.countP fun happening => happening.use? == some use := by
  induction happenings with
  | nil => rfl
  | cons happening before ih =>
    cases used : happening.use? with
    | none => rw [usesIn_of_none used, List.countP_cons, ih, used]; rfl
    | some u => rw [usesIn_of_use used, List.countP_cons, List.countP_cons, ih, used]; rfl

theorem Session.count_use (σ : Session) (use : Use) :
    σ.count (fun event => event.use? == some use) =
      σ.journal.countP fun happening => happening.use? == some use := by
  refine congrArg (List.countP · σ.journal) (funext fun happening => ?_)
  cases happening <;> rfl

theorem openAfter_of_use {use : Use} (h : happening.use? = some use) (asking : List Question) :
    happening.openAfter asking = asking := by
  cases happening with
  | event => rfl
  | _ => cases h

theorem timesAskedIn_append (later before : List Happening) (q : Option Question) :
    timesAskedIn (later ++ before) q = timesAskedIn later q + timesAskedIn before q := by
  cases q with
  | none => rfl
  | some q => exact List.countP_append

theorem timesAskedIn_le_cons (q : Option Question) :
    timesAskedIn before q ≤ timesAskedIn (happening :: before) q := by
  have split := timesAskedIn_append [happening] before q
  rw [List.singleton_append] at split
  omega

theorem timesAskedIn_asked (q : Question) :
    timesAskedIn (.asked q :: before) (some q) = timesAskedIn before (some q) + 1 := by
  simp [timesAskedIn, Session.timesAsked]

end Steps

/-- A piece of a journal in which questions are answered in the reverse order of being asked. The first
list has the uses outside of all its questions, and `law` tells what may be used on the way to a
question, apart from the ways to other questions. -/
inductive Passage (law : Question → List Use → Prop) : List Use → List Happening → Prop
  | start : Passage law [] []
  | use {own : List Use} {before : List Happening} {happening : Happening} {u : Use}
    (h : Passage law own before) (hu : happening.use? = some u) :
    Passage law (u :: own) (happening :: before)
  | aside {own : List Use} {before : List Happening} {happening : Happening}
    (h : Passage law own before) (ha : happening.IsAside) : Passage law own (happening :: before)
  | question {own inner : List Use} {before during : List Happening} (q : Question)
    (answer : Except Error q.Answer) (h : Passage law own before) (way : Passage law inner during)
    (lawful : law q inner) :
    Passage law own (.answered q answer :: (during ++ .asked q :: before))

namespace Passage

variable {law law' : Question → List Use → Prop} {own own' : List Use}
  {happenings later : List Happening}

theorem mono (h : Passage law own happenings) (hlaw : ∀ q inner, law q inner → law' q inner) :
    Passage law' own happenings := by
  induction h with
  | start => exact .start
  | use _ hu ih => exact ih.use hu
  | aside _ ha ih => exact ih.aside ha
  | question q answer _ _ lawful ih ihWay => exact .question q answer ih ihWay (hlaw q _ lawful)

theorem append (h : Passage law own happenings) (h' : Passage law own' later) :
    Passage law (own' ++ own) (later ++ happenings) := by
  induction h' with
  | start => exact h
  | use _ hu ih => exact ih.use hu
  | aside _ ha ih => exact ih.aside ha
  | question q answer _ way lawful ih _ =>
    have joined := Passage.question q answer ih way lawful
    rw [List.cons_append, List.append_assoc, List.cons_append]
    exact joined

/-- After a passage the questions are open that were open before. -/
theorem openQuestions_append (h : Passage law own happenings) (old : List Happening) :
    openQuestions (happenings ++ old) = openQuestions old := by
  induction h generalizing old with
  | start => rfl
  | use _ hu ih => exact (openAfter_of_use hu _).trans (ih old)
  | aside _ ha ih => exact (ha.openAfter_eq _).trans (ih old)
  | question q answer _ _ _ ih ihWay =>
    rw [List.cons_append, List.append_assoc, List.cons_append]
    change (openQuestions _).tail = _
    rw [ihWay]
    exact ih old

/-- What is used in a passage is used outside of its questions, or lawfully on the way to one. -/
theorem mem_usesIn (h : Passage law own happenings) {old : List Happening}
    {use : Option Question × Use} (hu : use ∈ usesIn (happenings ++ old)) :
    use ∈ usesIn old ∨ (use.1 = (openQuestions old).head? ∧ use.2 ∈ own) ∨
      ∃ q inner, use.1 = some q ∧ law q inner ∧ use.2 ∈ inner := by
  induction h generalizing old with
  | start => exact .inl hu
  | @use own before happening u h here ih =>
    rw [List.cons_append, usesIn_of_use here, h.openQuestions_append] at hu
    rcases List.mem_cons.1 hu with rfl | hu
    · exact .inr (.inl ⟨rfl, List.mem_cons_self⟩)
    · rcases ih hu with earlier | ⟨outside, inOwn⟩ | inside
      · exact .inl earlier
      · exact .inr (.inl ⟨outside, List.mem_cons_of_mem _ inOwn⟩)
      · exact .inr (.inr inside)
  | aside _ ha ih =>
    rw [List.cons_append, usesIn_of_none ha.use?_eq] at hu
    exact ih hu
  | @question own inner before during q answer _ _ lawful ih ihWay =>
    rw [List.cons_append, List.append_assoc, List.cons_append, usesIn_of_none rfl] at hu
    rcases ihWay hu with earlier | ⟨outside, inInner⟩ | inside
    · rw [usesIn_of_none rfl] at earlier
      exact ih earlier
    · exact .inr (.inr ⟨q, inner, outside, lawful, inInner⟩)
    · exact .inr (.inr inside)

theorem count_way_le {inner : List Use} (distinct : inner.Nodup) (q : Question)
    (before : List Happening) (use : Option Question × Use) :
    (inner.map (Prod.mk (some q))).count use + timesAskedIn before use.1 ≤
      timesAskedIn (.asked q :: before) use.1 := by
  by_cases same : use.1 = some q
  · have once : (inner.map (Prod.mk (some q))).count use ≤ 1 :=
      List.nodup_iff_count_le_one.1 (distinct.map (Prod.mk_right_injective (some q))) use
    rw [same, timesAskedIn_asked]
    omega
  · have never : (inner.map (Prod.mk (some q))).count use = 0 := by
      apply List.count_eq_zero_of_not_mem
      intro member
      obtain ⟨u, -, rfl⟩ := List.mem_map.1 member
      exact same rfl
    have more := @timesAskedIn_le_cons (.asked q) before use.1
    omega

/-- On the way to a question nothing is used more often than the question is asked. -/
theorem count_usesIn_le (h : Passage law own happenings)
    (distinct : ∀ q inner, law q inner → inner.Nodup) (old : List Happening)
    (use : Option Question × Use) :
    (usesIn (happenings ++ old)).count use ≤ (usesIn old).count use +
      (own.map (Prod.mk (openQuestions old).head?)).count use + timesAskedIn happenings use.1 := by
  induction h generalizing old with
  | start => simp
  | @use own before happening u h here ih =>
    have rest := ih old
    have more := @timesAskedIn_le_cons happening before use.1
    rw [List.cons_append, usesIn_of_use here, h.openQuestions_append, List.map_cons, List.count_cons,
      List.count_cons]
    omega
  | @aside own before happening _ ha ih =>
    have rest := ih old
    have more := @timesAskedIn_le_cons happening before use.1
    rw [List.cons_append, usesIn_of_none ha.use?_eq]
    omega
  | @question own inner before during q answer _ _ lawful ih ihWay =>
    have rest := ih old
    -- on the way the question is the innermost open one, until another is asked
    have way := ihWay (.asked q :: (before ++ old))
    have once := count_way_le (distinct q inner lawful) q before use
    have more := @timesAskedIn_le_cons (.answered q answer) (during ++ .asked q :: before) use.1
    rw [timesAskedIn_append] at more
    rw [usesIn_of_none rfl] at way
    change _ ≤ _ + (inner.map (Prod.mk (some q))).count use + _ at way
    rw [List.cons_append, List.append_assoc, List.cons_append, usesIn_of_none rfl]
    omega

end Passage

end ProtoWorkspace
