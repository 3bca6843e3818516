import Mathlib.Tactic
import ProtoWorkspace.Proofs.Session.Reachable
import ProtoWorkspace.Proofs.Session.Uses

/-!
# What questions use

Whatever is asked in a session adds a passage to its journal. On the way to a question, apart from the
ways to other questions, only that is used which the question is about, and nothing twice: a file is read
again only on the way to another question. Outside of all questions only files are read.
-/

namespace ProtoWorkspace

open Fallible

open Session (access)

/-- What may be used on the way to a question about modules of the given sets. -/
inductive Belongs (sets : List ModuleSet) : Question → Use → Prop
  | bucket {s : ModuleSet} {x : Module} (hs : s ∈ sets) (hx : x ∈ s.modules) :
    Belongs sets (.bucket x.source) ⟨x.source, .bucket⟩
  | fileIndex {s : ModuleSet} {x : Module} (hs : s ∈ sets) (hx : x ∈ s.modules) :
    Belongs sets (.fileIndex x.source) ⟨x.source, .listing⟩
  | yaml {s : ModuleSet} {x : Module} (hs : s ∈ sets) (hx : x ∈ s.modules) :
    Belongs sets (.yaml x.source) ⟨x.source, .yaml⟩
  | lock {s : ModuleSet} {x : Module} (hs : s ∈ sets) (hx : x ∈ s.modules) :
    Belongs sets (.lock x.source) ⟨x.source, .lock⟩
  | declaredKeys {s : ModuleSet} {x : Module} (hs : s ∈ sets) (hx : x ∈ s.modules) :
    Belongs sets (.declaredKeys x.source) ⟨x.source, .keys⟩
  | imports {s : ModuleSet} {x : Module} (hs : s ∈ sets) (hx : x ∈ s.modules) (path : String) :
    Belongs sets (.imports s.number (ModuleSet.fileMark x path)) ⟨x.source, .file path⟩
  | digest {s : ModuleSet} {x : Module} (hs : s ∈ sets) (hx : x ∈ s.modules) (type : DigestType)
    (path : String) : Belongs sets (.digest s.number x.identity type) ⟨x.source, .file path⟩

theorem Belongs.exists_source {sets : List ModuleSet} {q : Question} {use : Use}
    (h : Belongs sets q use) : ∃ s ∈ sets, ∃ x ∈ s.modules, x.source = use.source := by
  cases h with
  | bucket hs hx | fileIndex hs hx | yaml hs hx | lock hs hx | declaredKeys hs hx | imports hs hx _
  | digest hs hx _ _ => exact ⟨_, hs, _, hx, rfl⟩

/-- A file is used for its imports or for a digest. -/
theorem Belongs.of_file {sets : List ModuleSet} {q : Question} {source : Source} {path : String}
    (h : Belongs sets q ⟨source, .file path⟩) : ∃ s ∈ sets, ∃ x ∈ s.modules, x.source = source ∧
      (q = .imports s.number (ModuleSet.fileMark x path) ∨
        ∃ type, q = .digest s.number x.identity type) := by
  generalize file : Use.mk source (.file path) = use at h
  cases h with
  | imports hs hx =>
    cases file
    exact ⟨_, hs, _, hx, rfl, .inl rfl⟩
  | digest hs hx type =>
    cases file
    exact ⟨_, hs, _, hx, rfl, .inr ⟨type, rfl⟩⟩
  | _ => cases file

/-- Whether uses are lawful on the way to a question. -/
structure Lawful (sets : List ModuleSet) (q : Question) (inner : List Use) : Prop where
  distinct : inner.Nodup
  belongs : ∀ use ∈ inner, Belongs sets q use

/-- Whether files of modules of the sets are all that is used. -/
def AreFiles (sets : List ModuleSet) (own : List Use) : Prop :=
  ∀ use ∈ own, ∃ s ∈ sets, ∃ x ∈ s.modules, ∃ path, use = ⟨x.source, .file path⟩

/-- What is to be known of the answers that are kept: the files of a module have different paths, and the
dependencies of a module are modules of its set. -/
def IsInOrder (sets : List ModuleSet) : (q : Question) → q.Answer → Prop
  | .fileIndex _, entries => (entries.map FileEntry.path).Nodup
  | .dependencies number _, ds =>
    ∃ s ∈ sets, s.number = number ∧ ∀ d ∈ ds, d.module ∈ s.modules
  | .bucket _, _ | .yaml _, _ | .lock _, _ | .declaredKeys _, _ | .provider _ _, _
  | .imports _ _, _ | .digest _ _ _, _ | .keyDigest _, _ => True

theorem Belongs.mono {sets sets' : List ModuleSet} {q : Question} {use : Use} (h : Belongs sets q use)
    (more : ∀ s ∈ sets, s ∈ sets') : Belongs sets' q use := by
  cases h with
  | bucket hs hx => exact .bucket (more _ hs) hx
  | fileIndex hs hx => exact .fileIndex (more _ hs) hx
  | yaml hs hx => exact .yaml (more _ hs) hx
  | lock hs hx => exact .lock (more _ hs) hx
  | declaredKeys hs hx => exact .declaredKeys (more _ hs) hx
  | imports hs hx path => exact .imports (more _ hs) hx path
  | digest hs hx type path => exact .digest (more _ hs) hx type path

theorem Lawful.mono {sets sets' : List ModuleSet} {q : Question} {inner : List Use}
    (h : Lawful sets q inner) (more : ∀ s ∈ sets, s ∈ sets') : Lawful sets' q inner :=
  ⟨h.distinct, fun use hu => (h.belongs use hu).mono more⟩

theorem AreFiles.mono {sets sets' : List ModuleSet} {own : List Use} (h : AreFiles sets own)
    (more : ∀ s ∈ sets, s ∈ sets') : AreFiles sets' own := by
  intro use hu
  obtain ⟨s, hs, rest⟩ := h use hu
  exact ⟨s, more s hs, rest⟩

theorem AreFiles.nil (sets : List ModuleSet) : AreFiles sets [] := by simp [AreFiles]

theorem Lawful.nil (sets : List ModuleSet) (q : Question) : Lawful sets q [] :=
  ⟨List.nodup_nil, by simp⟩

theorem Lawful.of_sublist_singleton {sets : List ModuleSet} {q : Question} {own : List Use} {use : Use}
    (h : own.Sublist [use]) (belongs : Belongs sets q use) : Lawful sets q own := by
  refine ⟨h.nodup (List.nodup_singleton use), fun u hu => ?_⟩
  rw [List.mem_singleton.1 (h.subset hu)]
  exact belongs

theorem IsInOrder.mono {sets sets' : List ModuleSet} {q : Question} {a : q.Answer}
    (h : IsInOrder sets q a) (more : ∀ s ∈ sets, s ∈ sets') : IsInOrder sets' q a := by
  cases q with
  | dependencies number identity =>
    obtain ⟨s, hs, rest⟩ := h
    exact ⟨s, more s hs, rest⟩
  | _ => exact h

/-- Whether a session has the given sets, and all answers that it keeps are in order. -/
structure Session.IsOrderly (sets : List ModuleSet) (σ : Session) : Prop where
  sets_eq : σ.sets = sets
  answers (q : Question) (a : q.Answer) : σ.memo.find? q = some (.ok a) → IsInOrder sets q a

theorem Session.IsOrderly.enter {sets : List ModuleSet} {σ : Session} (h : σ.IsOrderly sets)
    (happening : Happening) : (σ.enter happening).IsOrderly sets :=
  ⟨h.sets_eq, h.answers⟩

theorem Session.IsOrderly.store {sets : List ModuleSet} {σ : Session} (h : σ.IsOrderly sets)
    {q : Question} {answer : Except Error q.Answer} (ha : ∀ a, answer = .ok a → IsInOrder sets q a)
    (happening : Happening) :
    Session.IsOrderly sets { σ.enter happening with memo := σ.memo.store q answer } where
  sets_eq := h.sets_eq
  answers q' a' h' := by
    by_cases same : q = q'
    · subst same
      rw [Memo.find?_store_self] at h'
      exact ha a' (Option.some.inj h')
    · rw [Memo.find?_store_of_ne same] at h'
      exact h.answers q' a' h'

/-- Whether something done in an orderly session leaves it orderly and adds a passage to its journal,
where values satisfy `V` and the uses outside of questions satisfy `E`. -/
def Runs (sets : List ModuleSet) {α : Type} (x : SessionM α) (V : α → Prop) (E : List Use → Prop) :
    Prop :=
  ∀ σ : Session, σ.IsOrderly sets → (x σ).2.IsOrderly sets ∧ (∀ a, (x σ).1 = .ok a → V a) ∧
    ∃ own happenings, (x σ).2.journal = happenings ++ σ.journal ∧
      Passage (Lawful sets) own happenings ∧ E own

/-- Whether nothing is used outside of questions. -/
def Asks (sets : List ModuleSet) {α : Type} (x : SessionM α) (V : α → Prop) : Prop :=
  Runs sets x V (· = [])

/-! ## Putting things together -/

section Rules

variable {sets : List ModuleSet} {α β : Type} {x : SessionM α} {f : α → SessionM β} {V V' : α → Prop}
  {W : β → Prop} {E E' E₁ E₂ : List Use → Prop}

theorem Runs.mono (h : Runs sets x V E) (hV : ∀ a, V a → V' a) (hE : ∀ own, E own → E' own) :
    Runs sets x V' E' := by
  intro σ hσ
  obtain ⟨after, value, own, happenings, journal, passage, uses⟩ := h σ hσ
  exact ⟨after, fun a ha => hV a (value a ha), own, happenings, journal, passage, hE own uses⟩

theorem Asks.mono (h : Asks sets x V) (hV : ∀ a, V a → V' a) : Asks sets x V' :=
  Runs.mono h hV fun _ => id

theorem Asks.runs (h : Asks sets x V) (hE : E []) : Runs sets x V E :=
  Runs.mono h (fun _ => id) fun _ none => none ▸ hE

theorem Asks.of_unchanged {y : Except Error α} (h : ∀ σ : Session, σ.sets = sets → x σ = (y, σ))
    (hV : ∀ a, y = .ok a → V a) : Asks sets x V := by
  intro σ hσ
  rw [h σ hσ.sets_eq]
  exact ⟨hσ, hV, [], [], rfl, .start, rfl⟩

theorem Asks.pure {a : α} (hV : V a) : Asks sets (Pure.pure a) V := by
  refine .of_unchanged (y := .ok a) (fun _ _ => rfl) ?_
  rintro _ ⟨⟩
  exact hV

theorem Asks.throw (e : Error) : Asks sets (MonadExcept.throw e : SessionM α) V :=
  .of_unchanged (y := .error e) (fun _ _ => rfl) nofun

theorem Asks.ofExcept {y : Except Error α} (hV : ∀ a, y = .ok a → V a) :
    Asks sets (MonadExcept.ofExcept y : SessionM α) V := by
  cases y with
  | ok a => exact .pure (hV a rfl)
  | error e => exact .throw e

theorem Runs.bind (hx : Runs sets x V E₁) (hf : ∀ a, V a → Runs sets (f a) W E₂)
    (stop : ∀ own, E₁ own → E own) (go : ∀ own own', E₁ own → E₂ own' → E (own' ++ own)) :
    Runs sets (x >>= f) W E := by
  intro σ hσ
  obtain ⟨after, value, own, happenings, journal, passage, uses⟩ := hx σ hσ
  rcases first : x σ with ⟨e | a, σ'⟩
  · rw [SessionM.bind_of_error first]
    rw [first] at after journal
    exact ⟨after, nofun, own, happenings, journal, passage, stop own uses⟩
  · rw [SessionM.bind_of_ok first]
    rw [first] at after value journal
    obtain ⟨after', value', own', happenings', journal', passage', uses'⟩ :=
      hf a (value a rfl) σ' after
    refine ⟨after', value', own' ++ own, happenings' ++ happenings, ?_, passage.append passage',
      go own own' uses uses'⟩
    rw [journal', journal, List.append_assoc]

theorem Asks.bind_runs (hx : Asks sets x V) (hf : ∀ a, V a → Runs sets (f a) W E) (hE : E []) :
    Runs sets (x >>= f) W E := by
  refine Runs.bind hx hf ?_ ?_
  · rintro _ rfl
    exact hE
  · rintro _ own rfl uses
    rwa [List.append_nil]

theorem Runs.bind_asks (hx : Runs sets x V E) (hf : ∀ a, V a → Asks sets (f a) W) :
    Runs sets (x >>= f) W E := by
  refine Runs.bind hx hf (fun _ => id) ?_
  rintro own _ uses rfl
  exact uses

theorem Asks.bind (hx : Asks sets x V) (hf : ∀ a, V a → Asks sets (f a) W) : Asks sets (x >>= f) W :=
  Runs.bind_asks hx hf

theorem Runs.map {g : α → β} (hx : Runs sets x V E) (hV : ∀ a, V a → W (g a)) :
    Runs sets (g <$> x) W E := by
  rw [map_eq_pure_bind]
  exact hx.bind_asks fun a ha => .pure (hV a ha)

theorem Asks.map {g : α → β} (hx : Asks sets x V) (hV : ∀ a, V a → W (g a)) :
    Asks sets (g <$> x) W :=
  Runs.map hx hV

theorem Asks.mapM {xs : List α} (h : ∀ a ∈ xs, Asks sets (f a) W) :
    Asks sets (xs.mapM f) fun bs => ∀ b ∈ bs, W b := by
  induction xs with
  | nil => exact .pure (by simp)
  | cons a xs ih =>
    obtain ⟨ha, hxs⟩ := List.forall_mem_cons.1 h
    rw [List.mapM_cons]
    refine ha.bind fun b hb => (ih hxs).bind fun bs hbs => .pure ?_
    exact List.forall_mem_cons.2 ⟨hb, hbs⟩

theorem Asks.disk : Asks sets access.disk fun _ => True := by
  intro σ hσ
  exact ⟨hσ, fun _ _ => trivial, [], [], rfl, .start, rfl⟩

theorem Asks.findSet (number : Nat) : Asks sets (access.findSet number) fun t => ∀ s ∈ t, s ∈ sets := by
  intro σ hσ
  refine ⟨hσ, ?_, [], [], rfl, .start, rfl⟩
  rintro _ ⟨⟩ s found
  rw [← hσ.sets_eq]
  exact List.mem_of_find?_eq_some found

theorem Asks.note {event : Event} (aside : event.use? = none) :
    Asks sets (access.note event) fun _ => True := by
  intro σ hσ
  exact ⟨hσ.enter _, fun _ _ => trivial, [], [.event event], rfl,
    .aside .start (Happening.isAside_event aside), rfl⟩

theorem Runs.note {event : Event} {use : Use} (hu : event.use? = some use) :
    Runs sets (access.note event) (fun _ => True) (·.Sublist [use]) := by
  intro σ hσ
  exact ⟨hσ.enter _, fun _ _ => trivial, [use], [.event event], rfl,
    .use .start hu, List.Sublist.refl _⟩

theorem Runs.load {event : Event} {use : Use} (hu : event.use? = some use) (supply : Supply α) :
    Runs sets (access.load event supply) (fun _ => True) (·.Sublist [use]) := by
  cases supply with
  | ready a => exact (Asks.pure trivial).runs (List.nil_sublist _)
  | deferred load =>
    refine (Runs.note hu).bind_asks fun _ _ => Asks.disk.bind fun disk _ => ?_
    exact .ofExcept fun _ _ => trivial

theorem Asks.load {event : Event} (aside : event.use? = none) (supply : Supply α) :
    Asks sets (access.load event supply) fun _ => True := by
  cases supply with
  | ready a => exact .pure trivial
  | deferred load =>
    refine (Asks.note aside).bind fun _ _ => Asks.disk.bind fun disk _ => ?_
    exact .ofExcept fun _ _ => trivial

/-- To whoever asks it, a question hides what was used on the way to it. -/
theorem Runs.remember {q : Question} {ask : SessionM q.Answer}
    (h : Runs sets ask (IsInOrder sets q) (Lawful sets q)) :
    Asks sets (access.remember q ask) (IsInOrder sets q) := by
  intro σ hσ
  change (Session.remember q ask σ).2.IsOrderly sets ∧
    (∀ a, (Session.remember q ask σ).1 = .ok a → IsInOrder sets q a) ∧ ∃ own happenings,
      (Session.remember q ask σ).2.journal = happenings ++ σ.journal ∧ _
  cases kept : σ.memo.find? q with
  | some answer =>
    rw [Session.remember_of_find? kept]
    refine ⟨hσ.enter _, ?_, [], [.recalled q], rfl, .aside .start (Happening.isAside_recalled q), rfl⟩
    rintro a rfl
    exact hσ.answers q a kept
  | none =>
    rw [Session.remember_of_none kept]
    obtain ⟨after, value, own, happenings, journal, passage, lawful⟩ := h _ (hσ.enter (.asked q))
    have whole := Passage.question q (ask (σ.enter (.asked q))).1 .start passage lawful
    refine ⟨after.store value _, value, [], _, ?_, whole, rfl⟩
    change _ :: (ask (σ.enter (.asked q))).2.journal = _
    rw [journal, List.cons_append, List.append_assoc]
    rfl

end Rules

end ProtoWorkspace
