import ProtoWorkspace.Proofs.Program.Lock
import ProtoWorkspace.Proofs.Session.Retargeted

/-!
# The digest command

A reference means the module with that identity or, if there is none, the one in that directory. The
command gives the digests of the modules that are meant, in the order of the set. It asks for them in a
set of its own, with these modules as targets, where they are the same.
-/

namespace ProtoWorkspace

open Fallible

open Session (access)

/-! ## Lists of steps that leave a session as it is -/

theorem mapM_of_still {ε α β : Type} {f : α → ExceptT ε (StateM Session) β} {g : α → Except ε β}
    (h : ∀ a σ, f a σ = (g a, σ)) (xs : List α) (σ : Session) : xs.mapM f σ = (xs.mapM g, σ) := by
  induction xs with
  | nil => rfl
  | cons a xs ih =>
    rw [List.mapM_cons, List.mapM_cons]
    simp only [bind, ExceptT.bind, ExceptT.mk, StateT.bind, h]
    cases g a with
    | error e => rfl
    | ok b =>
      simp only [ExceptT.bindCont, StateT.bind, bind, ih]
      cases xs.mapM g <;> rfl

namespace ModuleSet

variable {s t : ModuleSet} {x y : Module} {reference : String}

/-- Whether a reference means a module: by its identity or, if there is no module with that identity, by
its directory. The empty text is no directory. -/
def Means (s : ModuleSet) (reference : String) (x : Module) : Prop :=
  x.identity = reference ∨
    (∀ y ∈ s.modules, y.identity ≠ reference) ∧ reference ≠ "" ∧ x.bucketId = reference

instance (s : ModuleSet) (reference : String) (x : Module) : Decidable (s.Means reference x) :=
  inferInstanceAs (Decidable (_ ∨ _))

/-- The modules that are meant by some references, in the order of the set; the targets if there are no
references. -/
def selected (s : ModuleSet) (references : List String) : List Module :=
  if references = [] then s.targets
  else s.modules.filter fun x => ∃ reference ∈ references, s.Means reference x

theorem lookup_eq_some : (s.find? reference).or (s.findBucket? reference) = some x ↔
    x ∈ s.modules ∧ s.Means reference x := by
  cases found : s.find? reference with
  | some y =>
    obtain ⟨hy, same⟩ := find?_eq_some.1 found
    rw [Option.some_or, Option.some_inj]
    constructor
    · rintro rfl
      exact ⟨hy, .inl same⟩
    · rintro ⟨hx, same' | ⟨none, -⟩⟩
      · exact eq_of_identity hy hx (same.trans same'.symm)
      · exact absurd same (none y hy)
  | none =>
    have none : ∀ y ∈ s.modules, y.identity ≠ reference := by
      intro y hy same
      rw [find?_eq_some.2 ⟨hy, same⟩] at found
      cases found
    have byDirectory : s.findBucket? reference = some x ↔
        x ∈ s.modules ∧ reference ≠ "" ∧ x.bucketId = reference := by
      by_cases empty : reference = ""
      · simp [findBucket?, empty]
      · simp [findBucket?_eq_some empty, empty]
    rw [Option.none_or, byDirectory]
    refine and_congr_right fun hx => ⟨fun there => .inr ⟨none, there⟩, ?_⟩
    rintro (same | ⟨-, there⟩)
    · exact absurd same (none x hx)
    · exact there

theorem targets_of_retarget {number : Nat} {identities : List String}
    (h : s.retarget number identities = .ok t) :
    t.targets = (s.modules.filter fun x => x.identity ∈ identities).map
      (Module.retargeted identities) := by
  rw [targets, modules_of_retarget h, List.filter_map]
  rfl

theorem hasPlainPaths_of_retarget {number : Nat} {identities : List String} {disk : Disk}
    (h : s.retarget number identities = .ok t) (plain : s.HasPlainPaths disk) :
    t.HasPlainPaths disk := by
  intro y hy path hp
  rw [modules_of_retarget h] at hy
  obtain ⟨x, hx, rfl⟩ := List.mem_map.1 hy
  exact plain x hx path hp

end ModuleSet

namespace Commands

variable {loads : Nat → Except Error Digest} {σ : Session} {s t : ModuleSet} {type : DigestType}
variable {references : List String} {pairs : List (String × Digest)}

theorem attempt_run {α : Type} (x : SessionM α) (σ : Session) :
    attempt x σ = (.ok (σ.outcome x), σ.after x) := by
  have tried : attempt x σ = (tryCatch (Except.ok <$> x) fun e => return .error e : SessionM _) σ := rfl
  rw [tried, Session.outcome, Session.after]
  simp only [tryCatch, tryCatchThe, MonadExceptOf.tryCatch, ExceptT.tryCatch, ExceptT.mk, StateT.bind,
    bind, Functor.map, ExceptT.map]
  rcases x σ with ⟨_ | a, σ'⟩ <;> rfl

/-- What comes of the digests of some modules of a set, with their labels. -/
def attempts (s : ModuleSet) (type : DigestType) (xs : List Module) :
    SessionM (List (String × Except Error Digest)) :=
  xs.mapM fun x => do
    return (x.description, ← attempt (s.digest access x type))

/-- The digests of the targets of a set, with their labels. -/
def targetDigests (s : ModuleSet) (type : DigestType) : SessionM (List (String × Digest)) := do
  let results ← attempts s type s.targets
  results.mapM fun (description, result) => do
    return (description, ← MonadExcept.ofExcept result)

theorem digests_eq (s : ModuleSet) (type : DigestType) (references : List String) :
    digests s type references =
      (selectTargets s references >>= fun t => onModules (targetDigests t type) : CommandM _) := rfl

/-- What comes of the digest of a module does not depend on what was asked before. -/
theorem outcome_digest_of_reaches (h : σ.Reachable loads)
    (hplain : ∀ u ∈ σ.sets, u.HasPlainPaths σ.disk) (hs : s ∈ σ.sets) {x : Module}
    (hx : x ∈ s.modules) {σ' : Session} (later : Session.Reaches loads σ σ') :
    σ'.outcome (s.digest access x type) = σ.outcome (s.digest access x type) := by
  have hop : (Operation.digest x type).IsOn s := hx
  have before := later.before
  exact h.outcome_run_eq (h.of_reaches later) before.disk before.sets hplain hs hop

theorem attempts_run (h : σ.Reachable loads) (hplain : ∀ u ∈ σ.sets, u.HasPlainPaths σ.disk)
    (hs : s ∈ σ.sets) {xs : List Module} (hxs : ∀ x ∈ xs, x ∈ s.modules) {σ' : Session}
    (later : Session.Reaches loads σ σ') :
    ∃ σ'', attempts s type xs σ' =
      (.ok (xs.map fun x => (x.description, σ.outcome (s.digest access x type))), σ'') := by
  induction xs generalizing σ' with
  | nil => exact ⟨σ', rfl⟩
  | cons x xs ih =>
    obtain ⟨hx, hxs⟩ := List.forall_mem_cons.1 hxs
    have first := attempt_run (s.digest access x type) σ'
    rw [outcome_digest_of_reaches h hplain hs hx later] at first
    have hop : (Operation.digest x type).IsOn s := hx
    have asked : Session.Reaches loads σ' (σ'.after (s.digest access x type)) :=
      Session.reaches_after (later.before.sets.subset hs) hop
    obtain ⟨σ'', rest⟩ := ih hxs (later.trans asked)
    refine ⟨σ'', ?_⟩
    rw [attempts, List.mapM_cons]
    have labelled : (do return (x.description, ← attempt (s.digest access x type)) :
        SessionM (String × Except Error Digest)) σ' =
        (.ok (x.description, σ.outcome (s.digest access x type)),
          σ'.after (s.digest access x type)) := SessionM.bind_of_ok first
    exact (SessionM.bind_of_ok labelled).trans (SessionM.bind_of_ok rest)

/-- The digests of some modules of a set as a session has them, with their labels. -/
def answers (σ : Session) (s : ModuleSet) (type : DigestType) (xs : List Module) :
    Except Error (List (String × Digest)) :=
  xs.mapM fun x => (x.description, ·) <$> σ.outcome (s.digest access x type)

theorem succeeds_answers {xs : List Module} : Succeeds (answers σ s type xs) ↔
    ∀ x ∈ xs, Succeeds (σ.outcome (s.digest access x type)) := by
  rw [answers, succeeds_mapM]
  exact forall₂_congr fun x _ => succeeds_map

theorem answers_eq_ok {xs : List Module} : answers σ s type xs = .ok pairs ↔
    List.Forall₂ (fun x pair => pair.1 = x.description ∧
      σ.outcome (s.digest access x type) = .ok pair.2) xs pairs := by
  rw [answers, mapM_eq_ok]
  refine forall₂_congr_of_mem fun x _ pair => ?_
  rw [map_eq_ok]
  constructor
  · rintro ⟨d, digest, rfl⟩
    exact ⟨rfl, digest⟩
  · rintro ⟨label, digest⟩
    exact ⟨pair.2, digest, Prod.ext label.symm rfl⟩

theorem outcome_targetDigests (h : σ.Reachable loads)
    (hplain : ∀ u ∈ σ.sets, u.HasPlainPaths σ.disk) (hs : s ∈ σ.sets) :
    σ.outcome (targetDigests s type) = answers σ s type s.targets := by
  have members : ∀ x ∈ s.targets, x ∈ s.modules := fun x hx => List.mem_of_mem_filter hx
  obtain ⟨σ', tried⟩ : ∃ σ', attempts s type s.targets σ = (.ok _, σ') :=
    attempts_run h hplain hs members .refl
  have collected := mapM_of_still
    (f := fun pair : String × Except Error Digest => (do
      return (pair.1, ← MonadExcept.ofExcept pair.2) : SessionM (String × Digest)))
    (g := fun pair => (pair.1, ·) <$> pair.2)
    (fun pair σ => by cases pair.2 <;> rfl)
    (s.targets.map fun x => (x.description, σ.outcome (s.digest access x type))) σ'
  refine (congrArg Prod.fst ((SessionM.bind_of_ok tried).trans collected)).trans ?_
  exact List.mapM_map

/-! ## The references -/

/-- The module that a reference means. -/
def meant (s : ModuleSet) (reference : String) : Except CommandError Module :=
  match (s.find? reference).or (s.findBucket? reference) with
  | some x => .ok x
  | none => .error (.unknownModule reference)

theorem meant_eq_ok {reference : String} {x : Module} :
    meant s reference = .ok x ↔ x ∈ s.modules ∧ s.Means reference x := by
  rw [← ModuleSet.lookup_eq_some, meant]
  cases (s.find? reference).or (s.findBucket? reference) <;> simp

theorem resolve_run (s : ModuleSet) (reference : String) (σ : Session) :
    resolve s reference σ = (meant s reference, σ) := by
  unfold resolve meant
  cases (s.find? reference).or (s.findBucket? reference) <;> rfl

theorem not_succeeds_digests_of_unknown (h : ¬ ∀ r ∈ references, ∃ x ∈ s.modules, s.Means r x) :
    ¬ Succeeds (digests s type references σ).1 := by
  have unknown : ¬ Succeeds (references.mapM (meant s)) := by
    refine mt succeeds_mapM.1 (mt ?_ h)
    intro all r hr
    obtain ⟨x, found⟩ := all r hr
    exact ⟨x, meant_eq_ok.1 found⟩
  have some : references.isEmpty = false := by
    cases references with
    | nil => exact absurd (fun r hr => absurd hr List.not_mem_nil) h
    | cons r rest => rfl
  obtain ⟨e, failed⟩ := exists_error_of_not_succeeds unknown
  have resolved := mapM_of_still (resolve_run s) references σ
  rw [failed] at resolved
  have selects : selectTargets s references σ = (.error e, σ) := by
    rw [selectTargets, some, if_neg Bool.false_ne_true]
    exact CommandM.bind_of_error resolved
  rw [digests_eq, CommandM.bind_of_error selects]
  exact not_succeeds_error e

/-- The targets that are chosen by references, and the session where they are chosen. -/
theorem selectTargets_of_known (hne : references ≠ [])
    (known : ∀ r ∈ references, ∃ x ∈ s.modules, s.Means r x) :
    ∃ identities t, s.retarget σ.sets.length identities = .ok t ∧
      selectTargets s references σ = (.ok t, σ.after (Session.retarget s identities)) ∧
      (s.modules.filter fun x => x.identity ∈ identities) = s.selected references := by
  obtain ⟨xs, found⟩ : Succeeds (references.mapM (meant s)) := by
    refine succeeds_mapM.2 fun r hr => ?_
    obtain ⟨x, there⟩ := known r hr
    exact ⟨x, meant_eq_ok.2 there⟩
  have members : ∀ identity ∈ xs.map Module.identity, identity ∈ s.identities := by
    intro identity hidentity
    obtain ⟨x, hx, rfl⟩ := List.mem_map.1 hidentity
    obtain ⟨r, -, there⟩ := exists_of_mem_mapM found hx
    exact List.mem_map_of_mem (meant_eq_ok.1 there).1
  obtain ⟨t, came⟩ : Succeeds (s.retarget σ.sets.length (xs.map Module.identity)) :=
    ModuleSet.succeeds_retarget members
  refine ⟨xs.map Module.identity, t, came, ?_, ?_⟩
  · obtain ⟨outcome, -⟩ := Session.retarget_of_ok came
    have resolved := mapM_of_still (resolve_run s) references σ
    rw [found] at resolved
    rw [selectTargets, if_neg (by rwa [List.isEmpty_iff]), CommandM.bind_of_ok resolved]
    refine (onModules_run _ σ).trans (Prod.ext ?_ rfl)
    exact congrArg (Except.mapError CommandError.module) outcome
  · rw [ModuleSet.selected, if_neg hne]
    refine List.filter_congr fun x hx => decide_eq_decide.2 ?_
    rw [List.mem_map]
    constructor
    · rintro ⟨y, hy, same⟩
      obtain ⟨r, hr, there⟩ := exists_of_mem_mapM found hy
      obtain ⟨hy, means⟩ := meant_eq_ok.1 there
      exact ⟨r, hr, ModuleSet.eq_of_identity hy hx same ▸ means⟩
    · rintro ⟨r, hr, means⟩
      obtain ⟨y, hy, there⟩ := exists_mem_of_mapM found hr
      rw [meant_eq_ok.2 ⟨hx, means⟩] at there
      cases there
      exact ⟨x, hy, rfl⟩

theorem hasPlainPaths_after_retarget (hplain : ∀ u ∈ σ.sets, u.HasPlainPaths σ.disk)
    (hs : s ∈ σ.sets) {identities : List String}
    (came : s.retarget σ.sets.length identities = .ok t) :
    ∀ u ∈ (σ.after (Session.retarget s identities)).sets,
      u.HasPlainPaths (σ.after (Session.retarget s identities)).disk := by
  obtain ⟨-, after⟩ := Session.retarget_of_ok came
  rw [after]
  intro u hu
  rcases List.mem_append.1 hu with hu | hu
  · exact hplain u hu
  · obtain rfl := List.mem_singleton.1 hu
    exact ModuleSet.hasPlainPaths_of_retarget came (hplain s hs)

/-- With other targets a set gives the same digests of the modules that are meant. -/
theorem digests_of_known (h : σ.Reachable loads) (hplain : ∀ u ∈ σ.sets, u.HasPlainPaths σ.disk)
    (hs : s ∈ σ.sets) (known : ∀ r ∈ references, ∃ x ∈ s.modules, s.Means r x) :
    (digests s type references σ).1 =
      (answers σ s type (s.selected references)).mapError .module := by
  rw [digests_eq]
  by_cases hne : references = []
  · subst hne
    have selects : selectTargets s [] σ = (.ok s, σ) := rfl
    rw [CommandM.bind_of_ok selects]
    exact congrArg (Except.mapError _) (outcome_targetDigests h hplain hs)
  · obtain ⟨identities, t, came, selects, chosen⟩ := selectTargets_of_known (σ := σ) hne known
    rw [CommandM.bind_of_ok selects]
    have step : Session.Reaches loads σ (σ.after (Session.retarget s identities)) :=
      .single (.retarget σ hs identities)
    have later := h.of_reaches step
    have before := step.before
    obtain ⟨-, after⟩ := Session.retarget_of_ok came
    have hplain' := hasPlainPaths_after_retarget hplain hs came
    have ht : t ∈ (σ.after (Session.retarget s identities)).sets := by
      rw [after]
      exact List.mem_append_right _ (List.mem_singleton.2 rfl)
    refine congrArg (Except.mapError _) ((outcome_targetDigests later hplain' ht).trans ?_)
    rw [answers, answers, ModuleSet.targets_of_retarget came, chosen, List.mapM_map]
    refine mapM_congr fun x hx => congrArg ((x.description, ·) <$> ·) ?_
    have hx : x ∈ s.modules := by
      rw [← chosen] at hx
      exact List.mem_of_mem_filter hx
    have same := later.isRetargeted hplain' (before.sets.subset hs) ht came hx
    exact (same.digest type).trans (outcome_digest_of_reaches h hplain hs hx step)

/-- In a session without NUL characters in paths, the digest command succeeds if and only if every
reference means a module and the digest of every selected module can be had. It gives the digests that
these modules have in the set, in its order, with their descriptions. -/
theorem digests_of_references (h : σ.Reachable loads)
    (hplain : ∀ u ∈ σ.sets, u.HasPlainPaths σ.disk) (hs : s ∈ σ.sets) (type : DigestType)
    (references : List String) :
    (Succeeds (digests s type references σ).1 ↔
      (∀ r ∈ references, ∃ x ∈ s.modules, s.Means r x) ∧
        ∀ x ∈ s.selected references, Succeeds (σ.outcome (s.digest access x type))) ∧
    ∀ pairs, (digests s type references σ).1 = .ok pairs →
      List.Forall₂ (fun x pair => pair.1 = x.description ∧
        σ.outcome (s.digest access x type) = .ok pair.2) (s.selected references) pairs := by
  by_cases known : ∀ r ∈ references, ∃ x ∈ s.modules, s.Means r x
  · rw [digests_of_known h hplain hs known, ← succeeds_answers]
    constructor
    · rw [succeeds_mapError, and_iff_right known]
    · intro pairs hpairs
      exact answers_eq_ok.1 (mapError_eq_ok.1 hpairs)
  · have fails : ¬ Succeeds (digests s type references σ).1 := not_succeeds_digests_of_unknown known
    refine ⟨⟨fun succeeds => absurd succeeds fails, fun all => absurd all.1 known⟩, ?_⟩
    intro pairs hpairs
    exact absurd ⟨pairs, hpairs⟩ fails

end Commands

/-- In the sample, references to the second module by its directory and to the first by its identity,
in this order and once again, give the digests of both in the order of the set. A directory that is not
there is no reference. -/
theorem Sample.digests_both : ∃ d d',
    (Commands.digests Sample.set .b5 ["b", Sample.first.identity, "b"] Sample.session).1 =
      .ok [(Sample.first.description, d), (Sample.second.description, d')] ∧
    Sample.session.outcome (Sample.set.digest access Sample.second .b5) = .ok d' ∧
    ¬ Succeeds (Commands.digests Sample.set .b5 ["b", "absent"] Sample.session).1 := by
  have hs := Sample.set_mem_sets
  have answers := fun references => Commands.digests_of_references Sample.reachable_session
    Sample.hasPlainPaths_sets hs .b5 references
  have reads : Sample.set.ReadsImports (Sample.session.directWorld Sample.loads).io _ :=
    ModuleSet.readsImports_direct (Sample.isLoadable_set Sample.session.disk)
  have known : ∀ r ∈ ["b", Sample.first.identity, "b"], ∃ x ∈ Sample.set.modules,
      Sample.set.Means r x := by decide
  have chosen : Sample.set.selected ["b", Sample.first.identity, "b"] =
      [Sample.first, Sample.second] := rfl
  have each : ∀ x ∈ [Sample.first, Sample.second],
      Succeeds (Sample.session.outcome (Sample.set.digest access x .b5)) := by
    intro x hx
    have hx : x ∈ Sample.set.modules := hx
    rw [Sample.reachable_session.outcome_digest Sample.hasPlainPaths_sets hs hx]
    exact Sample.succeeds_digest Sample.reachable_session.isSound_directWorld.plain reads hx .b5
  obtain ⟨succeeds, pairs⟩ := answers ["b", Sample.first.identity, "b"]
  rw [chosen] at succeeds pairs
  obtain ⟨given, outcome⟩ := succeeds.2 ⟨known, each⟩
  have labelled := pairs given outcome
  cases labelled with
  | @cons _ pair _ _ first rest =>
  cases rest with
  | @cons _ pair' _ _ second rest =>
  cases rest
  refine ⟨pair.2, pair'.2, ?_, second.2, ?_⟩
  · rw [outcome, ← first.1, ← second.1]
  · rw [(answers ["b", "absent"]).1]
    exact fun all => absurd all.1 (by decide)

end ProtoWorkspace
