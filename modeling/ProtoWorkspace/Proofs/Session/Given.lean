import Mathlib.Tactic
import ProtoWorkspace.Proofs.Disk.Tree
import ProtoWorkspace.Proofs.Session.Ways

/-!
# Internal errors that were given

An internal error tells of a broken rule, or it was returned by what a session was given from outside: a
bucket, an import parser, or something that loads a bucket, a configuration file, declared keys or the
digest of a key. Whether it was can be read off the journal, which tells what was used. Where a session
is blameless, every internal error that it keeps was given, and declared keys were loaded for remote
modules alone. What is done in a blameless session passes internal errors on and makes none, and this is
kept by putting things together.
-/

namespace ProtoWorkspace

open Fallible

open Session (access)

/-! ## What gives no internal errors -/

/-- Whether a computation does not fail with an internal error. -/
def IsClean {α : Type} (y : Except Error α) : Prop :=
  ∀ message, y ≠ .error (.internal message)

namespace IsClean

variable {α β : Type} {y : Except Error α} {f : α → Except Error β}

theorem ok (a : α) : IsClean (.ok a) := by
  rintro message ⟨⟩

theorem error {e : Error} (he : e.isInternal = false) : IsClean (.error e : Except Error α) := by
  rintro message ⟨⟩
  cases he

theorem of_succeeds (h : Succeeds y) : IsClean y := by
  obtain ⟨a, rfl⟩ := h
  exact ok a

theorem bind (hy : IsClean y) (hf : ∀ a, y = .ok a → IsClean (f a)) : IsClean (y >>= f) := by
  intro message h
  rcases bind_eq_error.1 h with failed | ⟨a, ha, failed⟩
  · exact hy message failed
  · exact hf a ha message failed

theorem map {h : α → β} (hy : IsClean y) : IsClean (h <$> y) := by
  rw [map_eq_pure_bind]
  exact hy.bind fun a _ => ok (h a)

theorem mapM {xs : List α} (h : ∀ a ∈ xs, IsClean (f a)) : IsClean (xs.mapM f) := by
  intro message failed
  obtain ⟨a, ha, failed⟩ := exists_of_mapM_eq_error failed
  exact h a ha message failed

theorem foldlM {step : β → α → Except Error β} (h : ∀ b a, IsClean (step b a)) (xs : List α) (b : β) :
    IsClean (xs.foldlM step b) := by
  induction xs generalizing b with
  | nil => exact ok b
  | cons a xs ih =>
    rw [List.foldlM_cons]
    exact (h b a).bind fun b' _ => ih b'

end IsClean

/-- Whether a bucket is neither a table in memory nor a folder. -/
def Bucket.IsForeign (b : Bucket) : Prop :=
  (∀ t, b ≠ .memory t) ∧ ∀ root, b ≠ .folder root

theorem Bucket.isForeign_of_list {b : Bucket} {disk : Disk} {message : String}
    (h : (b.list disk).failure = some (.internal message)) : b.IsForeign := by
  constructor
  · rintro t rfl
    cases h
  · rintro root rfl
    rw [Bucket.failure_list_folder] at h
    split at h <;> cases h

theorem Bucket.isForeign_of_read {b : Bucket} {disk : Disk} {path message : String}
    (h : b.read disk path = .error (.internal message)) : b.IsForeign := by
  constructor
  · rintro t rfl
    change t.get path = _ at h
    unfold FileTable.get at h
    split at h <;> cases h
  · rintro root rfl
    unfold Bucket.folder at h
    dsimp only at h
    split at h
    · obtain ⟨fault, -, same⟩ := mapError_eq_error.1 h
      cases fault <;> cases same
    · cases h

theorem ImportParser.ne_standard_of_parse {p : ImportParser} {path message : String}
    {data : ByteArray} (h : p.parse path data = .error (.internal message)) : p ≠ .standard := by
  rintro rfl
  change Imports.ofFile path data = _ at h
  unfold Imports.ofFile at h
  split at h <;> cases h

theorem failure_of_indexOfListing {description message : String} {listing : Listing}
    (h : indexOfListing description listing = .error (.internal message)) :
    listing.failure = some (.internal message) := by
  unfold indexOfListing at h
  split at h
  · next e failure =>
    cases h
    exact failure
  · dsimp only at h
    split at h <;> cases h

namespace Session

/-- Whether an event is in the journal of a session. -/
def Notes (σ : Session) (event : Event) : Prop :=
  .event event ∈ σ.journal

/-- Whether an error was returned in a session by what the session was given from outside. -/
inductive WasGiven (loads : Nat → Except Error Digest) (σ : Session) (e : Error) : Prop
  | bucket {s : ModuleSet} {x : Module} (hs : s ∈ σ.sets) (hx : x ∈ s.modules)
    (opened : σ.Notes (.openedBucket x.source)) (given : x.inputs.bucket.on σ.disk = .error e)
  | listing {s : ModuleSet} {x : Module} {b : Bucket} (hs : s ∈ σ.sets) (hx : x ∈ s.modules)
    (walked : σ.Notes (.walkedBucket x.source x.description (ignoredPaths (b.list σ.disk))))
    (is : x.inputs.bucket.on σ.disk = .ok b) (foreign : b.IsForeign)
    (given : (b.list σ.disk).failure = some e)
  | file {s : ModuleSet} {x : Module} {b : Bucket} {path : String} (hs : s ∈ σ.sets)
    (hx : x ∈ s.modules) (fetched : σ.Notes (.fetchedFile x.source path))
    (is : x.inputs.bucket.on σ.disk = .ok b) (foreign : b.IsForeign)
    (given : b.read σ.disk path = .error e)
  | yaml {s : ModuleSet} {x : Module} (hs : s ∈ σ.sets) (hx : x ∈ s.modules)
    (loaded : σ.Notes (.loadedYaml x.source)) (given : x.inputs.yaml.on σ.disk = .error e)
  | lock {s : ModuleSet} {x : Module} (hs : s ∈ σ.sets) (hx : x ∈ s.modules)
    (loaded : σ.Notes (.loadedLock x.source)) (given : x.inputs.lock.on σ.disk = .error e)
  | keys {s : ModuleSet} {x : Module} (hs : s ∈ σ.sets) (hx : x ∈ s.modules)
    (remote : x.isLocal = false) (loaded : σ.Notes (.loadedKeys x.source))
    (given : x.inputs.declaredKeys.on σ.disk = .error e)
  /-- Only parsers with a number leave a trace. -/
  | parser {s : ModuleSet} {x : Module} {path : String} {data : ByteArray} (hs : s ∈ σ.sets)
    (hx : x ∈ s.modules) (foreign : s.parser ≠ .standard)
    (parsed : ∀ number, s.parser.number = some number → σ.Notes (.parsedFile number path))
    (is : x.readOn σ.disk path = .ok data) (given : s.parser.parse path data = .error e)
  | digest {number : Nat} (loaded : σ.Notes (.loadedDigest number))
    (given : loads number = .error e)

variable {loads : Nat → Except Error Digest} {σ σ' : Session} {e : Error}

/-- What was given stays given as the session goes on. -/
theorem WasGiven.mono (h : WasGiven loads σ e) (disk : σ'.disk = σ.disk)
    (sets : ∀ s ∈ σ.sets, s ∈ σ'.sets) (journal : ∀ event, σ.Notes event → σ'.Notes event) :
    WasGiven loads σ' e := by
  cases h with
  | bucket hs hx opened given =>
    exact .bucket (sets _ hs) hx (journal _ opened) (disk ▸ given)
  | listing hs hx walked is foreign given =>
    rw [← disk] at walked is given
    exact .listing (sets _ hs) hx (journal _ walked) is foreign given
  | file hs hx fetched is foreign given =>
    rw [← disk] at is given
    exact .file (sets _ hs) hx (journal _ fetched) is foreign given
  | yaml hs hx loaded given => exact .yaml (sets _ hs) hx (journal _ loaded) (disk ▸ given)
  | lock hs hx loaded given => exact .lock (sets _ hs) hx (journal _ loaded) (disk ▸ given)
  | keys hs hx remote loaded given =>
    exact .keys (sets _ hs) hx remote (journal _ loaded) (disk ▸ given)
  | parser hs hx foreign parsed is given =>
    rw [← disk] at is
    exact .parser (sets _ hs) hx foreign (fun n hn => journal _ (parsed n hn)) is given
  | digest loaded given => exact .digest (journal _ loaded) given

theorem notes_enter (σ : Session) (happening : Happening) {event : Event} (h : σ.Notes event) :
    (σ.enter happening).Notes event :=
  List.mem_cons_of_mem _ h

theorem WasGiven.enter (h : WasGiven loads σ e) (happening : Happening) :
    WasGiven loads (σ.enter happening) e :=
  h.mono rfl (fun _ => id) fun _ => σ.notes_enter happening

end Session

/-- What stays the same while something is asked. -/
structure Setting where
  disk : Disk
  loads : Nat → Except Error Digest
  sets : List ModuleSet

namespace Setting

/-- Whether the modules with a source are remote. -/
def IsRemote (g : Setting) (source : Source) : Prop :=
  ∃ s ∈ g.sets, ∃ x ∈ s.modules, x.source = source ∧ x.isLocal = false

/-- Whether an answer is what a module is made of, if the question asks for that. -/
def Gives (g : Setting) : (q : Question) → q.Answer → Prop
  | .bucket source, b =>
    ∃ s ∈ g.sets, ∃ x ∈ s.modules, x.source = source ∧ x.inputs.bucket.on g.disk = .ok b
  | .declaredKeys source, keys =>
    ∃ s ∈ g.sets, ∃ x ∈ s.modules, x.source = source ∧ x.inputs.declaredKeys.on g.disk = .ok keys
  | .fileIndex _, _ | .yaml _, _ | .lock _, _ | .provider _ _, _ | .imports _ _, _
  | .dependencies _ _, _ | .digest _ _ _, _ | .keyDigest _, _ => True

end Setting

/-- Whether a session has the disk and the sets of a setting, keeps as values what modules are made of,
keeps only such internal errors as were given, and loaded keys for remote modules alone. -/
structure Session.IsBlameless (g : Setting) (σ : Session) : Prop where
  disk_eq : σ.disk = g.disk
  orderly : σ.IsOrderly g.sets
  gives (q : Question) (a : q.Answer) : σ.memo.find? q = some (.ok a) → g.Gives q a
  given (q : Question) (message : String) :
    σ.memo.find? q = some (.error (.internal message)) → σ.WasGiven g.loads (.internal message)
  keys (source : Source) : σ.Notes (.loadedKeys source) → g.IsRemote source

/-- Whether something done in a blameless session leaves it blameless, where values satisfy `V` and an
internal error is one that was given. -/
def PassesOn (g : Setting) {α : Type} (x : SessionM α) (V : α → Prop) : Prop :=
  ∀ σ : Session, σ.IsBlameless g → (x σ).2.IsBlameless g ∧ (∀ a, (x σ).1 = .ok a → V a) ∧
    ∀ message, (x σ).1 = .error (.internal message) →
      (x σ).2.WasGiven g.loads (.internal message)

namespace Session.IsBlameless

variable {g : Setting} {σ : Session}

theorem sets_eq (h : σ.IsBlameless g) : σ.sets = g.sets :=
  h.orderly.sets_eq

theorem enter (h : σ.IsBlameless g) {happening : Happening}
    (lawful : ∀ source, happening = .event (.loadedKeys source) → g.IsRemote source) :
    (σ.enter happening).IsBlameless g where
  disk_eq := h.disk_eq
  orderly := h.orderly.enter happening
  gives := h.gives
  given q message kept := (h.given q message kept).enter happening
  keys source noted := by
    rcases List.mem_cons.1 noted with now | before
    · exact lawful source now.symm
    · exact h.keys source before

theorem store (h : σ.IsBlameless g) {q : Question} {answer : Except Error q.Answer}
    (orderly : IsOrderly g.sets { σ.enter (.answered q answer) with
      memo := σ.memo.store q answer })
    (gives : ∀ a, answer = .ok a → g.Gives q a)
    (given : ∀ message, answer = .error (.internal message) →
      σ.WasGiven g.loads (.internal message)) :
    IsBlameless g { σ.enter (.answered q answer) with memo := σ.memo.store q answer } where
  disk_eq := h.disk_eq
  orderly := orderly
  gives q' a kept := by
    by_cases same : q = q'
    · subst same
      rw [Memo.find?_store_self] at kept
      exact gives a (Option.some.inj kept)
    · rw [Memo.find?_store_of_ne same] at kept
      exact h.gives q' a kept
  given q' message kept := by
    have before : σ.WasGiven g.loads (.internal message) := by
      by_cases same : q = q'
      · subst same
        rw [Memo.find?_store_self] at kept
        exact given message (Option.some.inj kept)
      · rw [Memo.find?_store_of_ne same] at kept
        exact h.given q' message kept
    exact before.mono rfl (fun _ => id) fun _ => Session.notes_enter σ _
  keys source noted := by
    rcases List.mem_cons.1 noted with now | before
    · cases now
    · exact h.keys source before

end Session.IsBlameless

/-! ## Putting things together -/

namespace PassesOn

variable {g : Setting} {α β : Type} {x : SessionM α} {f : α → SessionM β} {V V' : α → Prop}
  {W : β → Prop} {event : Event} {y : Except Error α}

theorem mono (h : PassesOn g x V) (hV : ∀ a, V a → V' a) : PassesOn g x V' := by
  intro σ hσ
  obtain ⟨after, value, given⟩ := h σ hσ
  exact ⟨after, fun a ha => hV a (value a ha), given⟩

/-- What is known of values by the order in a session is known in a blameless one. -/
theorem of_asks (h : PassesOn g x V) (asks : Asks g.sets x V') : PassesOn g x V' := by
  intro σ hσ
  obtain ⟨after, -, given⟩ := h σ hσ
  exact ⟨after, (asks σ hσ.orderly).2.1, given⟩

theorem of_unchanged (h : ∀ σ : Session, σ.IsBlameless g → x σ = (y, σ))
    (hV : ∀ a, y = .ok a → V a)
    (given : ∀ σ : Session, σ.IsBlameless g → ∀ message, y = .error (.internal message) →
      σ.WasGiven g.loads (.internal message)) : PassesOn g x V := by
  intro σ hσ
  rw [h σ hσ]
  exact ⟨hσ, hV, given σ hσ⟩

theorem pure {a : α} (hV : V a) : PassesOn g (Pure.pure a) V := by
  refine of_unchanged (y := .ok a) (fun _ _ => rfl) ?_ ?_
  · rintro _ ⟨⟩
    exact hV
  · rintro _ _ _ ⟨⟩

theorem throw {e : Error} (he : e.isInternal = false) :
    PassesOn g (MonadExcept.throw e : SessionM α) V := by
  refine of_unchanged (y := .error e) (fun _ _ => rfl) ?_ ?_
  · rintro _ ⟨⟩
  · rintro _ _ _ ⟨⟩
    cases he

theorem run_ofExcept (y : Except Error α) (σ : Session) :
    (MonadExcept.ofExcept y : SessionM α) σ = (y, σ) := by
  cases y <;> rfl

theorem ofExcept (hV : ∀ a, y = .ok a → V a)
    (given : ∀ σ : Session, σ.IsBlameless g → ∀ message, y = .error (.internal message) →
      σ.WasGiven g.loads (.internal message)) :
    PassesOn g (MonadExcept.ofExcept y : SessionM α) V :=
  of_unchanged (fun σ _ => run_ofExcept y σ) hV given

theorem ofClean (clean : IsClean y) :
    PassesOn g (MonadExcept.ofExcept y : SessionM α) fun _ => True :=
  ofExcept (fun _ _ => trivial) fun _ _ message failed => absurd failed (clean message)

theorem bind (hx : PassesOn g x V) (hf : ∀ a, V a → PassesOn g (f a) W) :
    PassesOn g (x >>= f) W := by
  intro σ hσ
  obtain ⟨after, value, given⟩ := hx σ hσ
  rcases first : x σ with ⟨e | a, σ'⟩
  · rw [SessionM.bind_of_error first]
    rw [first] at after given
    refine ⟨after, ?_, ?_⟩
    · rintro _ ⟨⟩
    · rintro message ⟨⟩
      exact given message rfl
  · rw [SessionM.bind_of_ok first]
    rw [first] at after value
    exact hf a (value a rfl) σ' after

theorem map {h : α → β} (hx : PassesOn g x V) (hV : ∀ a, V a → W (h a)) :
    PassesOn g (h <$> x) W := by
  rw [map_eq_pure_bind]
  exact hx.bind fun a ha => .pure (hV a ha)

theorem mapM {xs : List α} (h : ∀ a ∈ xs, PassesOn g (f a) W) :
    PassesOn g (xs.mapM f) fun bs => ∀ b ∈ bs, W b := by
  induction xs with
  | nil => exact .pure (by simp)
  | cons a xs ih =>
    obtain ⟨ha, hxs⟩ := List.forall_mem_cons.1 h
    rw [List.mapM_cons]
    refine ha.bind fun b hb => (ih hxs).bind fun bs hbs => .pure ?_
    exact List.forall_mem_cons.2 ⟨hb, hbs⟩

theorem disk : PassesOn g access.disk (· = g.disk) := by
  intro σ hσ
  refine ⟨hσ, ?_, ?_⟩
  · rintro _ ⟨⟩
    exact hσ.disk_eq
  · rintro _ ⟨⟩

theorem findSet (number : Nat) : PassesOn g (access.findSet number) fun t => ∀ s ∈ t, s ∈ g.sets := by
  intro σ hσ
  refine ⟨hσ, ?_, ?_⟩
  · rintro _ ⟨⟩ s found
    rw [← hσ.sets_eq]
    exact List.mem_of_find?_eq_some found
  · rintro _ ⟨⟩

/-- Something that is told in the journal before it is done. -/
theorem noted (lawful : ∀ source, event = .loadedKeys source → g.IsRemote source)
    (run : ∀ σ : Session, σ.IsBlameless g → x σ = (y, σ)) (hV : ∀ a, y = .ok a → V a)
    (given : ∀ σ : Session, σ.IsBlameless g → σ.Notes event →
      ∀ message, y = .error (.internal message) → σ.WasGiven g.loads (.internal message)) :
    PassesOn g (access.note event >>= fun _ => x) V := by
  intro σ hσ
  have after : (σ.enter (.event event)).IsBlameless g := by
    refine hσ.enter fun source same => lawful source ?_
    cases same
    rfl
  have told : (access.note event >>= fun _ => x : SessionM α) σ = (y, σ.enter (.event event)) :=
    (SessionM.bind_of_ok rfl).trans (run _ after)
  rw [told]
  exact ⟨after, hV, given _ after List.mem_cons_self⟩

theorem note (lawful : ∀ source, event ≠ .loadedKeys source) :
    PassesOn g (access.note event) fun _ => True := by
  intro σ hσ
  refine ⟨hσ.enter fun source same => absurd ?_ (lawful source), fun _ _ => trivial, ?_⟩
  · cases same
    rfl
  · rintro _ ⟨⟩

theorem load {supply : Supply α}
    (lawful : ∀ source, event = .loadedKeys source → g.IsRemote source)
    (given : ∀ σ : Session, σ.IsBlameless g → σ.Notes event →
      ∀ e, supply.on σ.disk = .error e → σ.WasGiven g.loads e) :
    PassesOn g (access.load event supply) fun a => supply.on g.disk = .ok a := by
  cases supply with
  | ready a => exact .pure rfl
  | deferred load =>
    refine noted (y := load g.disk) lawful (fun σ hσ => ?_) (fun _ => id) ?_
    · rw [← hσ.disk_eq]
      exact run_ofExcept _ σ
    · intro σ hσ noted message failed
      refine given σ hσ noted _ ?_
      rwa [hσ.disk_eq]

/-- What is kept was asked for once, and passes internal errors on as it did then. -/
theorem remember {q : Question} {ask : SessionM q.Answer} {V : q.Answer → Prop}
    (asks : Asks g.sets (access.remember q ask) V) (h : PassesOn g ask (g.Gives q)) :
    PassesOn g (access.remember q ask) (g.Gives q) := by
  intro σ hσ
  obtain ⟨orderly, -⟩ := asks σ hσ.orderly
  change (Session.remember q ask σ).2.IsOrderly g.sets at orderly
  change (Session.remember q ask σ).2.IsBlameless g ∧
    (∀ a, (Session.remember q ask σ).1 = .ok a → g.Gives q a) ∧
    ∀ message, (Session.remember q ask σ).1 = .error (.internal message) →
      (Session.remember q ask σ).2.WasGiven g.loads (.internal message)
  cases kept : σ.memo.find? q with
  | some answer =>
    rw [Session.remember_of_find? kept]
    refine ⟨hσ.enter (by simp), ?_, ?_⟩
    · rintro a rfl
      exact hσ.gives q a kept
    · rintro message rfl
      exact (hσ.given q message kept).enter _
  | none =>
    rw [Session.remember_of_none kept] at orderly ⊢
    have before : (σ.enter (.asked q)).IsBlameless g := hσ.enter (by simp)
    obtain ⟨after, value, given⟩ := h _ before
    refine ⟨after.store orderly value given, value, fun message failed => ?_⟩
    exact (given message failed).mono rfl (fun _ => id) fun _ => Session.notes_enter _ _

end PassesOn

end ProtoWorkspace
