import Mathlib.Tactic
import ProtoWorkspace.Proofs.Caching.ResultCell
import ProtoWorkspace.Proofs.Session.Described

/-!
# Answers in cells

A session keeps the answer to a question as a cell keeps the first result. What modules and keys are made
with are functions that run once. To load it in a session is to call the function, which the session has
for as long as it lasts.
-/

namespace ProtoWorkspace

open Session (access)

/-! ## Functions that run once -/

namespace Supply

variable {α : Type} (disk : Disk)

/-- A supply as a function that runs once. -/
def onceOnly : Supply α → LazyResult α
  | .ready a => .ready a
  | .deferred load => .ofOutcome (.returned (load disk))

theorem call_onceOnly (supply : Supply α) : (supply.onceOnly disk).call =
    (.returned (supply.on disk), ⟨none, ⟨some (supply.on disk)⟩⟩) := by
  cases supply <;> rfl

theorem returns_onceOnly (supply : Supply α) :
    (supply.onceOnly disk).Returns (supply.on disk) := by
  cases supply with
  | ready a => exact .inl rfl
  | deferred load => exact .inr ⟨rfl, rfl⟩

end Supply

namespace Session

variable {loads : Nat → Except Error Digest} {σ : Session} {q : Question} {supply : Supply q.Answer}
  {x : SessionM q.Answer}

/-! ## Cells -/

/-- The cell in which a session keeps the answer to a question. -/
def cell (σ : Session) (q : Question) : ResultCell q.Answer :=
  ⟨σ.memo.find? q⟩

/-- Something done in a session, as a computation that reads and changes the session. -/
def running {α : Type} (x : SessionM α) (σ : Session) : Outcome α × Session :=
  (.returned (x σ).1, (x σ).2)

/-- To remember an answer is to ask the cell in which it is kept. -/
theorem getOrComputeIn_cell (σ : Session) (q : Question) (ask : SessionM q.Answer) :
    let asked := (σ.cell q).getOrComputeIn (running ask) (σ.enter (.asked q))
    asked.1.1 = .returned (σ.outcome (remember q ask)) ∧
      asked.2 = (σ.after (remember q ask)).cell q := by
  cases kept : σ.memo.find? q with
  | some answer =>
    have full : (σ.cell q).result? = some answer := kept
    rw [ResultCell.getOrComputeIn_of_result full, outcome, after, remember_of_find? kept]
    exact ⟨rfl, rfl⟩
  | none =>
    have empty : σ.cell q = {} := congrArg ResultCell.mk kept
    rw [empty, ResultCell.getOrComputeIn_of_empty, outcome, after, remember_of_none kept]
    exact ⟨rfl, congrArg ResultCell.mk (Memo.find?_store_self _ _ _).symm⟩

/-! ## What is loaded -/

/-- The function that a session calls for what a supply gives as the answer to a question. -/
def onceOnly (σ : Session) (q : Question) (supply : Supply q.Answer) : LazyResult q.Answer :=
  if (σ.cell q).wouldRun then supply.onceOnly σ.disk else ⟨none, σ.cell q⟩

theorem onceOnly_of_empty (empty : σ.cell q = {}) (supply : Supply q.Answer) :
    σ.onceOnly q supply = supply.onceOnly σ.disk := by
  rw [onceOnly, empty]
  rfl

theorem onceOnly_of_full {answer : Except Error q.Answer} (full : σ.cell q = ⟨some answer⟩)
    (supply : Supply q.Answer) : σ.onceOnly q supply = ⟨none, ⟨some answer⟩⟩ := by
  rw [onceOnly, full]
  rfl

theorem outcome_load (σ : Session) (event : Event) {α : Type} (supply : Supply α) :
    σ.outcome (access.load event supply) = supply.on σ.disk := by
  cases supply with
  | ready a => rfl
  | deferred load =>
    change ((MonadExcept.ofExcept (load σ.disk) : SessionM α) _).1 = load σ.disk
    cases load σ.disk <;> rfl

/-- To load the answer to a question is to call the function that the session has for it. -/
theorem call_onceOnly (σ : Session) (q : Question) (event : Event) (supply : Supply q.Answer) :
    (σ.onceOnly q supply).call =
      (.returned (σ.outcome (remember q (access.load event supply))),
        (σ.after (remember q (access.load event supply))).onceOnly q supply) := by
  obtain ⟨outcome, now⟩ := σ.getOrComputeIn_cell q (access.load event supply)
  cases kept : σ.memo.find? q with
  | some answer =>
    have full : σ.cell q = ⟨some answer⟩ := congrArg ResultCell.mk kept
    rw [full, ResultCell.getOrComputeIn_of_result rfl] at outcome now
    rw [onceOnly_of_full full, onceOnly_of_full now.symm, ← outcome]
    rfl
  | none =>
    have empty : σ.cell q = {} := congrArg ResultCell.mk kept
    have given : (running (access.load event supply) (σ.enter (.asked q))).1 =
        .returned (supply.on σ.disk) := congrArg Outcome.returned (outcome_load _ event supply)
    rw [empty, ResultCell.getOrComputeIn_of_empty, given] at outcome now
    rw [onceOnly_of_empty empty, onceOnly_of_full now.symm, ← outcome, supply.call_onceOnly]

/-- Whether something done in a session loads what a module or a key was made with, as the answer to a
question. -/
inductive Fetches (disk : Disk) (loads : Nat → Except Error Digest) (sets : List ModuleSet) :
    (q : Question) → Supply q.Answer → SessionM q.Answer → Prop where
  | bucket {s : ModuleSet} {x : Module} (hs : s ∈ sets) (hx : x ∈ s.modules) :
    Fetches disk loads sets (.bucket x.source) x.inputs.bucket (x.openBucket access)
  | yaml {s : ModuleSet} {x : Module} (hs : s ∈ sets) (hx : x ∈ s.modules) :
    Fetches disk loads sets (.yaml x.source) x.inputs.yaml (x.yaml access)
  | lock {s : ModuleSet} {x : Module} (hs : s ∈ sets) (hx : x ∈ s.modules) :
    Fetches disk loads sets (.lock x.source) x.inputs.lock (x.lock access)
  | declaredKeys {s : ModuleSet} {x : Module} (hs : s ∈ sets) (hx : x ∈ s.modules) :
    Fetches disk loads sets (.declaredKeys x.source) x.inputs.declaredKeys (x.declaredKeys access)
  | keyDigest {key : ModuleKey} {number : Nat} {load : Disk → Except Error Digest}
    (supplied : key.origin = .supplied number load)
    (known : key.IsKnown disk loads sets.length) :
    Fetches disk loads sets (.keyDigest number) (.deferred load) (key.digest access)

theorem Fetches.exists_eq {disk : Disk} {sets : List ModuleSet} (h : Fetches disk loads sets q supply x) :
    ∃ event, x = remember q (access.load event supply) := by
  cases h with
  | bucket => exact ⟨_, rfl⟩
  | yaml => exact ⟨_, rfl⟩
  | lock => exact ⟨_, rfl⟩
  | declaredKeys => exact ⟨_, rfl⟩
  | @keyDigest key number load supplied known =>
    refine ⟨.loadedDigest number, ?_⟩
    rw [ModuleKey.digest, ModuleKey.digestBy, supplied]
    rfl

/-- What is kept was loaded from the supply. -/
theorem Reachable.eq_of_fetches (h : Reachable loads σ) (fetches : Fetches σ.disk loads σ.sets q supply x)
    {answer : Except Error q.Answer} (kept : σ.memo.find? q = some answer) :
    answer = supply.on σ.disk := by
  have fits := h.fits_world
  have plain := fits.sound.plain
  apply (h.describes fits).answers q answer kept
  cases fetches with
  | bucket hs hx => exact ⟨_, hs, _, hx, rfl, plain.openBucket_eq _⟩
  | yaml hs hx => exact ⟨_, hs, _, hx, rfl, plain.yaml_eq _⟩
  | lock hs hx => exact ⟨_, hs, _, hx, rfl, plain.lock_eq _⟩
  | declaredKeys hs hx => exact ⟨_, hs, _, hx, rfl, plain.declaredKeys_eq _⟩
  | keyDigest supplied known =>
    rw [ModuleKey.IsKnown, supplied] at known
    exact known.symm

/-- The function that a session has for a supply is that of the supply after some calls, and to load what
the supply gives is to call it once more. -/
theorem Reachable.calls_onceOnly (h : Reachable loads σ) (fetches : Fetches σ.disk loads σ.sets q supply x) :
    (∃ calls, σ.onceOnly q supply = (supply.onceOnly σ.disk).called calls) ∧
      (σ.onceOnly q supply).call = (.returned (σ.outcome x), (σ.after x).onceOnly q supply) := by
  constructor
  · cases kept : σ.memo.find? q with
    | some answer =>
      refine ⟨1, (onceOnly_of_full (congrArg ResultCell.mk kept) supply).trans ?_⟩
      rw [h.eq_of_fetches fetches kept, LazyResult.called_succ, supply.call_onceOnly]
      rfl
    | none => exact ⟨0, onceOnly_of_empty (congrArg ResultCell.mk kept) supply⟩
  · obtain ⟨event, rfl⟩ := fetches.exists_eq
    exact σ.call_onceOnly q event supply

end Session

end ProtoWorkspace
