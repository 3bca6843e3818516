import Mathlib.Tactic
import ProtoWorkspace.Proofs.Caching.Lookup
import ProtoWorkspace.Proofs.Caching.ResultCell

/-!
# What a cache keeps

Computations that run for a key may return a value or an error, be broken off, and ask the cache
themselves. Their runs are noted in a journal: when a key is asked for, when a computation of it begins and
ends, and how the call ends. `Tells` says what the cache has to do with the journal, `IsUnderWay` which guards
are out while computations run in one another. Every call preserves both, and so does every run.
-/

namespace ProtoWorkspace

namespace ResultCache

variable {α : Type} {c : ResultCache α} {key : String} {result : Except Error α} {g : Guard}

/-! ## Computations that ask for other keys -/

/-- What is run for a key. -/
inductive Computation (α : Type) where
  /-- Returns a value or an error. -/
  | give (result : Except Error α)
  | breakOff
  /-- Asks the cache for a key, and goes on with what the call returns, or with nothing where it was broken
  off. -/
  | ask (key : String) (compute : Computation α) (next : Option (Except Error α) → Computation α)

/-- Something that happens while computations run. -/
inductive Event (α : Type) where
  /-- A call for a key begins. -/
  | asked (key : String)
  /-- A computation of a key begins. -/
  | begun (key : String)
  /-- A computation of a key ends, with a result or broken off. -/
  | ended (key : String) (result? : Option (Except Error α))
  /-- A call for a key ends, with a result or broken off. -/
  | answered (key : String) (result? : Option (Except Error α))

/-- Whether a call returns. -/
def Event.isReturn : Event α → Bool
  | .answered _ (some _) => true
  | _ => false

/-- What happened, the latest first. -/
abbrev Journal (α : Type) := List (Event α)

/-- The keys whose computations have begun and not ended. -/
def Journal.computing : Journal α → List String
  | [] => []
  | .begun key :: journal => key :: computing journal
  | .ended _ _ :: journal => (computing journal).tail
  | _ :: journal => computing journal

namespace Computation

/-- Notes when a computation of a key begins and when it ends. -/
def noting (key : String)
    (run : Journal α → ResultCache α → (Outcome α × Journal α) × ResultCache α)
    (journal : Journal α) (c : ResultCache α) : (Outcome α × Journal α) × ResultCache α :=
  match run (.begun key :: journal) c with
  | ((.stuck, journal), c) => ((.stuck, journal), c)
  | ((outcome, journal), c) => ((outcome, .ended key outcome.result? :: journal), c)

/-- Runs a computation on a cache. What gets stuck does not go on. -/
def run : Computation α → Journal α → ResultCache α → (Outcome α × Journal α) × ResultCache α
  | give result, journal, c => ((.returned result, journal), c)
  | breakOff, journal, c => ((.abandoned, journal), c)
  | ask key compute next, journal, c =>
    match c.getOrComputeIn key (noting key compute.run) (.asked key :: journal) with
    | ((.stuck, journal), c) => ((.stuck, journal), c)
    | ((outcome, journal), c) =>
      (next outcome.result?).run (.answered key outcome.result? :: journal) c

/-! A client is a computation that belongs to no key. It makes its calls one after another, each of which may
hang on what came before, and goes on when one is broken off. What holds at the end of every client holds
between any two calls of one, since another client ends there. -/

/-- What a client leaves of a new cache. -/
def cache (client : Computation α) : ResultCache α :=
  (client.run [] {}).2

def journal (client : Computation α) : Journal α :=
  (client.run [] {}).1.2

def outcome (client : Computation α) : Outcome α :=
  (client.run [] {}).1.1

end Computation

/-! ## What the cache has to do with the journal -/

/-- Whether something can happen after what happened before. -/
def Event.Follows : Event α → Journal α → Prop
  | .begun key, earlier => ∀ result, .ended key (some result) ∉ earlier
  | .answered key result?, earlier =>
    (∀ result, result? = some result ↔ .ended key (some result) ∈ earlier) ∧
      (result? = none → ∃ before, earlier = .ended key none :: before)
  | _, _ => True

namespace Journal

/-- Whatever happened follows what had happened before. -/
def IsOrderly : Journal α → Prop
  | [] => True
  | event :: journal => event.Follows journal ∧ IsOrderly journal

/-- No call was for a key that was being computed. -/
def AsksFree : Journal α → Prop
  | [] => True
  | .asked key :: journal => key ∉ computing journal ∧ AsksFree journal
  | _ :: journal => AsksFree journal

variable {journal : Journal α}

theorem IsOrderly.follows (h : journal.IsOrderly) {later earlier : Journal α} {event : Event α}
    (split : journal = later ++ event :: earlier) : event.Follows earlier := by
  subst split
  induction later with
  | nil => exact h.1
  | cons _ _ ih => exact ih h.2

theorem asksFree_iff : journal.AsksFree ↔
    ∀ later key earlier, journal = later ++ .asked key :: earlier → key ∉ computing earlier := by
  have cons (event : Event α) (journal : Journal α) :
      (∀ later key earlier, event :: journal = later ++ .asked key :: earlier → key ∉ computing earlier) ↔
        (∀ key, event = .asked key → key ∉ computing journal) ∧
        ∀ later key earlier, journal = later ++ .asked key :: earlier → key ∉ computing earlier := by
    constructor
    · exact fun h => ⟨fun key same => h [] key journal (same ▸ rfl),
        fun later key earlier split => h (event :: later) key earlier (split ▸ rfl)⟩
    · rintro ⟨first, rest⟩ (_ | ⟨_, later⟩) key earlier split
      · obtain ⟨same, rfl⟩ := List.cons.inj split
        exact first key same
      · exact rest later key earlier (List.cons.inj split).2
  induction journal with
  | nil => simp [AsksFree]
  | cons event journal ih => cases event <;> simp [AsksFree, cons, ih]

end Journal

open Journal

/-- The cache keeps what the journal tells that computations returned, and its numbers are those of the
journal. -/
structure Tells (c : ResultCache α) (journal : Journal α) : Prop where
  kept : ∀ key result, c.values.lookup key = some result ↔ .ended key (some result) ∈ journal
  nodup : (c.values.map Prod.fst).Nodup
  calls : c.calls = journal.countP Event.isReturn
  balance : c.calls = c.hits + c.values.length
  orderly : journal.IsOrderly

/-- The guards that are out belong to computations under way, the innermost first, and no call has waited for
one of them. -/
structure IsUnderWay (guards : List Guard) (c : ResultCache α) (journal : Journal α) : Prop where
  sound : c.locks.IsSound
  guards_eq : c.locks.guards = guards
  exclusive : ∀ g ∈ guards, g.mode = .exclusive
  missing : ∀ g ∈ guards, c.values.lookup g.key = none
  busy : computing journal = guards.map Guard.key
  free : journal.AsksFree

variable {journal : Journal α} {guards : List Guard} {guard : Guard} {locks : LockTable}

theorem tells_empty : Tells ({} : ResultCache α) [] where
  kept _ _ := by simp
  nodup := List.nodup_nil
  calls := rfl
  balance := rfl
  orderly := trivial

theorem isUnderWay_empty : IsUnderWay [] ({} : ResultCache α) [] where
  sound := LockTable.isSound_empty
  guards_eq := rfl
  exclusive := List.forall_mem_nil _
  missing := List.forall_mem_nil _
  busy := rfl
  free := trivial

namespace Tells

theorem withLocks (h : Tells c journal) (locks : LockTable) : Tells { c with locks := locks } journal :=
  ⟨h.kept, h.nodup, h.calls, h.balance, h.orderly⟩

theorem asked (h : Tells c journal) (key : String) : Tells c (.asked key :: journal) where
  kept key' result := by simpa using h.kept key' result
  nodup := h.nodup
  calls := h.calls
  balance := h.balance
  orderly := ⟨trivial, h.orderly⟩

theorem not_mem_of_missing (h : Tells c journal) (missing : c.values.lookup key = none)
    (result : Except Error α) : .ended key (some result) ∉ journal := by
  rw [← h.kept, missing]
  exact Option.some_ne_none result ∘ Eq.symm

theorem begun (h : Tells c journal) (missing : c.values.lookup key = none) :
    Tells c (.begun key :: journal) where
  kept key' result := by simpa using h.kept key' result
  nodup := h.nodup
  calls := h.calls
  balance := h.balance
  orderly := ⟨h.not_mem_of_missing missing, h.orderly⟩

/-- A call that finds the result of an earlier computation. -/
theorem recalled (h : Tells c journal) (kept : c.values.lookup key = some result) :
    Tells (c.count true) (.answered key (some result) :: journal) where
  kept key' result := by simpa using h.kept key' result
  nodup := h.nodup
  calls := (congrArg (· + 1) h.calls).trans (List.countP_cons_of_pos rfl).symm
  balance := by
    have balance := h.balance
    simp only [calls_count, hits_count_true, values_count]
    omega
  orderly := by
    refine ⟨⟨fun result' => ?_, fun no => absurd no (Option.some_ne_none result)⟩, h.orderly⟩
    rw [← kept, h.kept key result']

/-- A call whose computation is broken off. -/
theorem abandoned (h : Tells c journal) (missing : c.values.lookup key = none) :
    Tells c (.answered key none :: .ended key none :: journal) where
  kept key' result := by simpa using h.kept key' result
  nodup := h.nodup
  calls := h.calls
  balance := h.balance
  orderly := by
    refine ⟨⟨fun result => ?_, fun _ => ⟨journal, rfl⟩⟩, trivial, h.orderly⟩
    simpa using h.not_mem_of_missing missing result

/-- A call whose computation returns something. -/
theorem stored (h : Tells c journal) (missing : c.values.lookup key = none) (result : Except Error α) :
    Tells ((c.store key result).count false)
      (.answered key (some result) :: .ended key (some result) :: journal) where
  kept key' result' := by
    have kept := h.kept key' result'
    by_cases same : key' = key
    · subst same
      simpa [eq_comm] using fun old => (h.not_mem_of_missing missing result' old).elim
    · have apart : (key' == key) = false := by simpa using same
      simpa [List.lookup_cons, apart, same] using kept
  nodup := List.nodup_cons.2 ⟨not_mem_keys_of_lookup_eq_none missing, h.nodup⟩
  calls := by
    rw [List.countP_cons_of_pos rfl, List.countP_cons_of_neg Bool.false_ne_true, ← h.calls]
    rfl
  balance := by
    have balance := h.balance
    simp only [calls_count, calls_store, hits_count_false, hits_store, values_count, values_store,
      List.length_cons]
    omega
  orderly := by
    refine ⟨⟨fun result' => ?_, fun no => absurd no (Option.some_ne_none result)⟩, trivial, h.orderly⟩
    simpa [eq_comm] using fun old => (h.not_mem_of_missing missing result' old).elim

end Tells

namespace IsUnderWay

theorem mem_computing_iff (h : IsUnderWay guards c journal) :
    key ∈ computing journal ↔ ∃ g ∈ guards, g.key = key := by
  rw [h.busy, List.mem_map]

theorem asksFree (h : IsUnderWay guards c journal) (free : ∀ g ∈ guards, g.key ≠ key) :
    AsksFree (.asked key :: journal) := by
  refine ⟨fun busy => ?_, h.free⟩
  obtain ⟨g, hg, same⟩ := h.mem_computing_iff.1 busy
  exact free g hg same

theorem recalled (h : IsUnderWay guards c journal) (free : ∀ g ∈ guards, g.key ≠ key)
    (sound : locks.IsSound) (same : locks.guards = c.locks.guards) :
    IsUnderWay guards ({ c with locks := locks }.count true)
      (.answered key (some result) :: .asked key :: journal) where
  sound := sound
  guards_eq := same.trans h.guards_eq
  exclusive := h.exclusive
  missing := h.missing
  busy := h.busy
  free := h.asksFree free

theorem begun (h : IsUnderWay guards c journal) (free : ∀ g ∈ guards, g.key ≠ key)
    (missing : c.values.lookup key = none) (sound : locks.IsSound)
    (out : locks.guards = guard :: c.locks.guards) (named : guard.key = key)
    (exclusive : guard.mode = .exclusive) :
    IsUnderWay (guard :: guards) { c with locks := locks } (.begun key :: .asked key :: journal) where
  sound := sound
  guards_eq := out.trans (h.guards_eq ▸ rfl)
  exclusive := List.forall_mem_cons.2 ⟨exclusive, h.exclusive⟩
  missing := List.forall_mem_cons.2 ⟨named ▸ missing, h.missing⟩
  busy := congrArg₂ List.cons named.symm h.busy
  free := h.asksFree free

/-- The end of the innermost computation under way. -/
theorem ended (h : IsUnderWay (guard :: guards) c journal) {values : List (String × Except Error α)}
    (missing : ∀ g ∈ guards, values.lookup g.key = none) (calls hits : ℕ)
    (result? : Option (Except Error α)) :
    IsUnderWay guards ⟨c.locks.release guard, values, calls, hits⟩
      (.answered key result? :: .ended key result? :: journal) := by
  have mem : guard ∈ c.locks.guards := h.guards_eq ▸ List.mem_cons_self
  exact {
    sound := h.sound.release mem
    guards_eq := by
      rw [h.sound.guards_release mem, h.guards_eq, List.erase_cons_head]
    exclusive := fun g hg => h.exclusive g (List.mem_cons_of_mem _ hg)
    missing := missing
    busy := congrArg List.tail h.busy
    free := h.free }

end IsUnderWay

/-! ## Runs -/

namespace Computation

variable {compute : Computation α} {next : Option (Except Error α) → Computation α}

theorem run_ask_of_busy (sound : c.locks.IsSound) (hg : g ∈ c.locks.guards) (exclusive : g.mode = .exclusive)
    (compute : Computation α) (next : Option (Except Error α) → Computation α) (journal : Journal α) :
    (ask g.key compute next).run journal c = ((.stuck, .asked g.key :: journal), c) := by
  rw [run, getOrComputeIn_of_busy sound hg exclusive]

theorem run_ask_of_kept (sound : c.locks.IsSound) (free : ∀ g ∈ c.locks.guards, g.key ≠ key)
    (kept : c.values.lookup key = some result) :
    ∃ locks, locks.IsSound ∧ locks.guards = c.locks.guards ∧
      (ask key compute next).run journal c = (next (some result)).run
        (.answered key (some result) :: .asked key :: journal) ({ c with locks := locks }.count true) := by
  obtain ⟨locks, sound, same, found⟩ := getOrComputeIn_of_kept sound free kept
  exact ⟨locks, sound, same, by rw [run, found]; rfl⟩

theorem run_ask_of_missing (sound : c.locks.IsSound) (free : ∀ g ∈ c.locks.guards, g.key ≠ key)
    (missing : c.values.lookup key = none) :
    ∃ guard locks, locks.IsSound ∧ locks.guards = guard :: c.locks.guards ∧
      guard.key = key ∧ guard.mode = .exclusive ∧
      (ask key compute next).run journal c =
        match compute.run (.begun key :: .asked key :: journal) { c with locks := locks } with
        | ((.stuck, journal), c) => ((.stuck, journal), leave key guard .stuck c)
        | ((outcome, journal), c) => (next outcome.result?).run
            (.answered key outcome.result? :: .ended key outcome.result? :: journal)
            (leave key guard outcome c) := by
  obtain ⟨guard, locks, sound, out, named, exclusive, runs⟩ := getOrComputeIn_of_missing sound free missing
  refine ⟨guard, locks, sound, out, named, exclusive, ?_⟩
  rw [run, runs, noting]
  obtain ⟨⟨outcome, journal⟩, c⟩ :=
    compute.run (.begun key :: .asked key :: journal) { c with locks := locks }
  cases outcome <;> rfl

/-- What a run leaves: the cache keeps what the journal tells and, unless the run is stuck at a call for a key
that was being computed, the computations under way are those from before. -/
structure Leaves (guards : List Guard) (left : (Outcome α × Journal α) × ResultCache α) : Prop where
  tells : Tells left.2 left.1.2
  stuck : left.1.1 = .stuck → ¬ left.1.2.AsksFree
  underWay : left.1.1 ≠ .stuck → IsUnderWay guards left.2 left.1.2

theorem run_leaves (x : Computation α) (tells : Tells c journal) (underWay : IsUnderWay guards c journal) :
    Leaves guards (x.run journal c) := by
  induction x generalizing guards c journal with
  | give result => exact ⟨tells, nofun, fun _ => underWay⟩
  | breakOff => exact ⟨tells, nofun, fun _ => underWay⟩
  | ask key compute next ihCompute ihNext =>
    by_cases busy : ∃ g ∈ guards, g.key = key
    · obtain ⟨g, hg, rfl⟩ := busy
      rw [run_ask_of_busy underWay.sound (underWay.guards_eq ▸ hg) (underWay.exclusive g hg)]
      exact ⟨tells.asked _, fun _ free => free.1 (underWay.mem_computing_iff.2 ⟨g, hg, rfl⟩),
        fun goesOn => absurd rfl goesOn⟩
    · have free : ∀ g ∈ guards, g.key ≠ key := fun g hg same => busy ⟨g, hg, same⟩
      have unlocked : ∀ g ∈ c.locks.guards, g.key ≠ key := underWay.guards_eq ▸ free
      cases known : c.values.lookup key with
      | some result =>
        obtain ⟨locks, sound, same, runs⟩ := run_ask_of_kept underWay.sound unlocked known
        rw [runs]
        exact ihNext _ (((tells.asked key).withLocks locks).recalled known)
          (underWay.recalled free sound same)
      | none =>
        obtain ⟨guard, locks, sound, out, rfl, exclusive, runs⟩ :=
          run_ask_of_missing underWay.sound unlocked known
        rw [runs]
        have inner := ihCompute (((tells.asked guard.key).withLocks locks).begun known)
          (underWay.begun free known sound out rfl exclusive)
        generalize compute.run (.begun guard.key :: .asked guard.key :: journal) { c with locks := locks } =
          ended at inner ⊢
        obtain ⟨⟨outcome, journal⟩, c⟩ := ended
        cases outcome with
        | stuck => exact ⟨inner.tells.withLocks _, inner.stuck, fun goesOn => absurd rfl goesOn⟩
        | abandoned =>
          have under := inner.underWay nofun
          obtain ⟨missing, others⟩ := List.forall_mem_cons.1 under.missing
          exact ihNext _ ((inner.tells.abandoned missing).withLocks _) (under.ended others _ _ _)
        | returned result =>
          have under := inner.underWay nofun
          obtain ⟨missing, others⟩ := List.forall_mem_cons.1 under.missing
          refine ihNext _ ((inner.tells.stored missing result).withLocks _) (under.ended ?_ _ _ _)
          intro g hg
          have apart : (g.key == guard.key) = false := by simpa using free g hg
          exact (List.lookup_cons.trans (by rw [apart])).trans (others g hg)

end Computation

/-- A client makes any calls of a new cache, with computations that return values or errors, are broken off,
or make calls themselves. Once a computation of a key has returned, none of the key begins again. A call ends
with a result exactly if a computation of its key has returned this result before, and a call that is broken
off ends right after its own computation, which was. The cache has for each key what a computation of the key
returned, and nothing else. It counts the calls that return, and those that were no hits are as many as the
keys it has. A client comes to its end exactly if no call is for a key that is just being computed, and then
no lock is left. -/
theorem first_result_is_kept (client : Computation α) :
    (∀ later key earlier, client.journal = later ++ .begun key :: earlier →
      ∀ result, .ended key (some result) ∉ earlier) ∧
    (∀ later key result? earlier, client.journal = later ++ .answered key result? :: earlier →
      (∀ result, result? = some result ↔ .ended key (some result) ∈ earlier) ∧
      (result? = none → ∃ before, earlier = .ended key none :: before)) ∧
    (∀ key result, client.cache.values.lookup key = some result ↔
      .ended key (some result) ∈ client.journal) ∧
    (client.cache.values.map Prod.fst).Nodup ∧
    client.cache.calls = client.journal.countP Event.isReturn ∧
    client.cache.calls = client.cache.hits + client.cache.values.length ∧
    (client.outcome ≠ .stuck → client.cache.locks.isEmpty = true ∧ client.cache.locks.guards = []) ∧
    (client.outcome ≠ .stuck ↔ ∀ later key earlier,
      client.journal = later ++ .asked key :: earlier → key ∉ computing earlier) := by
  obtain ⟨tells, stuck, underWay⟩ : Computation.Leaves [] (client.run [] {}) :=
    client.run_leaves tells_empty isUnderWay_empty
  refine ⟨fun _ _ _ split => tells.orderly.follows split, fun _ _ _ _ split => tells.orderly.follows split,
    tells.kept, tells.nodup, tells.calls, tells.balance, fun ends => ?_, ?_⟩
  · obtain ⟨sound, guards, -, -, -, -⟩ := underWay ends
    refine ⟨List.isEmpty_iff.2 (List.eq_nil_iff_forall_not_mem.2 fun entry hentry => ?_), guards⟩
    obtain ⟨g, hg, -⟩ := sound.is_held entry hentry
    simp [guards] at hg
  · rw [← asksFree_iff]
    exact ⟨fun ends => (underWay ends).free, fun free isStuck => stuck isStuck free⟩

-- The computation of `a` is broken off after it got an error for `b`. Then `a` is computed, and `b` is not.
example :
    let first : Computation ℕ := .ask "b" (.give (.error (.internal "none"))) fun _ => .breakOff
    let client : Computation ℕ := .ask "a" first fun _ => .ask "a" (.give (.ok 1)) fun _ =>
      .ask "b" (.give (.ok 2)) fun _ => .breakOff
    client.cache.calls = 3 ∧ client.cache.hits = 1 ∧
      client.cache.values = [("a", .ok 1), ("b", .error (.internal "none"))] :=
  ⟨rfl, rfl, rfl⟩

end ResultCache

end ProtoWorkspace
