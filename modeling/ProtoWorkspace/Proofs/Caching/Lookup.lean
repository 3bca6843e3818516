import Mathlib.Tactic
import ProtoWorkspace.Caching.ResultCache
import ProtoWorkspace.Proofs.Caching.LockTable

/-!
# What a call of a cache does

While computations run for some keys, the guards that are out are theirs. A call for one of these keys waits
for itself. A call for any other key finds the result that is kept, or runs its computation while a guard of
the key is out and keeps what it returns.
-/

namespace ProtoWorkspace

namespace ResultCache

variable {α σ : Type} {c : ResultCache α} {key : String} {result : Except Error α} {g : Guard}

@[simp] theorem values_count (c : ResultCache α) (isHit : Bool) : (c.count isHit).values = c.values :=
  rfl

@[simp] theorem calls_count (c : ResultCache α) (isHit : Bool) : (c.count isHit).calls = c.calls + 1 :=
  rfl

@[simp] theorem hits_count_true (c : ResultCache α) : (c.count true).hits = c.hits + 1 :=
  rfl

@[simp] theorem hits_count_false (c : ResultCache α) : (c.count false).hits = c.hits :=
  rfl

@[simp] theorem values_store (c : ResultCache α) (key : String) (result : Except Error α) :
    (c.store key result).values = (key, result) :: c.values :=
  rfl

@[simp] theorem calls_store (c : ResultCache α) (key : String) (result : Except Error α) :
    (c.store key result).calls = c.calls :=
  rfl

@[simp] theorem hits_store (c : ResultCache α) (key : String) (result : Except Error α) :
    (c.store key result).hits = c.hits :=
  rfl

/-- The cache when a computation of a key has ended and given its guard back. -/
def leave (key : String) (guard : Guard) : Outcome α → ResultCache α → ResultCache α
  | .returned result, c =>
    { (c.store key result).count false with locks := c.locks.release guard }
  | _, c => { c with locks := c.locks.release guard }

theorem holding_of_free (sound : c.locks.IsSound) (free : ∀ g ∈ c.locks.guards, g.key ≠ key)
    (mode : LockMode) : ∃ guard locks, locks.IsSound ∧ locks.guards = guard :: c.locks.guards ∧
      guard.key = key ∧ guard.mode = mode ∧
      ∀ {β : Type} (action : ResultCache α → β × ResultCache α), c.holding key mode action =
        some ((action { c with locks := locks }).1,
          { (action { c with locks := locks }).2 with
            locks := (action { c with locks := locks }).2.locks.release guard }) := by
  obtain ⟨⟨guard, locks⟩, got⟩ := Option.isSome_iff_exists.1
    (sound.acquire?_isSome_iff.2 fun g hg same => absurd same (free g hg))
  obtain ⟨guards, named, moded⟩ := LockTable.guards_of_acquire? got
  exact ⟨guard, locks, sound.acquire got, guards, named, moded, fun action => by simp [holding, got]⟩

/-- A call for a key that is being computed waits for itself. -/
theorem getOrComputeIn_of_busy (sound : c.locks.IsSound) (hg : g ∈ c.locks.guards)
    (exclusive : g.mode = .exclusive) (compute : σ → ResultCache α → (Outcome α × σ) × ResultCache α)
    (s : σ) : c.getOrComputeIn g.key compute s = ((.stuck, s), c) := by
  have waits : c.locks.acquire? g.key .shared = none := by
    rw [← Option.not_isSome_iff_eq_none, sound.acquire?_isSome_iff]
    intro all
    simpa [Guard.excludes, exclusive] using all g hg rfl
  simp [getOrComputeIn, holding, waits]

/-- The table of locks after the guard of a look-up was taken and dropped. -/
theorem holding_find (sound : c.locks.IsSound) (free : ∀ g ∈ c.locks.guards, g.key ≠ key) :
    ∃ locks, locks.IsSound ∧ locks.guards = c.locks.guards ∧
      c.holding key .shared (find key) = some (c.values.lookup key, { c with locks := locks }) := by
  obtain ⟨guard, locks, sound, guards, -, -, held⟩ := holding_of_free sound free .shared
  have mem : guard ∈ locks.guards := guards ▸ List.mem_cons_self
  refine ⟨locks.release guard, sound.release mem, ?_, held _⟩
  rw [sound.guards_release mem, guards, List.erase_cons_head]

theorem getOrComputeIn_of_kept (sound : c.locks.IsSound) (free : ∀ g ∈ c.locks.guards, g.key ≠ key)
    (kept : c.values.lookup key = some result) :
    ∃ locks, locks.IsSound ∧ locks.guards = c.locks.guards ∧
      ∀ (compute : σ → ResultCache α → (Outcome α × σ) × ResultCache α) (s : σ),
        c.getOrComputeIn key compute s =
          ((.returned result, s), { c with locks := locks }.count true) := by
  obtain ⟨locks, sound, guards, found⟩ := holding_find sound free
  exact ⟨locks, sound, guards, fun compute s => by simp only [getOrComputeIn, found, kept]⟩

theorem getOrComputeIn_of_missing (sound : c.locks.IsSound) (free : ∀ g ∈ c.locks.guards, g.key ≠ key)
    (missing : c.values.lookup key = none) :
    ∃ guard locks, locks.IsSound ∧ locks.guards = guard :: c.locks.guards ∧
      guard.key = key ∧ guard.mode = .exclusive ∧
      ∀ (compute : σ → ResultCache α → (Outcome α × σ) × ResultCache α) (s : σ),
        c.getOrComputeIn key compute s =
          let (ended, c) := compute s { c with locks := locks }
          (ended, leave key guard ended.1 c) := by
  obtain ⟨passed, sound, guards, found⟩ := holding_find sound free
  have free : ∀ g ∈ ({ c with locks := passed } : ResultCache α).locks.guards, g.key ≠ key := by
    rwa [guards]
  obtain ⟨guard, locks, sound, out, named, moded, held⟩ := holding_of_free sound free .exclusive
  refine ⟨guard, locks, sound, out.trans (congrArg _ guards), named, moded, fun compute s => ?_⟩
  simp only [getOrComputeIn, found, missing, held, Option.getD_some, fill]
  obtain ⟨⟨ended, s'⟩, c'⟩ := compute s { c with locks := locks }
  cases ended <;> rfl

end ResultCache

end ProtoWorkspace
