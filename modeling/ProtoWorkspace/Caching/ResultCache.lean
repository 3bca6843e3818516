import ProtoWorkspace.Caching.LockTable
import ProtoWorkspace.Caching.ResultCell

/-!
# Caches by key

A cache keeps the result, value or error, of one computation for each key. It counts how often it
was asked and how often it had the answer. A computation runs while its key is locked, and may
itself ask the cache for other keys.
-/

namespace ProtoWorkspace

/-- Results by key, with the locks of the keys that are being looked up or computed. -/
structure ResultCache (α : Type) where
  locks : LockTable := {}
  values : List (String × Except Error α) := []
  calls : Nat := 0
  hits : Nat := 0

namespace ResultCache

variable {α σ : Type}

def count (c : ResultCache α) (isHit : Bool) : ResultCache α :=
  { c with calls := c.calls + 1, hits := if isHit then c.hits + 1 else c.hits }

def store (c : ResultCache α) (key : String) (result : Except Error α) : ResultCache α :=
  { c with values := (key, result) :: c.values }

/-- Runs `action` while a guard of the key is held; it is given back however the action ends.
Nothing comes of an action whose guard would have to wait. -/
def holding {β : Type} (c : ResultCache α) (key : String) (mode : LockMode)
    (action : ResultCache α → β × ResultCache α) : Option (β × ResultCache α) :=
  (c.locks.acquire? key mode).map fun (guard, locks) =>
    let (b, c) := action { c with locks := locks }
    (b, { c with locks := c.locks.release guard })

def find (key : String) (c : ResultCache α) : Option (Except Error α) × ResultCache α :=
  (c.values.lookup key, c)

/-- Computes the result of a key whose exclusive guard is held, unless it has been kept by now. -/
def fill (key : String) (compute : σ → ResultCache α → (Outcome α × σ) × ResultCache α) (s : σ)
    (c : ResultCache α) : (Outcome α × σ) × ResultCache α :=
  match c.values.lookup key with
  | some result => ((.returned result, s), c.count true)
  | none =>
    match compute s c with
    | ((.returned result, s), c) => ((.returned result, s), (c.store key result).count false)
    | (ended, c) => (ended, c)

/-- The kept result of a key, or that of `compute`, which is then kept if it returns one. Besides the
cache a computation may read and change other things, which stand in `s`. -/
def getOrComputeIn (c : ResultCache α) (key : String)
    (compute : σ → ResultCache α → (Outcome α × σ) × ResultCache α) (s : σ) :
    (Outcome α × σ) × ResultCache α :=
  match c.holding key .shared (find key) with
  | none => ((.stuck, s), c)
  | some (some result, c) => ((.returned result, s), c.count true)
  | some (none, c) => (c.holding key .exclusive (fill key compute s)).getD ((.stuck, s), c)

/-- The same for a computation that touches nothing but the cache. -/
def getOrCompute (c : ResultCache α) (key : String)
    (compute : ResultCache α → Outcome α × ResultCache α) : Outcome α × ResultCache α :=
  let ((outcome, _), c) := c.getOrComputeIn key
    (fun _ c => let (outcome, c) := compute c; ((outcome, ()), c)) ()
  (outcome, c)

/-- Whether `getOrCompute` would run a computation. -/
def wouldRun (c : ResultCache α) (key : String) : Bool :=
  (c.values.lookup key).isNone

end ResultCache

end ProtoWorkspace
