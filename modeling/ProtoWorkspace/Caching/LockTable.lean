/-!
# Locks by key

A table of reader-writer locks, one for each key in use. The lock of a key is made when the key is
first asked for and dropped from the table with its last guard. Only acquisitions that can be
granted at once are described: others would wait.
-/

namespace ProtoWorkspace

/-- Whether a guard shares its key with other guards. -/
inductive LockMode where
  | shared
  | exclusive
  deriving DecidableEq

/-- A guard: it holds the lock of a key. -/
structure Guard where
  /-- Tells guards apart. -/
  id : Nat
  key : String
  /-- The lock that it holds. -/
  lock : Nat
  mode : LockMode
  deriving DecidableEq

/-- Whether a guard keeps others of the given mode out. -/
def Guard.excludes (g : Guard) (mode : LockMode) : Bool :=
  g.mode == .exclusive || mode == .exclusive

/-- Locks by key, and the guards that are out. -/
structure LockTable where
  /-- The locks in use, with their keys. -/
  table : List (String × Nat) := []
  guards : List Guard := []
  /-- How many locks have been made. -/
  made : Nat := 0
  /-- How many guards have been given out. -/
  given : Nat := 0

namespace LockTable

def size (t : LockTable) : Nat :=
  t.table.length

def isEmpty (t : LockTable) : Bool :=
  t.table.isEmpty

def lockFor (t : LockTable) (key : String) : Nat × LockTable :=
  match t.table.lookup key with
  | some lock => (lock, t)
  | none => (t.made, { t with table := (key, t.made) :: t.table, made := t.made + 1 })

def isFree (t : LockTable) (lock : Nat) (mode : LockMode) : Bool :=
  t.guards.all fun g => g.lock != lock || !g.excludes mode

/-- Takes a guard, unless that would have to wait. -/
def acquire? (t : LockTable) (key : String) (mode : LockMode) : Option (Guard × LockTable) :=
  let (lock, t) := t.lockFor key
  if t.isFree lock mode then
    let guard := { id := t.given, key := key, lock := lock, mode := mode }
    some (guard, { t with guards := guard :: t.guards, given := t.given + 1 })
  else none

/-- Gives a guard back. The lock of its key goes from the table unless another guard holds it. -/
def release (t : LockTable) (guard : Guard) : LockTable :=
  let guards := t.guards.filter (·.id != guard.id)
  let isHeld := (t.table.lookup guard.key).any fun lock => guards.any (·.lock == lock)
  { t with
    guards := guards
    table := if isHeld then t.table else t.table.filter (·.1 != guard.key) }

end LockTable

end ProtoWorkspace
