import ProtoWorkspace.Error

/-!
# Results of computations that run once

A computation may return a value or an error, or be abandoned half-way. `ResultCell` keeps the first
result that is returned, `LazyResult` in addition owns its computation and runs it at most once.
-/

namespace ProtoWorkspace

/-- How a computation ends. -/
inductive Outcome (α : Type) where
  | returned (result : Except Error α)
  /-- The computation was broken off and returned nothing. -/
  | abandoned
  /-- The computation waits for something that only its own end would bring about. -/
  | stuck

/-- A cell for the result of a computation that is to run once. -/
structure ResultCell (α : Type) where
  result? : Option (Except Error α) := none

namespace ResultCell

variable {α σ : Type}

/-- The kept result, or that of the given computation, which is then kept if it returns one. A computation
may read and change other things, which stand in `s`. -/
def getOrComputeIn (v : ResultCell α) (compute : σ → Outcome α × σ) (s : σ) :
    (Outcome α × σ) × ResultCell α :=
  match v.result? with
  | some result => ((.returned result, s), v)
  | none =>
    match compute s with
    | (.returned result, s) => ((.returned result, s), ⟨some result⟩)
    | ended => (ended, v)

/-- The same for a computation that changes nothing. -/
def getOrCompute (v : ResultCell α) (compute : Outcome α) : Outcome α × ResultCell α :=
  let ((outcome, _), v) := v.getOrComputeIn (fun () => (compute, ())) ()
  (outcome, v)

def wouldRun (v : ResultCell α) : Bool :=
  v.result?.isNone

theorem getOrCompute_of_result {v : ResultCell α} {result : Except Error α}
    (h : v.result? = some result) (compute : Outcome α) :
    v.getOrCompute compute = (.returned result, v) := by
  simp [getOrCompute, getOrComputeIn, h]

end ResultCell

/-- A function without arguments that computes its result at the first call. -/
structure LazyResult (α : Type) where
  /-- The computation, until it is started. -/
  thunk? : Option (Outcome α)
  value : ResultCell α := {}

namespace LazyResult

variable {α : Type}

def ofOutcome (thunk : Outcome α) : LazyResult α :=
  { thunk? := some thunk }

def ready (a : α) : LazyResult α :=
  { thunk? := none, value := ⟨some (.ok a)⟩ }

/-- What a computation that was started and broken off leaves behind. -/
def spent : Error :=
  .internal "once function evaluated twice"

def wouldRun (f : LazyResult α) : Bool :=
  f.value.wouldRun && f.thunk?.isSome

/-- Calls the function. -/
def call (f : LazyResult α) : Outcome α × LazyResult α :=
  if f.value.wouldRun then
    let (outcome, value) := f.value.getOrCompute (f.thunk?.getD (.returned (.error spent)))
    (outcome, { thunk? := none, value := value })
  else (f.value.getOrCompute .abandoned |>.1, f)

end LazyResult

end ProtoWorkspace
