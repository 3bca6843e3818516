import Mathlib.Tactic
import ProtoWorkspace.Caching.ResultCell

/-!
# The first result stands

A cell keeps what the first computation returns that returns anything, and later ones do not run. A function
that computes its result at the first call has given its computation away by then, so if that was broken off
nothing but an error is left.
-/

namespace ProtoWorkspace

variable {α : Type}

/-- What a computation returns, if it returns. -/
def Outcome.result? : Outcome α → Option (Except Error α)
  | .returned result => some result
  | _ => none

/-! ## Cells -/

namespace ResultCell

variable {σ : Type} {v : ResultCell α} {s : σ}

/-- Asks a cell with computations, one after another. -/
def askedWith : List (σ → Outcome α × σ) → σ → ResultCell α → σ × ResultCell α
  | [], s, v => (s, v)
  | compute :: computations, s, v =>
    let ((_, s), v) := v.getOrComputeIn compute s
    askedWith computations s v

/-- Runs computations up to the first that returns something, for what this returns. -/
def untilReturn : List (σ → Outcome α × σ) → σ → Option (Except Error α) × σ
  | [], s => (none, s)
  | compute :: computations, s =>
    match compute s with
    | (.returned result, s) => (some result, s)
    | (_, s) => untilReturn computations s

/-- A cell that has a result runs nothing. -/
theorem getOrComputeIn_of_result {result : Except Error α} (h : v.result? = some result)
    (compute : σ → Outcome α × σ) (s : σ) :
    v.getOrComputeIn compute s = ((.returned result, s), v) := by
  simp [getOrComputeIn, h]

theorem getOrComputeIn_of_empty (compute : σ → Outcome α × σ) (s : σ) :
    ({} : ResultCell α).getOrComputeIn compute s = (compute s, ⟨(compute s).1.result?⟩) := by
  simp only [getOrComputeIn]
  obtain ⟨outcome, s'⟩ := compute s
  cases outcome <;> rfl

theorem askedWith_of_result {result : Except Error α} (h : v.result? = some result)
    (computations : List (σ → Outcome α × σ)) (s : σ) : askedWith computations s v = (s, v) := by
  induction computations with
  | nil => rfl
  | cons compute computations ih =>
    rw [askedWith, getOrComputeIn_of_result h]
    exact ih

/-- A new cell keeps the result of the first computation that returns one, and the later ones do not run. -/
theorem askedWith_empty (computations : List (σ → Outcome α × σ)) (s : σ) :
    askedWith computations s {} = ((untilReturn computations s).2, ⟨(untilReturn computations s).1⟩) := by
  induction computations generalizing s with
  | nil => rfl
  | cons compute computations ih =>
    rw [askedWith, getOrComputeIn_of_empty, untilReturn]
    obtain ⟨outcome, s'⟩ := compute s
    cases outcome with
    | returned result => exact askedWith_of_result rfl _ _
    | abandoned => exact ih s'
    | stuck => exact ih s'

end ResultCell

/-! ## Functions that run once -/

namespace LazyResult

variable {f : LazyResult α} {result : Except Error α}

/-- Whether the computation of a function returns something, or returned it when it ran. -/
def Returns (f : LazyResult α) (result : Except Error α) : Prop :=
  f.value.result? = some result ∨ f.value.result? = none ∧ f.thunk? = some (.returned result)

theorem Returns.call (h : f.Returns result) :
    f.call.1 = .returned result ∧ f.call.2.Returns result := by
  rcases h with kept | ⟨none, thunk⟩
  · have done : f.value.wouldRun = false := by simp [ResultCell.wouldRun, kept]
    simp [LazyResult.call, done, ResultCell.getOrCompute_of_result kept, Returns, kept]
  · have runs : f.value.wouldRun = true := by simp [ResultCell.wouldRun, none]
    simp [LazyResult.call, runs, thunk, ResultCell.getOrCompute, ResultCell.getOrComputeIn, none, Returns]

/-- A function whose computation returns something gives it at every call. -/
theorem Returns.call_iterate (h : f.Returns result) (calls : Nat) :
    ((fun f => f.call.2)^[calls] f).call.1 = .returned result := by
  induction calls generalizing f with
  | zero => exact h.call.1
  | succ calls ih =>
    rw [Function.iterate_succ_apply]
    exact ih h.call.2

/-- A function that has been called a number of times. -/
def called (f : LazyResult α) (calls : ℕ) : LazyResult α :=
  (fun f => f.call.2)^[calls] f

theorem called_succ (f : LazyResult α) (calls : ℕ) : f.called (calls + 1) = f.call.2.called calls :=
  Function.iterate_succ_apply _ _ _

/-- A computation that is gone stays gone. -/
theorem thunk?_called (h : f.thunk? = none) (calls : ℕ) : (f.called calls).thunk? = none := by
  induction calls generalizing f with
  | zero => exact h
  | succ calls ih =>
    rw [called_succ]
    apply ih
    unfold call
    split
    · rfl
    · exact h

theorem wouldRun_of_thunk? (h : f.thunk? = none) : f.wouldRun = false := by
  simp [wouldRun, h]

theorem call_ofOutcome (thunk : Outcome α) :
    (ofOutcome thunk).call = (thunk, ⟨none, ⟨thunk.result?⟩⟩) := by
  cases thunk <;> rfl

/-- Without its computation and without a result a function has only an error to give, from then on. -/
theorem call_of_spent (calls : ℕ) :
    ((⟨none, {}⟩ : LazyResult α).called calls).call.1 = .returned (.error spent) := by
  cases calls with
  | zero => rfl
  | succ calls =>
    rw [called_succ]
    exact Returns.call_iterate (.inl rfl) calls

end LazyResult

/-- A new cell that is asked with any computations runs them up to the first that returns something, keeps
what that one returns, and is empty as long as none does. A further computation runs if none has returned,
and otherwise the call gives what the first returned and changes nothing. A function runs its computation at
the first call and never again, as the computation is gone then. It gives at every call what the computation
returns. If this is broken off, so is the first call, and every later call returns the error that the
function would have to run twice. A function that was made with its value gives it at every call and runs
nothing. -/
theorem ResultCell.first_result_stands :
    (∀ (σ : Type) (computations : List (σ → Outcome α × σ)) (compute : σ → Outcome α × σ) (start : σ),
      let (s, v) := askedWith computations start {}
      v.result? = (untilReturn computations start).1 ∧ s = (untilReturn computations start).2 ∧
        (v.getOrComputeIn compute s).1 =
          match (untilReturn computations start).1 with
          | none => compute s
          | some result => (.returned result, s)) ∧
    (∀ (thunk : Outcome α) (calls : ℕ),
      (((LazyResult.ofOutcome thunk).called calls).wouldRun = true ↔ calls = 0) ∧
      ((LazyResult.ofOutcome thunk).called (calls + 1)).thunk? = none) ∧
    (∀ (result : Except Error α) (calls : ℕ),
      ((LazyResult.ofOutcome (.returned result)).called calls).call.1 = .returned result) ∧
    ((LazyResult.ofOutcome (.abandoned : Outcome α)).call.1 = .abandoned ∧
      ∀ calls, ((LazyResult.ofOutcome (.abandoned : Outcome α)).called (calls + 1)).call.1 =
        .returned (.error (.internal "once function evaluated twice"))) ∧
    ∀ (a : α) (calls : ℕ), ((LazyResult.ready a).called calls).call.1 = .returned (.ok a) ∧
      ((LazyResult.ready a).called calls).wouldRun = false := by
  have gone (thunk : Outcome α) (calls : ℕ) :
      ((LazyResult.ofOutcome thunk).called (calls + 1)).thunk? = none := by
    rw [LazyResult.called_succ, LazyResult.call_ofOutcome]
    exact LazyResult.thunk?_called rfl calls
  refine ⟨fun σ computations compute start => ?_, fun thunk calls => ⟨?_, gone thunk calls⟩, ?_,
    ⟨rfl, ?_⟩, ?_⟩
  · rw [askedWith_empty]
    refine ⟨rfl, rfl, ?_⟩
    cases h : (untilReturn computations start).1 with
    | none => rw [getOrComputeIn_of_empty]
    | some result => rw [getOrComputeIn_of_result rfl]
  · cases calls with
    | zero => exact iff_of_true rfl rfl
    | succ calls => simp [LazyResult.wouldRun_of_thunk? (gone thunk calls)]
  · exact fun result calls => LazyResult.Returns.call_iterate (.inr ⟨rfl, rfl⟩) calls
  · intro calls
    rw [LazyResult.called_succ, LazyResult.call_ofOutcome]
    exact LazyResult.call_of_spent calls
  · exact fun a calls => ⟨LazyResult.Returns.call_iterate (.inl rfl) calls,
      LazyResult.wouldRun_of_thunk? (LazyResult.thunk?_called rfl calls)⟩

end ProtoWorkspace
