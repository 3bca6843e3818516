import ProtoWorkspace.Hash.Keccak

/-!
# SHAKE256

The extendable-output function of the Keccak sponge with a rate of 136 bytes. Main statement: the
output has the length that was asked for.
-/

namespace ProtoWorkspace.Shake256

open Keccak

/-- How many bytes enter or leave the sponge between two permutations. -/
def rate : Nat := 136

def laneOfBytes (bytes : List UInt8) : UInt64 :=
  bytes.foldr (fun b lane => (lane <<< 8) ||| b.toUInt64) 0

def bytesOfLane (lane : UInt64) : List UInt8 :=
  (List.range 8).map fun i => (lane >>> (8 * UInt64.ofNat i)).toUInt8

/-- The lanes that a block fills, row by row; what lies past its end is zero. -/
def lanesOfBlock (block : List UInt8) : State :=
  let bytes := block.toArray
  let lane (i : Nat) : UInt64 := laneOfBytes (bytes.extract (8 * i) (8 * i + 8)).toList
  let row (i : Nat) : Row := ⟨lane i, lane (i + 1), lane (i + 2), lane (i + 3), lane (i + 4)⟩
  ⟨row 0, row 5, row 10, row 15, row 20⟩

/-- Adds one block of input to the state and permutes. -/
def absorbBlock (s : State) (block : List UInt8) : State :=
  permute (s.add (lanesOfBlock block))

/-- What completes `length` bytes of input to whole blocks: the bits that mark SHAKE, zeros and a
final one. -/
def padding (length : Nat) : List UInt8 :=
  match rate - length % rate with
  | 0 | 1 => [0x9F]
  | n + 2 => 0x1F :: (List.replicate n 0 ++ [0x80])

/-- Absorbs whole blocks; a shorter rest is dropped, which padding rules out. -/
def absorb (s : State) (input : List UInt8) : State :=
  if (input.take rate).length < rate then s
  else absorb (absorbBlock s (input.take rate)) (input.drop rate)
termination_by input.length
decreasing_by simp only [List.length_take, List.length_drop, rate] at *; omega

def outputBlock (s : State) : List UInt8 :=
  (s.toList.flatMap bytesOfLane).take rate

/-- Takes `n` bytes out of the sponge, permuting between blocks. -/
def squeeze (s : State) (n : Nat) : List UInt8 :=
  if n ≤ rate then (outputBlock s).take n
  else outputBlock s ++ squeeze (permute s) (n - rate)
termination_by n
decreasing_by simp only [rate] at *; omega

/-- The first `n` bytes of output for the given input. -/
def hash (n : Nat) (input : List UInt8) : List UInt8 :=
  squeeze (absorb State.zero (input ++ padding input.length)) n

theorem length_outputBlock (s : State) : (outputBlock s).length = rate := by
  have h : ∀ lanes : List UInt64, (lanes.flatMap bytesOfLane).length = 8 * lanes.length := by
    intro lanes
    induction lanes with
    | nil => rfl
    | cons lane lanes ih => simp [ih, bytesOfLane]; omega
  simp [outputBlock, h, rate]

theorem length_squeeze (s : State) (n : Nat) : (squeeze s n).length = n := by
  fun_induction squeeze s n with
  | case1 s n h => simp [length_outputBlock, h]
  | case2 s n h ih =>
    simp only [List.length_append, length_outputBlock, ih]
    omega

theorem length_hash (n : Nat) (input : List UInt8) : (hash n input).length = n :=
  length_squeeze _ n

end ProtoWorkspace.Shake256
