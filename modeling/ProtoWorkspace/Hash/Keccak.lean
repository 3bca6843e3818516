/-!
# The Keccak permutation on 1600 bits

The state is a square of five rows of five lanes of 64 bits. A round mixes columns, moves and
rotates lanes, combines rows and adds a constant. Each step is written row by row, so that a state
is five short records of machine words. Main statement: moving takes the lane in column `x` of row
`y` from column `x + 3 * y` of row `x`.
-/

namespace ProtoWorkspace.Keccak

/-- A row of five lanes of 64 bits, one in each column. -/
structure Row where
  c0 : UInt64
  c1 : UInt64
  c2 : UInt64
  c3 : UInt64
  c4 : UInt64

/-- Five rows of lanes. -/
structure State where
  r0 : Row
  r1 : Row
  r2 : Row
  r3 : Row
  r4 : Row

def Row.zero : Row := ⟨0, 0, 0, 0, 0⟩

def Row.lane (r : Row) : Fin 5 → UInt64
  | 0 => r.c0
  | 1 => r.c1
  | 2 => r.c2
  | 3 => r.c3
  | 4 => r.c4

def Row.toList (r : Row) : List UInt64 :=
  [r.c0, r.c1, r.c2, r.c3, r.c4]

def Row.add (r s : Row) : Row :=
  ⟨r.c0 ^^^ s.c0, r.c1 ^^^ s.c1, r.c2 ^^^ s.c2, r.c3 ^^^ s.c3, r.c4 ^^^ s.c4⟩

def State.zero : State := ⟨.zero, .zero, .zero, .zero, .zero⟩

def State.row (s : State) : Fin 5 → Row
  | 0 => s.r0
  | 1 => s.r1
  | 2 => s.r2
  | 3 => s.r3
  | 4 => s.r4

/-- The lane in column `x` and row `y`. -/
def State.lane (s : State) (x y : Fin 5) : UInt64 :=
  (s.row y).lane x

def State.toList (s : State) : List UInt64 :=
  s.r0.toList ++ s.r1.toList ++ s.r2.toList ++ s.r3.toList ++ s.r4.toList

def State.add (s t : State) : State :=
  ⟨s.r0.add t.r0, s.r1.add t.r1, s.r2.add t.r2, s.r3.add t.r3, s.r4.add t.r4⟩

@[inline] def rotateLeft (w : UInt64) (n : UInt64) : UInt64 :=
  (w <<< n) ||| (w >>> (64 - n))

def offsets : State where
  r0 := ⟨0, 1, 62, 28, 27⟩
  r1 := ⟨36, 44, 6, 55, 20⟩
  r2 := ⟨3, 10, 43, 25, 39⟩
  r3 := ⟨41, 45, 15, 21, 8⟩
  r4 := ⟨18, 2, 61, 56, 14⟩

def roundConstants : List UInt64 :=
  [0x0000000000000001, 0x0000000000008082, 0x800000000000808A, 0x8000000080008000,
   0x000000000000808B, 0x0000000080000001, 0x8000000080008081, 0x8000000000008009,
   0x000000000000008A, 0x0000000000000088, 0x0000000080008009, 0x000000008000000A,
   0x000000008000808B, 0x800000000000008B, 0x8000000000008089, 0x8000000000008003,
   0x8000000000008002, 0x8000000000000080, 0x000000000000800A, 0x800000008000000A,
   0x8000000080008081, 0x8000000000008080, 0x0000000080000001, 0x8000000080008008]

def State.parity (s : State) : Row :=
  (((s.r0.add s.r1).add s.r2).add s.r3).add s.r4

/-- In each column the lane of the column before it and, rotated, that of the one behind. -/
def Row.neighbours (p : Row) : Row where
  c0 := p.c4 ^^^ rotateLeft p.c1 1
  c1 := p.c0 ^^^ rotateLeft p.c2 1
  c2 := p.c1 ^^^ rotateLeft p.c3 1
  c3 := p.c2 ^^^ rotateLeft p.c4 1
  c4 := p.c3 ^^^ rotateLeft p.c0 1

/-- Adds to every lane the parities of the neighbouring columns. -/
def mixColumns (s : State) : State :=
  let mixed := s.parity.neighbours
  s.add ⟨mixed, mixed, mixed, mixed, mixed⟩

/-- Rotates every lane and moves that in column `x + 3 * y` and row `x` to column `x`, row `y`. -/
def moveLanes (s : State) : State where
  r0 := ⟨rotateLeft s.r0.c0 0, rotateLeft s.r1.c1 44, rotateLeft s.r2.c2 43, rotateLeft s.r3.c3 21,
    rotateLeft s.r4.c4 14⟩
  r1 := ⟨rotateLeft s.r0.c3 28, rotateLeft s.r1.c4 20, rotateLeft s.r2.c0 3, rotateLeft s.r3.c1 45,
    rotateLeft s.r4.c2 61⟩
  r2 := ⟨rotateLeft s.r0.c1 1, rotateLeft s.r1.c2 6, rotateLeft s.r2.c3 25, rotateLeft s.r3.c4 8,
    rotateLeft s.r4.c0 18⟩
  r3 := ⟨rotateLeft s.r0.c4 27, rotateLeft s.r1.c0 36, rotateLeft s.r2.c1 10, rotateLeft s.r3.c2 15,
    rotateLeft s.r4.c3 56⟩
  r4 := ⟨rotateLeft s.r0.c2 62, rotateLeft s.r1.c3 55, rotateLeft s.r2.c4 39, rotateLeft s.r3.c0 41,
    rotateLeft s.r4.c1 2⟩

/-- Combines each lane with the next two of its row. -/
def Row.combine (r : Row) : Row where
  c0 := r.c0 ^^^ (~~~ r.c1 &&& r.c2)
  c1 := r.c1 ^^^ (~~~ r.c2 &&& r.c3)
  c2 := r.c2 ^^^ (~~~ r.c3 &&& r.c4)
  c3 := r.c3 ^^^ (~~~ r.c4 &&& r.c0)
  c4 := r.c4 ^^^ (~~~ r.c0 &&& r.c1)

def combineRows (s : State) : State :=
  ⟨s.r0.combine, s.r1.combine, s.r2.combine, s.r3.combine, s.r4.combine⟩

def addConstant (s : State) (c : UInt64) : State :=
  { s with r0.c0 := s.r0.c0 ^^^ c }

/-- One round. -/
def round (s : State) (c : UInt64) : State :=
  addConstant (combineRows (moveLanes (mixColumns s))) c

def permute (s : State) : State :=
  roundConstants.foldl round s

@[simp] theorem State.length_toList (s : State) : s.toList.length = 25 := rfl

/-- The lane in column `x + 3 * y` and row `x` moves to column `x` and row `y`. -/
theorem lane_moveLanes (s : State) (x y : Fin 5) :
    (moveLanes s).lane x y = rotateLeft (s.lane (x + 3 * y) x) (offsets.lane (x + 3 * y) x) :=
  match x with
  | 0 | 1 | 2 | 3 | 4 => match y with | 0 | 1 | 2 | 3 | 4 => rfl

end ProtoWorkspace.Keccak
