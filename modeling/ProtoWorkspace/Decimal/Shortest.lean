/-!
# Shortest decimals

The shortest decimal of a finite floating-point number has the fewest digits among those that read
back as that number, and of these it is the nearest, the upper one of two that are equally near. It
is found in exact arithmetic: a number is `mantissa * 2 ^ exponent`, the numbers that round to it
form an interval around it, and for one digit, two digits and so on the two neighbours of the number
on the grid of that many digits are tried until one lies in the interval.
-/

namespace ProtoWorkspace.Decimal

/-- A positive binary number `mantissa * 2 ^ exponent`. `narrowBelow` holds when its lower neighbour
is only half as far away as its upper one. -/
structure Binary where
  mantissa : Nat
  exponent : Int
  narrowBelow : Bool

/-- A decimal number: a row of digits without leading zeros, times a power of ten. -/
structure Expansion where
  digits : List Nat
  exponent : Int

/-- The parts of a finite, nonzero floating-point number without its sign. -/
def Binary.ofBits (bits : UInt64) : Binary :=
  let fraction : Nat := bits.toNat % Nat.pow 2 52
  let field : Nat := bits.toNat / Nat.pow 2 52 % Nat.pow 2 11
  if field = 0 then ⟨fraction, -1074, false⟩
  else ⟨Nat.pow 2 52 + fraction, (field : Int) - 1075, fraction = 0 && field > 1⟩

/-- A positive fraction. -/
structure Ratio where
  num : Nat
  den : Nat

def Ratio.scaled (n : Nat) (e : Int) : Ratio :=
  if e ≥ 0 then ⟨n * Nat.pow 2 e.toNat, 1⟩ else ⟨n, Nat.pow 2 (-e).toNat⟩

def Ratio.perPowerOfTen (r : Ratio) (p : Int) : Ratio :=
  if p ≥ 0 then ⟨r.num, r.den * Nat.pow 10 p.toNat⟩ else ⟨r.num * Nat.pow 10 (-p).toNat, r.den⟩

/-- Whether `r ≤ n`, or `r < n` where the border is left out. -/
def Ratio.isBelow (r : Ratio) (n : Nat) (inclusive : Bool) : Bool :=
  r.num < n * r.den || (inclusive && r.num == n * r.den)

/-- Whether `n ≤ r`, or `n < r` where the border is left out. -/
def Ratio.isAbove (r : Ratio) (n : Nat) (inclusive : Bool) : Bool :=
  n * r.den < r.num || (inclusive && r.num == n * r.den)

def digitsOf (n : Nat) : List Nat :=
  (Nat.toDigits 10 n).map fun c => c.toNat - 48

/-- The number of digits before the point of a fraction; for a fraction below one, less the zeros
behind the point. At most `fuel` such zeros are counted. -/
def magnitude (r : Ratio) (fuel : Nat) : Int :=
  if r.num ≥ r.den then ((digitsOf (r.num / r.den)).length : Int)
  else
    match fuel with
    | 0 => 0
    | fuel + 1 =>
      if r.num * 10 ≥ r.den then 0
      else magnitude ⟨r.num * 10, r.den⟩ fuel - 1

/-- The decimal `n * 10 ^ p` without the zeros at its end. -/
def Expansion.trimmed (n : Nat) (p : Int) : Expansion :=
  let zeros := (digitsOf n).reverse.takeWhile (· == 0)
  ⟨(digitsOf n).take ((digitsOf n).length - zeros.length), p + zeros.length⟩

/-- The grid point nearest to the number among its two neighbours on the grid of step `10 ^ p` that
round to the number, if any; halfway between them it is the upper one. -/
def onGrid (b : Binary) (p : Int) : Option Nat :=
  let scaled (n : Nat) : Ratio := (Ratio.scaled n (b.exponent - 2)).perPowerOfTen p
  let value := scaled (4 * b.mantissa)
  let low := scaled (4 * b.mantissa - if b.narrowBelow then 1 else 2)
  let high := scaled (4 * b.mantissa + 2)
  let closed := b.mantissa % 2 == 0
  let floor := value.num / value.den
  let fits (n : Nat) : Bool := low.isBelow n closed && high.isAbove n closed
  match fits floor, fits (floor + 1) with
  | false, false => none
  | true, false => some floor
  | false, true => some (floor + 1)
  | true, true =>
    if 2 * (value.num - floor * value.den) < value.den then some floor else some (floor + 1)

/-- Tries the grids of `count`, `count + 1`, … digits. -/
def search (b : Binary) (magnitude : Int) (count : Nat) : Nat → Expansion
  | 0 => ⟨[], 0⟩
  | fuel + 1 =>
    let p := magnitude - count
    match onGrid b p with
    | some n => .trimmed n p
    | none => search b magnitude (count + 1) fuel

/-- The shortest decimal that reads back as the given number: seventeen digits always do. -/
def shortest (b : Binary) : Expansion :=
  search b (magnitude (Ratio.scaled b.mantissa b.exponent) 330) 1 17

/-- The decimal with all its digits around a point, never with an exponent; a whole number has no
point. -/
def Expansion.positional (d : Expansion) : String :=
  let digits := d.digits.map fun n => Nat.digitChar n
  if d.exponent ≥ 0 then String.ofList (digits ++ List.replicate d.exponent.toNat '0')
  else
    let places := (-d.exponent).toNat
    let padded := List.replicate (places + 1 - digits.length) '0' ++ digits
    let whole := padded.length - places
    String.ofList (padded.take whole ++ '.' :: padded.drop whole)

def Expansion.isWhole (d : Expansion) : Bool :=
  d.exponent ≥ 0

end ProtoWorkspace.Decimal
