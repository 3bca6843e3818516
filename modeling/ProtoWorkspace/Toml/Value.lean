import ProtoWorkspace.Decimal.Shortest
import ProtoWorkspace.Text.Quoted
import ProtoWorkspace.Toml.DateTime

/-!
# TOML values

The values of a document. A table keeps its entries in the order in which they were first written.
-/

namespace ProtoWorkspace.Toml

/-- A value of a document. -/
inductive Value where
  | string (s : String)
  | integer (i : Int)
  | float (x : Float)
  | boolean (b : Bool)
  | dateTime (d : DateTime)
  | array (elements : List Value)
  | table (entries : List (String × Value))

abbrev Table := List (String × Value)

def isNaN (x : Float) : Bool :=
  x != x

/-- The text of a number that is not NaN: all digits of its shortest decimal around a point, with
at least one digit behind it. -/
def numberText (x : Float) : String :=
  let bits := x.toBits
  let sign := if bits.toNat / Nat.pow 2 63 = 1 then "-" else ""
  let magnitude := UInt64.ofNat (bits.toNat % Nat.pow 2 63)
  if magnitude.toNat = 2047 * Nat.pow 2 52 then sign ++ "inf"
  else if magnitude = 0 then sign ++ "0.0"
  else
    let decimal := Decimal.shortest (Decimal.Binary.ofBits magnitude)
    sign ++ decimal.positional ++ if decimal.isWhole then ".0" else ""

end ProtoWorkspace.Toml
