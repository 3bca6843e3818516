/-!
# TOML dates and times

A date-time has a date, a time or both, and an offset from universal time only with both. Its text
is that of RFC 3339 with a `T` between date and time.
-/

namespace ProtoWorkspace.Toml

/-- A calendar date. -/
structure Date where
  year : Nat
  month : Nat
  day : Nat
  deriving DecidableEq

/-- A time of day, to the nanosecond. -/
structure Time where
  hour : Nat
  minute : Nat
  second : Nat
  nanosecond : Nat
  deriving DecidableEq

/-- The offset from universal time: none at all, or minutes to the east. -/
inductive Offset where
  | universal
  | minutes (east : Int)
  deriving DecidableEq

/-- A date, a time of day, or a date with a time and perhaps an offset. -/
inductive DateTime where
  | date (d : Date)
  | time (t : Time)
  | dateTime (d : Date) (t : Time) (offset : Option Offset)
  deriving DecidableEq

def padded (width n : Nat) : String :=
  let digits := toString n
  String.ofList (List.replicate (width - digits.length) '0') ++ digits

def Date.text (d : Date) : String :=
  padded 4 d.year ++ "-" ++ padded 2 d.month ++ "-" ++ padded 2 d.day

/-- Hour, minute and second, and as many digits of the fraction as it has. -/
def Time.text (t : Time) : String :=
  let fraction :=
    if t.nanosecond = 0 then ""
    else
      "." ++ String.ofList
        (((padded 9 t.nanosecond).toList.reverse.dropWhile (· == '0')).reverse)
  padded 2 t.hour ++ ":" ++ padded 2 t.minute ++ ":" ++ padded 2 t.second ++ fraction

/-- `Z`, or sign, hours and minutes. -/
def Offset.text : Offset → String
  | .universal => "Z"
  | .minutes east =>
    (if east < 0 then "-" else "+") ++ padded 2 (east.natAbs / 60) ++ ":" ++
      padded 2 (east.natAbs % 60)

def DateTime.text : DateTime → String
  | .date d => d.text
  | .time t => t.text
  | .dateTime d t offset => d.text ++ "T" ++ t.text ++ (offset.map Offset.text).getD ""

/-- The key under which a date-time appears where it is taken for a table. -/
def DateTime.key : String := "$__toml_private_datetime"

def daysInMonth (year month : Nat) : Nat :=
  if month = 2 then
    if year % 4 = 0 ∧ (year % 100 ≠ 0 ∨ year % 400 = 0) then 29 else 28
  else if month = 4 ∨ month = 6 ∨ month = 9 ∨ month = 11 then 30
  else 31

end ProtoWorkspace.Toml
