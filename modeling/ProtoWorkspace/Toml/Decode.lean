import ProtoWorkspace.Digest
import ProtoWorkspace.FullName
import ProtoWorkspace.Toml.Value

/-!
# Decoding TOML values

A document that is valid TOML may still not fit the record it should hold. The faults name what was
found and what was wanted. A record is given by named fields or, as an array, by their positions.
-/

namespace ProtoWorkspace.Toml

/-- What was found where something else was wanted. -/
inductive Shape where
  | integer (i : Int)
  | float (x : Float)
  | boolean (b : Bool)
  | string (s : String)
  | sequence
  | map

def Shape.text : Shape → String
  | .integer i => "integer " ++ Text.cited (toString i)
  | .float x => "floating point " ++ Text.cited (if isNaN x then "NaN" else numberText x)
  | .boolean b => "boolean " ++ Text.cited (toString b)
  | .string s => "string " ++ Text.quoted s
  | .sequence => "sequence"
  | .map => "map"

/-- What was wanted. -/
inductive Wanted where
  | string
  | path
  | sequence
  | record (name : String)
  | recordOf (name : String) (fields : Nat)
  | fewerElements
  deriving DecidableEq

def Wanted.text : Wanted → String
  | .string => "a string"
  | .path => "path string"
  | .sequence => "a sequence"
  | .record name => "struct " ++ name
  | .recordOf name fields => "struct " ++ name ++ " with " ++ toString fields ++ " elements"
  | .fewerElements => "fewer elements in array"

/-- Why a value does not fit. -/
inductive Fault where
  | wrongType (found : Shape) (wanted : Wanted)
  | wrongLength (length : Nat) (wanted : Wanted)
  | missingField (field : String)
  | badName (fault : FullName.Fault)
  | badDigest (fault : Digest.Fault)

def Fault.message : Fault → String
  | .wrongType found wanted => "invalid type: " ++ found.text ++ ", expected " ++ wanted.text
  | .wrongLength length wanted =>
    "invalid length " ++ toString length ++ ", expected " ++ wanted.text
  | .missingField field => "missing field " ++ Text.cited field
  | .badName fault => fault.message
  | .badDigest fault => fault.message

/-- What a date-time is taken for where none is wanted. -/
inductive DateTimeReading where
  /-- A table with its text under a key of its own. -/
  | table
  /-- Its text. -/
  | string
  deriving DecidableEq

/-- A value with a date-time taken for a table or a string. -/
def Value.plain (reading : DateTimeReading) : Value → Value
  | .dateTime d =>
    match reading with
    | .table => .table [(DateTime.key, .string d.text)]
    | .string => .string d.text
  | v => v

def Value.shape : Value → Shape
  | .string s => .string s
  | .integer i => .integer i
  | .float x => .float x
  | .boolean b => .boolean b
  | .dateTime _ => .map
  | .array _ => .sequence
  | .table _ => .map

def Value.unwanted {α : Type} (v : Value) (wanted : Wanted) : Except Fault α :=
  .error (.wrongType v.shape wanted)

def Value.toText (reading : DateTimeReading) (wanted : Wanted) (v : Value) :
    Except Fault String :=
  match v.plain reading with
  | .string s => .ok s
  | v => v.unwanted wanted

/-- Decodes an array whose elements are decoded by `element`; the first fault counts. -/
def Value.toElements {α : Type} (reading : DateTimeReading) (element : Value → Except Fault α)
    (v : Value) : Except Fault (List α) :=
  match v.plain reading with
  | .array vs => vs.mapM element
  | v => v.unwanted .sequence

def Value.toFullName (reading : DateTimeReading) (v : Value) : Except Fault FullName := do
  let s ← v.toText reading .string
  (FullName.parse s).mapError .badName

theorem Value.toFullName_text (reading : DateTimeReading) (n : FullName) :
    (string n.text).toFullName reading = .ok n := by
  change (FullName.parse n.text).mapError Fault.badName = .ok n
  rw [FullName.parse_text]
  rfl

def Value.toDigest (reading : DateTimeReading) (v : Value) : Except Fault Digest := do
  let s ← v.toText reading .string
  (Digest.parse s).mapError .badDigest

/-- How the fields of a record are given. -/
inductive Fields where
  | named (entries : Table)
  | positional (values : List Value)

def Value.toFields (reading : DateTimeReading) (record : String) (v : Value) :
    Except Fault Fields :=
  match v.plain reading with
  | .table entries => .ok (.named entries)
  | .array values => .ok (.positional values)
  | v => v.unwanted (.record record)

end ProtoWorkspace.Toml
