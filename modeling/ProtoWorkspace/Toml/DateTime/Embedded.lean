import ProtoWorkspace.Toml.Scalar

/-!
# Date-times that stand as tables

A table whose first key is that of date-times stands for a date-time: the value of that key must be
its text, and what follows is passed over.
-/

namespace ProtoWorkspace.Toml

def DateTime.ofText? (s : String) : Option DateTime :=
  match Toml.dateTime s.toList with
  | some (d, []) => some d
  | _ => none

def standsForDateTime : Table → Bool
  | (key, _) :: _ => key == DateTime.key
  | [] => false

/-- The date-time that a table stands for, if its first value is the text of one. -/
def embeddedIn? : Table → Option DateTime
  | (_, .string s) :: _ => DateTime.ofText? s
  | _ => none

mutual

/-- A value with date-times in place of the tables that stand for them. -/
def Value.resolve? : Value → Option Value
  | .array elements => (resolveElements? elements).map .array
  | .table entries =>
    if standsForDateTime entries then (embeddedIn? entries).map .dateTime
    else (resolveEntries? entries).map .table
  | v => some v

def resolveElements? : List Value → Option (List Value)
  | [] => some []
  | v :: rest => do
    let v ← v.resolve?
    let rest ← resolveElements? rest
    some (v :: rest)

/-- The entries of a table, each value resolved. Of a document the outermost table stands for
itself. -/
def resolveEntries? : List (String × Value) → Option (List (String × Value))
  | [] => some []
  | (key, v) :: rest => do
    let v ← v.resolve?
    let rest ← resolveEntries? rest
    some ((key, v) :: rest)

end

end ProtoWorkspace.Toml
