import ProtoWorkspace.Toml.Value

/-!
# Assembling TOML tables

A document is a row of statements: entries with dotted keys, and headers that open a table or append
one to an array of tables. They are gathered into one tree. A table remembers how it came about,
since that decides what may still be added to it: a header opens each table once, and dotted keys
extend only tables that no header opened.
-/

namespace ProtoWorkspace.Toml

/-- An entry with the parts of its key. -/
structure Entry where
  path : List String
  value : Value

/-- A header with the parts of its key. -/
inductive Header where
  | table (path : List String)
  | element (path : List String)

/-- A header and the entries below it. -/
structure Section where
  header : Header
  entries : List Entry

/-- How a table came about. -/
inductive Origin where
  /-- By a header of its own, as the document itself, or as an element of an array of tables. -/
  | header
  /-- On the way to the table of a longer header. -/
  | passage
  /-- By a dotted key. -/
  | dottedKey
  deriving DecidableEq

/-- A part of a document under construction. -/
inductive Node where
  | value (v : Value)
  | table (origin : Origin) (entries : List (String × Node))
  /-- An array of tables, the last one in front. -/
  | elements (tables : List (List (String × Node)))

abbrev Nodes := List (String × Node)

def Nodes.find? (nodes : Nodes) (key : String) : Option Node :=
  nodes.lookup key

/-- Puts another node in the place of the one under a key. -/
def Nodes.replace (nodes : Nodes) (key : String) (node : Node) : Nodes :=
  nodes.map fun (k, n) => if k = key then (k, node) else (k, n)

def Nodes.erase (nodes : Nodes) (key : String) : Nodes :=
  nodes.filter fun (k, _) => k ≠ key

/-- Changes the table at the end of a path by `f`, which also learns how that table came about.
Missing tables on the way come about as `created`. A way leads through the last element of an array
of tables; it leads through no other value, and a dotted key not through a table with a header. -/
def changeAt (created : Origin) (f : Origin → Nodes → Option Nodes) (here : Origin) :
    List String → Nodes → Option Nodes
  | [], nodes => f here nodes
  | key :: path, nodes =>
    match nodes.find? key with
    | none =>
      (changeAt created f created path []).map fun inner =>
        nodes ++ [(key, .table created inner)]
    | some (.table origin inner) =>
      if created = .dottedKey ∧ origin = .header then none
      else
        (changeAt created f origin path inner).map fun inner =>
          nodes.replace key (.table origin inner)
    | some (.elements (last :: earlier)) =>
      (changeAt created f .header path last).map fun last =>
        nodes.replace key (.elements (last :: earlier))
    | some _ => none

/-- Adds an entry to a table. The key must be new, and a dotted key must end in a table that dotted
keys made. -/
def addEntry (nodes : Nodes) (entry : Entry) : Option Nodes :=
  match entry.path.getLast? with
  | none => none
  | some key =>
    let way := entry.path.dropLast
    changeAt .dottedKey (fun origin inner =>
      if (origin = .dottedKey) = (way = []) then none
      else if (inner.find? key).isSome then none
      else some (inner ++ [(key, .value entry.value)])) .header way nodes

def ofEntries (start : Nodes) (entries : List Entry) : Option Nodes :=
  entries.foldlM addEntry start

/-- Adds a section to a document. A table header opens a new table, or one that so far was only
passed through; the table then stands behind its siblings. -/
def addSection (nodes : Nodes) (part : Section) : Option Nodes :=
  match part.header with
  | .table path =>
    match path.getLast? with
    | none => none
    | some key =>
      changeAt .passage (fun _ siblings => do
        let start ←
          match siblings.find? key with
          | none => some []
          | some (.table .passage inner) => some inner
          | some _ => none
        let inner ← ofEntries start part.entries
        some (siblings.erase key ++ [(key, .table .header inner)])) .header path.dropLast nodes
  | .element path =>
    match path.getLast? with
    | none => none
    | some key =>
      changeAt .passage (fun _ siblings => do
        let inner ← ofEntries [] part.entries
        match siblings.find? key with
        | none => some (siblings ++ [(key, .elements [inner])])
        | some (.elements tables) => some (siblings.replace key (.elements (inner :: tables)))
        | some _ => none) .header path.dropLast nodes

mutual

def Node.toValue : Node → Value
  | .value v => v
  | .table _ entries => .table (valuesOfNodes entries)
  | .elements tables => .array (valuesOfTables tables).reverse

def valuesOfNodes : List (String × Node) → List (String × Value)
  | [] => []
  | (key, node) :: rest => (key, node.toValue) :: valuesOfNodes rest

def valuesOfTables : List (List (String × Node)) → List Value
  | [] => []
  | nodes :: rest => .table (valuesOfNodes nodes) :: valuesOfTables rest

end

def inlineTable (entries : List Entry) : Option Value :=
  (ofEntries [] entries).map fun nodes => .table (valuesOfNodes nodes)

/-- The document with the given entries before the first header and the sections behind it. -/
def document (entries : List Entry) (sections : List Section) : Option Table := do
  let start ← ofEntries [] entries
  let nodes ← sections.foldlM addSection start
  some (valuesOfNodes nodes)

end ProtoWorkspace.Toml
