import ProtoWorkspace.Disk

/-!
# Buckets

A bucket is where the files of a module come from: a table in memory, a folder on a disk, or
anything else that can list its paths and read a file. Whatever a bucket gives is a function of the
disk, so it does not change as long as the disk does not.
-/

namespace ProtoWorkspace

/-- The outcome of listing paths: the paths that were found, and what ended the listing early. -/
structure Listing where
  paths : List String
  failure : Option Error := none
  deriving DecidableEq

/-- A source of files. -/
structure Bucket where
  list : Disk → Listing
  read : Disk → String → Except Error ByteArray

/-- A configuration file, kept byte for byte. -/
structure ObjectData where
  name : String
  data : ByteArray

/-- Something that is known, or is to be loaded when it is first needed. -/
inductive Supply (α : Type) where
  | ready (a : α)
  | deferred (load : Disk → Except Error α)

/-- Files in memory, in ascending order of their paths. -/
structure FileTable where
  entries : List (String × ByteArray) := []

namespace FileTable

/-- Entries with one more, which takes the place of one with the same path. -/
def insertInto (path : String) (data : ByteArray) :
    List (String × ByteArray) → List (String × ByteArray)
  | [] => [(path, data)]
  | entry :: rest =>
    if path < entry.1 then (path, data) :: entry :: rest
    else if path = entry.1 then (path, data) :: rest
    else entry :: insertInto path data rest

def insert (t : FileTable) (path : String) (data : ByteArray) : FileTable :=
  ⟨insertInto path data t.entries⟩

/-- The table of the given files; the last one at a path counts. -/
def ofList (files : List (String × ByteArray)) : FileTable :=
  files.foldl (fun t (path, data) => t.insert path data) {}

def get (t : FileTable) (path : String) : Except Error ByteArray :=
  match t.entries.lookup path with
  | some data => .ok data
  | none => .error (.fileNotFound path)

def paths (t : FileTable) : List String :=
  t.entries.map (·.1)

end FileTable

namespace Bucket

def memory (t : FileTable) : Bucket where
  list _ := { paths := t.paths }
  read _ := t.get

/-- The bucket that gives the given results: what comes of reading each path, and perhaps a failure
of listing the paths. -/
def ofResults (results : List (String × Except Error ByteArray)) (failure : Option Error) :
    Bucket where
  list _ := { paths := if failure.isSome then [] else results.map (·.1), failure := failure }
  read _ path := (results.lookup path).getD (.error (.fileNotFound path))

/-- Paths as seen from a folder, up to the first one that is not under it. -/
def seenFrom (root : String) : List String → Listing
  | [] => { paths := [] }
  | path :: rest =>
    match Path.from? root path with
    | some seen =>
      let others := seenFrom root rest
      { others with paths := seen :: others.paths }
    | none => { paths := [], failure := some (.internal (path ++ " is not under " ++ root)) }

/-- The bucket of a folder. It lists the files that the system can open. A file may be named by any path
that stays in the folder. -/
def folder (root : String) : Bucket where
  list disk :=
    match disk.folder? root with
    | some place =>
      let paths := (disk.filesUnder place).map fun names => Path.behind root (Path.join names)
      seenFrom root (paths.filter disk.hasFile)
    | none => { paths := [], failure := some (.fileNotFound root) }
  read disk path :=
    match Path.normalize path with
    | .ok place => (disk.read (Path.under root place)).mapError (Disk.Fault.toError path)
    | .error _ => .error (.fileNotFound path)

end Bucket

/-- Visits elements in order until a visit fails; gives those that were visited, the last one
included, and the outcome. -/
def visitAll {α : Type} (visit : α → Except Error Unit) : List α → List α × Except Error Unit
  | [] => ([], .ok ())
  | a :: rest =>
    match visit a with
    | .ok () =>
      let (visited, outcome) := visitAll visit rest
      (a :: visited, outcome)
    | .error e => ([a], .error e)

/-- Visits the paths of a listing; the listing's own failure counts when no visit fails. -/
def Listing.visit (l : Listing) (visit : String → Except Error Unit) :
    List String × Except Error Unit :=
  match visitAll visit l.paths, l.failure with
  | (visited, .ok ()), some e => (visited, .error e)
  | outcome, _ => outcome

end ProtoWorkspace
