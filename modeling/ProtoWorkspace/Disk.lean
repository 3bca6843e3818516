import ProtoWorkspace.Error
import ProtoWorkspace.Path

/-!
# A disk

The part of a file system that matters here: regular files with their bytes, folders, and the
folder from which relative paths start. Every component of a path but the last must be a folder, and
each of the ways in which that fails has its own fault.
-/

namespace ProtoWorkspace

/-- Files and folders, each at the list of names that leads to it from the top. -/
structure Disk where
  files : List (List String × ByteArray) := []
  folders : List (List String) := []
  /-- The folder from which relative paths start. -/
  current : List String := []

namespace Disk

/-- Why the system refuses a path. -/
inductive Fault where
  | notFound
  | notFolder
  | isFolder
  | nameTooLong
  /-- A path with a NUL character. -/
  | badPath
  deriving DecidableEq

def Fault.message : Fault → String
  | .notFound => "No such file or directory (os error 2)"
  | .notFolder => "Not a directory (os error 20)"
  | .isFolder => "Is a directory (os error 21)"
  | .nameTooLong => "File name too long (os error 36)"
  | .badPath => "file name contained an unexpected NUL byte"

def Fault.toError (path : String) : Fault → Error
  | .notFound => .fileNotFound path
  | fault => .unreadable path fault.message

def fileAt (d : Disk) (place : List String) : Option ByteArray :=
  d.files.lookup place

def isFolderAt (d : Disk) (place : List String) : Bool :=
  place.isEmpty || d.folders.contains place

/-- The most bytes that a name in a folder may have. -/
def longestName : Nat := 255

/-- The most bytes that a path may have. -/
def longestPath : Nat := 4095

/-- One step from a place, which must be a folder. -/
def step (d : Disk) (place : List String) (component : String) : Except Fault (List String) :=
  if d.isFolderAt place then
    if component = "" ∨ component = "." then .ok place
    else if component = ".." then .ok place.dropLast
    else if longestName < component.utf8ByteSize then .error .nameTooLong
    else .ok (place ++ [component])
  else if (d.fileAt place).isSome then .error .notFolder
  else .error .notFound

/-- What a path must satisfy before any step is taken. -/
def check (path : String) : Except Fault Unit :=
  if path = "" then .error .notFound
  else if path.toList.contains '\x00' then .error .badPath
  else if longestPath < path.utf8ByteSize then .error .nameTooLong
  else .ok ()

/-- The place that some components of a path lead to from where the path starts. -/
def walk (d : Disk) (path : String) (components : List String) : Except Fault (List String) :=
  components.foldlM d.step (if Path.isAbsolute path then [] else d.current)

/-- The place that a path leads to; there need not be anything. -/
def locate (d : Disk) (path : String) : Except Fault (List String) := do
  check path
  d.walk path (Path.components path)

def read (d : Disk) (path : String) : Except Fault ByteArray := do
  let place ← d.locate path
  if d.isFolderAt place then throw .isFolder
  match d.fileAt place with
  | some data => return data
  | none => throw .notFound

/-- The place of the folder at a path, if there is one. -/
def folder? (d : Disk) (path : String) : Option (List String) :=
  match d.locate path with
  | .ok place => if d.isFolderAt place then some place else none
  | .error _ => none

def hasPath (d : Disk) (path : String) : Bool :=
  match d.locate path with
  | .ok place => d.isFolderAt place || (d.fileAt place).isSome
  | .error _ => false

/-- Whether a path leads to a file. A path that the system refuses leads nowhere. -/
def hasFile (d : Disk) (path : String) : Bool :=
  match d.locate path with
  | .ok place => !d.isFolderAt place && (d.fileAt place).isSome
  | .error _ => false

/-- Whether two paths stand in ascending order: the first differing names decide, and a path stands
before what is under it. -/
def isAscending : List String → List String → Bool
  | [], _ => true
  | _ :: _, [] => false
  | a :: as, b :: bs => a < b || (a == b && isAscending as bs)

/-- The paths of the files under a folder, as seen from it, in ascending order: what is in a folder
stands where the folder would. -/
def filesUnder (d : Disk) (place : List String) : List (List String) :=
  (d.files.filterMap fun (file, _) =>
    if place.isPrefixOf file then some (file.drop place.length) else none).mergeSort
      isAscending

def putFile (d : Disk) (place : List String) (data : ByteArray) : Disk :=
  { d with files := (place, data) :: d.files.filter (·.1 != place) }

/-- Whether a path ends with a slash, and so can only name a folder. -/
def endsWithSlash (path : String) : Bool :=
  path.toList.getLast? == some '/'

/-- A path without the slashes at its end; a path that has nothing else stays. -/
def withoutLastSlashes (path : String) : String :=
  match path.toList.reverse.dropWhile (· == '/') with
  | [] => path
  | cs => String.ofList cs.reverse

/-- Writes a file into a folder that is there. A path that ends with a slash names no file, even
when there is one without the slash. -/
def write (d : Disk) (path : String) (data : ByteArray) : Except Fault Disk := do
  check path
  let components := Path.components (withoutLastSlashes path)
  if endsWithSlash path then
    let folder ← d.walk path components.dropLast
    let _ ← d.step folder ""
    throw .isFolder
  let place ← d.walk path components
  if d.isFolderAt place then throw .isFolder
  return d.putFile place data

/-- The disk with a folder at a place, and at all places on the way. -/
def addFolder (d : Disk) (place : List String) : Disk :=
  let onTheWay := (List.range (place.length + 1)).map place.take
  { d with folders := onTheWay.filter (!d.isFolderAt ·) ++ d.folders }

/-- The disk with a file at a place, in folders that are made if needed. -/
def addFile (d : Disk) (place : List String) (data : ByteArray) : Disk :=
  (d.addFolder place.dropLast).putFile place data

def remove (d : Disk) (place : List String) : Disk :=
  { d with
    files := d.files.filter fun (file, _) => !place.isPrefixOf file
    folders := d.folders.filter fun folder => !place.isPrefixOf folder }

theorem fileAt_putFile (d : Disk) (place : List String) (data : ByteArray) :
    (d.putFile place data).fileAt place = some data := by
  simp [fileAt, putFile]

end Disk

end ProtoWorkspace
