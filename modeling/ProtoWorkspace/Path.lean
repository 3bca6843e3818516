import ProtoWorkspace.Text.Fields

/-!
# Relative paths

Paths are texts of components between slashes. Normalizing a relative path walks its components
from a root: empty components and `.` stay where they are, `..` goes up one level, any other
component goes down. A path that starts with a slash, or goes above the root, is refused.
-/

namespace ProtoWorkspace.Path

/-- The components of a path: the pieces between slashes. -/
def components (path : String) : List String :=
  (Text.fields '/' path.toList).map String.ofList

def join (components : List String) : String :=
  String.ofList (Text.joinFields '/' (components.map String.toList))

/-- Why a path names no place under the root. -/
inductive Fault where
  | absolute (path : String)
  | outside (path : String)
  deriving DecidableEq

def Fault.message : Fault → String
  | .absolute path => path ++ " is an absolute path"
  | .outside path => path ++ " is outside the context directory"

/-- One step of a walk. The way from the root is kept with its last component in front. -/
def step (way : List String) (component : String) : Option (List String) :=
  if component = "" ∨ component = "." then some way
  else if component = ".." then
    match way with
    | [] => none
    | _ :: rest => some rest
  else some (component :: way)

/-- The components from the root to where a walk along the given components ends; `none` when it
leaves the root. -/
def walk (components : List String) : Option (List String) :=
  (components.foldlM step []).map List.reverse

/-- Whether a path starts at the root of the file system. -/
def isAbsolute (path : String) : Bool :=
  path.toList.head? == some '/'

/-- The place that a relative path names, written without `.`, `..` and empty components. -/
def normalize (path : String) : Except Fault String :=
  if isAbsolute path then .error (.absolute path)
  else
    match walk (components path) with
    | some place => .ok (join place)
    | none => .error (.outside path)

/-- Whether `path` is `base` or lies under it; everything lies under the empty path. -/
def isWithin (path base : String) : Bool :=
  base.toList.isEmpty || path == base || (base.toList ++ ['/']).isPrefixOf path.toList

/-- The path `sub` put behind another one, with a slash between them unless that one is empty or ends with
one. -/
def behind (base sub : String) : String :=
  if base.toList.isEmpty || base.toList.getLast? == some '/' then base ++ sub
  else base ++ "/" ++ sub

/-- The path `sub` as seen from `base`: an absolute path stands for itself, any other is put behind
the base. -/
def under (base sub : String) : String :=
  if isAbsolute sub then sub else behind base sub

/-- The components that a path keeps when it is taken apart: a leading slash is a component of its
own, a `.` counts only at the very start, and empty components do not count. -/
def parts (path : String) : List String :=
  let named := (components path).filter (· ≠ "")
  if isAbsolute path then "/" :: named.filter (· ≠ ".")
  else
    match components path with
    | "." :: _ => "." :: (named.drop 1).filter (· ≠ ".")
    | _ => named.filter (· ≠ ".")

/-- What a path has behind the parts of another one, if it starts with these. -/
def from? (base path : String) : Option String :=
  if (parts base).isPrefixOf (parts path) then some (join ((parts path).drop (parts base).length))
  else none

end ProtoWorkspace.Path
