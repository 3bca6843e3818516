/-!
# Kinds of module files

Of all files in a module's directory only three kinds belong to the module: Protobuf sources
anywhere, and documentation and licence files with fixed names at the top.
-/

namespace ProtoWorkspace

/-- What a file is to its module. -/
inductive FileKind where
  | proto
  | doc
  | license
  deriving DecidableEq, Repr

namespace FileKind

def docNames : List String :=
  ["buf.md", "README.md", "README.markdown"]

def licenseName : String := "LICENSE"

def protoEnding : String := ".proto"

/-- The kind of the file at a path; `none` if it does not belong to the module. -/
def ofPath? (path : String) : Option FileKind :=
  if protoEnding.toList.isSuffixOf path.toList then some .proto
  else if path ∈ docNames then some .doc
  else if path = licenseName then some .license
  else none

end FileKind

end ProtoWorkspace
