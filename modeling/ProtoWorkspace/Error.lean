import ProtoWorkspace.Digest
import ProtoWorkspace.Path
import ProtoWorkspace.Toml.Decode
import ProtoWorkspace.Toml.Written

/-!
# Errors

What can go wrong, by cause, and the one wording of each cause. `Error` belongs to modules and
registries, `DocumentError` to the files that describe a workspace.
-/

namespace ProtoWorkspace

/-- A failure reported by a registry. -/
inductive ProviderError where
  | notFound (what : String)
  | unauthenticated (reason : String)
  | unavailable (reason : String)
  deriving DecidableEq

def ProviderError.message : ProviderError → String
  | .notFound what => what ++ " was not found"
  | .unauthenticated reason => "Unauthenticated: " ++ reason
  | .unavailable reason => "Registry unavailable: " ++ reason

/-- Why a key cannot be made. -/
inductive KeyFault where
  /-- A module key without a commit. -/
  | noCommit (name : String)
  /-- A commit key without a registry. -/
  | noRegistry
  /-- A commit key without a commit. -/
  | noCommitId
  deriving DecidableEq

def KeyFault.message : KeyFault → String
  | .noCommit name => "empty commit id when constructing a key for " ++ name
  | .noRegistry => "empty registry when constructing a commit key"
  | .noCommitId => "empty commit id when constructing a commit key"

/-- An error of a module, a module set or a registry. Modules are named by their descriptions. -/
inductive Error where
  /-- A rule of the library was broken; correct use never gets here. -/
  | internal (message : String)
  | fileNotFound (path : String)
  | unreadable (path cause : String)
  | notUtf8 (path : String)
  | noProtoFiles (module : String)
  | importNotFound (module file imported : String)
  | multipleModules (path : String) (modules : List String)
  | dependencyCycle (module dependency : String)
  | duplicateModule (id : String)
  | duplicateBucket (id : String)
  | unknownModule (id : String)
  | conflictingCommits (name first second : String)
  | digestTypeMismatch (expected actual : DigestType)
  | nameRequired (module : String)
  | commitRequired (module : String)
  | invalidKey (fault : KeyFault)
  | dependencyNotPushed (module commit : String)
  | provider (error : ProviderError)
  /-- A digest was asked for while it was being computed. The check for cycles rules this out. -/
  | digestInProgress (module : String)
  deriving DecidableEq

namespace Error

def message : Error → String
  | .internal message => "Internal error: " ++ message
  | .fileNotFound path => "File " ++ path ++ " was not found"
  | .unreadable path cause => "IO error reading " ++ path ++ ": " ++ cause
  | .notUtf8 path => "File " ++ path ++ " is not valid UTF-8"
  | .noProtoFiles module => "Module " ++ module ++ " contains no .proto files"
  | .importNotFound module file imported =>
    module ++ ": import \"" ++ imported ++ "\" in " ++ file ++ " was not found in any module"
  | .multipleModules path modules =>
    "File " ++ path ++ " is contained in multiple modules: " ++ ", ".intercalate modules
  | .dependencyCycle module dependency =>
    "Dependency cycle detected between " ++ module ++ " and " ++ dependency
  | .duplicateModule id => "Module " ++ id ++ " was added to the module set more than once"
  | .duplicateBucket id => "Bucket " ++ id ++ " was added to the module set more than once"
  | .unknownModule id => "Module " ++ id ++ " is not contained in the module set"
  | .conflictingCommits name first second =>
    "Module " ++ name ++ " was resolved at two different commits: " ++ first ++ " and " ++ second
  | .digestTypeMismatch expected actual =>
    "Different digest types detected where the same digest type must be used: " ++
      expected.text ++ ", " ++ actual.text
  | .nameRequired module => "Module " ++ module ++ " has no name, but a name is required"
  | .commitRequired module => "Module " ++ module ++ " has no commit, but a commit is required"
  | .invalidKey fault => "Invalid module key: " ++ fault.message
  | .dependencyNotPushed module commit =>
    "Dependency " ++ module ++ " does not match its content at commit " ++ commit ++
      ", push it first"
  | .provider error => error.message
  | .digestInProgress module => "The digest of " ++ module ++ " depends on itself"

/-- Whether an error tells of a broken rule rather than of bad input. -/
def isInternal : Error → Bool
  | .internal _ => true
  | _ => false

def isNotFound : Error → Bool
  | .fileNotFound _ => true
  | .provider (.notFound _) => true
  | _ => false

end Error

/-- Why a workspace or lock file is not accepted. -/
inductive DocumentError where
  /-- The file cannot be read. -/
  | unreadable (cause : String)
  /-- The text is no TOML. -/
  | notToml
  /-- The text is TOML but does not fit. -/
  | data (fault : Toml.Fault)
  | missingKey (key : String)
  | path (fault : Path.Fault)
  | commit (text : String)
  | moduleKey (fault : Error)
  | unsupportedVersion (version : Toml.Value)
  | missingVersion

def DocumentError.message : DocumentError → String
  | .unreadable cause => "IO error reading configuration toml: " ++ cause
  | .notToml => "TOML parsing error: the text is not valid"
  | .data fault => "TOML parsing error: " ++ fault.message
  | .missingKey key => "Missing TOML key " ++ Text.cited key ++ " while parsing"
  | .path fault => "Invalid module path: " ++ fault.message
  | .commit text => "Invalid commit id " ++ Text.cited text
  | .moduleKey fault => "Invalid module key: " ++ fault.message
  | .unsupportedVersion version => "Unsupported lock file version " ++ version.shown
  | .missingVersion => "Lock file has no version"

end ProtoWorkspace
