import ProtoWorkspace.Program.Run

/-!
# The executable

Takes a picture of the files that a run may look at, runs the program on it, and then writes the
files that the run has changed.
-/

namespace ProtoWorkspace.Executable

def hasFolder (path : String) : IO Bool := do
  try (← IO.FS.realPath path).isDir
  catch _ => return false

def bytesAt? (path : String) : IO (Option ByteArray) := do
  try return some (← IO.FS.readBinFile path)
  catch _ => return none

/-- The place of a path in a picture of the disk. -/
def placeOf (disk : Disk) (path : String) : List String :=
  let start := if Path.isAbsolute path then [] else disk.current
  (Path.components path).foldl (fun place component =>
    if component = "" ∨ component = "." then place
    else if component = ".." then place.dropLast
    else place ++ [component]) start

/-- Adds what is at a path to a picture of the disk: a folder, or a file with its bytes. -/
def addAt (disk : Disk) (path : String) : IO Disk := do
  if ← hasFolder path then return disk.addFolder (placeOf disk path)
  else
    match ← bytesAt? path with
    | some data => return disk.addFile (placeOf disk path) data
    | none => return disk

def addPath (disk : Disk) (path : String) : IO Disk := do
  let parts := Path.components path
  let ways := (List.range parts.length).map fun n => Path.join (parts.take (n + 1))
  ways.foldlM addAt disk

/-- Adds a folder with all that is in it, down to the given depth. -/
def addTree (disk : Disk) (path : String) : Nat → IO Disk
  | 0 => return disk
  | depth + 1 => do
    let disk ← addAt disk path
    if ← hasFolder path then
      let names := (← (← IO.FS.realPath path).readDir).toList.map (·.fileName)
      names.foldlM (fun disk name => addTree disk (Path.under path name) depth) disk
    else return disk

/-- More levels than a path has room for. -/
def deepest : Nat := 4096

def environment : IO (List (String × String)) := do
  let data := (← bytesAt? "/proc/self/environ").getD ByteArray.empty
  let entries := Text.fields '\x00' ((String.fromUTF8? data).getD "").toList
  return entries.map fun entry =>
    let (name, value) := entry.span (· ≠ '=')
    (String.ofList name, String.ofList (value.drop 1))

/-- A picture of what a run with the given words and settings may look at. -/
def picture (call : CommandLine.Invocation) (settings : Settings) : IO Disk := do
  let current := (← IO.currentDir).toString
  let start : Disk := { current := (Path.parts current).drop 1 }
  let disk := start.addFolder start.current
  let workspaceFile := Path.under call.root (call.workspaceFile.getD settings.workspaceFile)
  let lockFile := Path.under call.root (call.lockFile.getD settings.lockFile)
  let disk ← [call.root, workspaceFile, lockFile].foldlM addPath disk
  match Commands.readWorkspace disk workspaceFile with
  | .error _ => return disk
  | .ok workspace =>
    workspace.modules.foldlM (fun disk x => do
      let folder := Path.under call.root x.path.shown
      addTree (← addPath disk folder) folder deepest) disk

/-- The picture for a command line; one that asks for nothing needs none. -/
def pictureFor (words : List String) (env : List (String × String)) : IO Disk :=
  match CommandLine.Invocation.read words, Settings.load env with
  | .ok call, .ok settings => picture call settings
  | _, _ => return {}

/-- Writes the files that differ from those of an earlier picture. -/
def writeChanges (before after : Disk) : IO Unit :=
  after.files.forM fun (place, data) =>
    if (before.fileAt place).map (·.data) = some data.data then return
    else IO.FS.writeBinFile ("/" ++ Path.join place) data

/-- Runs the program and tells its exit status. -/
def run (words : List String) : IO UInt32 := do
  let env ← environment
  let disk ← pictureFor words env
  let result := Program.run disk words env
  try
    writeChanges disk result.disk
    IO.print result.output
    IO.eprint result.messages
    return result.status.toUInt32
  catch e =>
    IO.eprint ((Log.Options.load env).text [Program.errorRecord (toString e)])
    return 1

end ProtoWorkspace.Executable

/-- Runs the program on the words of the command line. -/
def main (words : List String) : IO UInt32 :=
  ProtoWorkspace.Executable.run words
