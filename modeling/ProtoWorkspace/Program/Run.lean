import ProtoWorkspace.CommandLine.Invocation
import ProtoWorkspace.Log.Filter
import ProtoWorkspace.Log.Journal
import ProtoWorkspace.Program.Commands
import ProtoWorkspace.Settings

/-!
# The program

A run of the program reads its command line, then its settings, then the workspace, and then does
what the command says. What it prints and what it leaves on the disk are its result.
-/

namespace ProtoWorkspace.Program

/-- What comes of a run. -/
structure Result where
  status : Nat
  output : String
  messages : String
  disk : Disk

def versionLine : String := "protomodule 0.1.0\n"

/-- What is printed for help. -/
def usage : String :=
  "Module digests and pruned dependency resolution for Protocol Buffers workspaces.\n\n" ++
    "Usage: protomodule [OPTIONS] <COMMAND>\n"

def errorRecord (message : String) : Log.Record :=
  ⟨.error, "protomodule", message⟩

/-- Does what a command line asks for; gives what is printed. -/
def perform (settings : Settings) (call : CommandLine.Invocation) : CommandM String := do
  let set ← Commands.loadModules call.root (call.workspaceFile.getD settings.workspaceFile)
  match call.command with
  | .digest type targets =>
    return Commands.digestLines
      (← Commands.digests set (type.getD settings.digestType) targets)
  | .deps module isDirect =>
    return Commands.dependencyLines (← Commands.dependencies set module isDirect)
  | .lock isLocked =>
    let path := Path.under call.root (call.lockFile.getD settings.lockFile)
    let _ ← Commands.lock set settings.digestType path isLocked
    return ""

/-- What comes of a command line that asks for nothing that can be done. -/
def refuse (log : Log.Options) (disk : Disk) (fault : CommandLine.Fault) : Result :=
  let output :=
    match fault with
    | .versionWanted => versionLine
    | .helpWanted => usage
    | _ => ""
  ⟨fault.status, output, log.text [] ++ if fault.status = 0 then "" else usage, disk⟩

/-- Runs the program with the given words and environment. -/
def run (disk : Disk) (words : List String) (env : List (String × String)) : Result :=
  let log := Log.Options.load env
  match CommandLine.Invocation.read words with
  | .error fault => refuse log disk fault
  | .ok call =>
    match Settings.load env with
    | .error fault => ⟨1, "", log.text [errorRecord fault.message], disk⟩
    | .ok settings =>
      match perform settings call { disk := disk } with
      | (.ok output, s) => ⟨0, output, log.text (Log.recordsFor s), s.disk⟩
      | (.error e, s) =>
        ⟨1, "", log.text (Log.recordsFor s ++ [errorRecord e.message]), s.disk⟩

end ProtoWorkspace.Program
