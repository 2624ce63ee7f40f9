import Marginalia.CommandLine.Run
import Std.Time.DateTime.Timestamp

/-!
# The program

Runs the command of its arguments on the files of the system.
-/

namespace Marginalia.CommandLine

/-- An action that may fail, with what it gives then. -/
def attempt {α : Type} (action : IO α) (otherwise : IO.Error → α) : IO α := do
  try action catch e => return otherwise e

def systemTime : IO Instant := do
  let now ← Std.Time.Timestamp.now
  return .ofNanos now.toNanosecondsSinceUnixEpoch.val

def systemPlace (path : String) : IO Place :=
  attempt (do
    let found ← IO.FS.realPath path
    if ← found.isDir then return .folder
    else if ← found.pathExists then return .file
    else return .nothing) fun _ ↦ .nothing

def systemRead (path : String) : IO (Option Bytes) :=
  attempt (do return some (← IO.FS.readBinFile path).toList) fun _ ↦ none

def systemWrite (path : String) (bytes : Bytes) : IO Bool :=
  attempt (do
    IO.FS.writeBinFile path (ByteArray.mk bytes.toArray)
    return true) fun _ ↦ false

def systemFolder (path : String) (names : List String) : IO (Option Folder) :=
  attempt (do
    IO.FS.createDirAll path
    let mut nodes : Nodes := []
    for name in names do
      match ← systemPlace (Path.join path name) with
      | .nothing => pure ()
      | .folder => nodes := nodes.put name .folder
      | .file =>
        if let some bytes ← systemRead (Path.join path name) then
          nodes := nodes.put name (.file bytes)
    return some (.present nodes)) fun _ ↦ none

def systemUpdate (path : String) (old new : Folder) : IO Unit :=
  attempt (do
    match old, new with
    | .present old, .present new =>
      for (name, _) in old do
        if (new.find? name).isNone then IO.FS.removeFile (Path.join path name)
      for (name, node) in new do
        match node with
        | .file bytes =>
          if old.find? name != some node then
            IO.FS.writeBinFile (Path.join path name) (ByteArray.mk bytes.toArray)
        | .folder => pure ()
    | _, _ => pure ()) fun _ ↦ ()

def system : Host IO where
  now := systemTime
  place := systemPlace
  read := systemRead
  write := systemWrite
  makeFolders := fun path ↦
    attempt (do
      IO.FS.createDirAll path
      return .ok ()) fun e ↦ .error (toString e)
  openFolder := systemFolder
  update := systemUpdate

def systemEnvironment : IO Environment := do
  let mut found : Environment := []
  for name in Environment.names do
    if let some value ← IO.getEnv name then found := found ++ [(name, value)]
  return found

end Marginalia.CommandLine

open Marginalia CommandLine in
/-- Run the program; the answer is the exit code. -/
def main (args : List String) : IO UInt32 := do
  match Command.ofArguments? args with
  | none =>
    IO.eprint usage
    return 2
  | some command =>
    match ← run system (← systemEnvironment) command with
    | .ok output =>
      IO.print output.text
      return 0
    | .error failure =>
      IO.eprintln (": ".intercalate (failure.message :: failure.causes))
      return 1
