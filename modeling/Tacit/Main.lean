import Tacit.CommandLine.Inputs

/-!
# The program

Fetches what an invocation reads, performs it, and puts out what it wrote.
-/

namespace Tacit.Main

open CommandLine

def bytes (t : Text) : ByteArray := ⟨t.toArray⟩

/-- The name of a file for the system, if it has one. -/
def systemName? (path : Text) : Option String := Text.toString? path

/-- Adds a file, if there is one at a path. -/
def fetch (files : FileSystem) (path : Text) : IO FileSystem := do
  match systemName? path with
  | none => return files
  | some name =>
    try
      let content ← IO.FS.readBinFile name
      return files.store path content.toList
    catch _ => return files

/-- Adds what is below a path, down to a depth. -/
def fetchBelow (files : FileSystem) (path : Text) : Nat → IO FileSystem
  | 0 => return files
  | depth + 1 => do
    match systemName? path with
    | none => return files
    | some name =>
      try
        let here ← IO.FS.realPath name
        if ← here.isDir then
          let mut files := files.ensureDirectory (FileSystem.key path)
          for entry in ← here.readDir do
            files ← fetchBelow files (Path.join path entry.fileName) depth
          return files
        else fetch files path
      catch _ => return files

/-- How deep directories may nest. -/
def depthLimit : Nat := 64

/-- Adds what an operand names. -/
def fetchOperand (files : FileSystem) (operand : Text) : IO FileSystem :=
  match Text.before? "/..." operand with
  | some dir => fetchBelow files (if dir.isEmpty then "." else dir) depthLimit
  | none => fetchBelow files operand 1

/-- Fetches the variables with some names. -/
def environment (names : List Text) : IO (List (Text × Text)) :=
  names.filterMapM fun name => do
    match Text.toString? name with
    | none => return none
    | some n => return (← IO.getEnv n).map fun v => (name, Text.ofString v)

/-- Fetches all that an invocation reads. -/
def gather (args : List Text) : IO Invocation := do
  let i : Invocation := ⟨args, [], .empty, ← environment variableNames, .ok⟩
  let input ← if i.readsInput then (← IO.getStdin).readToEnd else pure ""
  let files ← i.settingsFiles.foldlM fetch i.files
  let files ← i.operands.foldlM fetchOperand files
  let i := { i with input := Text.ofString input, files := files }
  let files ← i.namedFiles.foldlM fetch i.files
  return { i with files := files }

/-- Writes the files that an invocation made or changed. -/
def writeBack (old new : FileSystem) : IO Unit :=
  new.entries.forM fun (path, e) => do
    match e, systemName? path with
    | .file content, some name =>
      if old.entries.lookup path != some e then IO.FS.writeBinFile name (bytes content)
    | _, _ => return ()

/-- What is said of a problem that the user has not been shown. -/
def message (p : Problem) : Text :=
  match p.cause with
  | .fault f => f.message
  | .crash m => m
  | .outOfFuel => "out of fuel"

end Tacit.Main

open Tacit in
/-- The command line. -/
def main (args : List String) : IO UInt32 := do
  let i ← Main.gather (args.map Text.ofString)
  let r := CommandLine.invoke i
  Main.writeBack i.files r.console.files
  (← IO.getStdout).write (Main.bytes r.console.output)
  (← IO.getStderr).write (Main.bytes r.console.errors)
  match r.problem with
  | none => return 0
  | some p =>
    unless p.isReported do (← IO.getStderr).write (Main.bytes (Main.message p ++ "\n"))
    return 1
