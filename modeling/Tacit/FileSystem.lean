import Tacit.Path
import Tacit.Fault

/-!
# A file system in memory

Files and directories are found by their cleaned paths, and the directories above a file exist
with it. The root directory holds what lies at the top of relative and of absolute paths.
-/

namespace Tacit

/-- What a path leads to. -/
inductive Entry where
  | file (content : Text)
  | directory
  deriving DecidableEq, Repr, Inhabited

/-- Files and directories by their keys, each key once. The root is not listed. -/
structure FileSystem where
  entries : List (Text × Entry)
  /-- Whether files can be made and changed. -/
  writable : Bool
  deriving Inhabited

namespace FileSystem

/-- The key of the root directory. -/
def root : Text := "/"

/-- What a path is found by. -/
def key (path : Text) : Text :=
  let cleaned := Path.clean path
  if cleaned == Text.ofString "." || cleaned == Text.ofString ".." then root else cleaned

/-- The key of the directory that holds what has a key. -/
def parent (k : Text) : Text :=
  match (Path.components k).dropLast with
  | [] => root
  | cs => Path.ofComponents (Path.isAbsolute k) cs

/-- The name of what has a key. -/
def name (k : Text) : Text := (Path.components k).getLastD root

def empty : FileSystem := ⟨[], true⟩

/-- What a path leads to. -/
def entry? (fs : FileSystem) (path : Text) : Option Entry :=
  if key path == root then some .directory else fs.entries.lookup (key path)

/-- The keys of the directories above a key, the root left out. -/
def above (k : Text) : List Text :=
  let cs := (Path.components k).dropLast
  (List.range cs.length).map fun i => Path.ofComponents (Path.isAbsolute k) (cs.take (i + 1))

/-- Puts an entry at a key. -/
def put (fs : FileSystem) (k : Text) (e : Entry) : FileSystem :=
  if fs.entries.any (·.1 == k) then
    { fs with entries := fs.entries.map fun (k', e') => if k' == k then (k, e) else (k', e') }
  else { fs with entries := fs.entries ++ [(k, e)] }

/-- Makes a directory, unless there is something. -/
def ensureDirectory (fs : FileSystem) (k : Text) : FileSystem :=
  if k == root || fs.entries.any (·.1 == k) then fs else fs.put k .directory

/-- Makes the directories above a key. -/
def ensureAbove (fs : FileSystem) (k : Text) : FileSystem := (above k).foldl ensureDirectory fs

/-- Makes or replaces a file, whatever the permissions. -/
def store (fs : FileSystem) (path content : Text) : FileSystem :=
  (fs.ensureAbove (key path)).put (key path) (.file content)

/-- A file system with these files; a path that ends in a slash is an empty directory. -/
def ofFiles (files : List (Text × Text)) : FileSystem :=
  files.foldl (fun fs (path, content) =>
    if path.getLast? == some Path.slash then (fs.ensureAbove (key path)).ensureDirectory (key path)
    else fs.store path content) empty

/-- The fault of opening what does not exist. -/
def missing (path : Text) : Fault := .plain ("open " ++ path ++ ": file does not exist")

/-- The fault of changing what cannot be changed. -/
def forbidden : Fault := .plain "operation not permitted"

/-- The content of a file; a directory reads as empty. -/
def read (fs : FileSystem) (path : Text) : Except Fault Text :=
  match fs.entry? path with
  | some (.file content) => .ok content
  | some .directory => .ok []
  | none => .error (missing path)

/-- Whether a path leads to a directory, or the fault of there being nothing. -/
def isDirectory (fs : FileSystem) (path : Text) : Except Fault Bool :=
  match fs.entry? path with
  | some e => .ok (e == .directory)
  | none => .error (missing path)

/-- Makes a file with a content, or replaces the content of the one there is. -/
def write (fs : FileSystem) (path content : Text) : Except Fault FileSystem :=
  if fs.writable then .ok (fs.store path content) else .error forbidden

/-- The names in a directory, in dictionary order. -/
def names (fs : FileSystem) (dir : Text) : List Text :=
  Text.sorted ((fs.entries.filterMap fun (k, _) =>
    if parent k == key dir then some (name k) else none).eraseDups)

/-- The paths of all files below a path, each directory's in dictionary order. -/
def walk (fs : FileSystem) : Nat → Text → Except Fault (List Text)
  | 0, _ => .ok []
  | depth + 1, path => do
    if ← fs.isDirectory path then
      let below ← (fs.names path).mapM fun n => fs.walk depth (Path.join path n)
      return below.flatten
    else return [path]

/-- The paths of all files below a path. -/
def filesBelow (fs : FileSystem) (path : Text) : Except Fault (List Text) :=
  fs.walk (fs.entries.length + 2) path

end FileSystem

end Tacit
