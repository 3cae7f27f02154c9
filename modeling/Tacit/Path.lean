import Tacit.Text

/-!
# Paths

A path is cleaned by its text alone: repeated slashes and `.` components vanish, and `..` takes
away the component in front of it. An absolute path and a relative one never name the same file.
-/

namespace Tacit.Path

def slash : UInt8 := '/'.toUInt8

/-- Whether a path starts at the root. -/
def isAbsolute (path : Text) : Bool := path.head? == some slash

/-- The components of a path that are left after cleaning, last first. -/
def cleanStep (absolute : Bool) (kept : List Text) (component : Text) : List Text :=
  if component.isEmpty || component == Text.ofString "." then kept
  else if component == Text.ofString ".." then
    match kept with
    | [] => if absolute then [] else [component]
    | top :: below => if top == Text.ofString ".." then component :: top :: below else below
  else component :: kept

/-- The components of a cleaned path. -/
def components (path : Text) : List Text :=
  ((Text.pieces slash path).foldl (cleanStep (isAbsolute path)) []).reverse

/-- The path of some components. -/
def ofComponents (absolute : Bool) (cs : List Text) : Text :=
  let joined := Text.joined "/" cs
  if absolute then "/" ++ joined
  else if joined.isEmpty then "." else joined

/-- The shortest path with the same meaning. -/
def clean (path : Text) : Text := ofComponents (isAbsolute path) (components path)

/-- The components of a cleaned path, as a pattern may match them one by one. -/
def split (path : Text) : List Text :=
  (Text.pieces slash (clean path)).filter fun p => !p.isEmpty && p != Text.ofString "."

/-- A path below another. -/
def join (dir name : Text) : Text :=
  if dir.isEmpty then clean name else clean (dir ++ "/" ++ name)

/-- The end of a path from the last dot of its last component on. -/
def extension (path : Text) : Text :=
  let last := (path.reverse.takeWhile (· != slash))
  let tail := last.takeWhile (· != '.'.toUInt8)
  if tail.length < last.length then '.'.toUInt8 :: tail.reverse else []

end Tacit.Path
