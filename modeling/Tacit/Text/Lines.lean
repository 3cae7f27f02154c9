import Tacit.Location

/-!
# Lines, and what differs between two lists of them

A newline ends a line, and what follows the last newline is a line if it is not empty. A listing
of differences walks through both lists of lines: equal lines are kept, and otherwise a line of the
first list is dropped, or, when none is left, one of the second is added.
-/

namespace Tacit.Lines

/-- The lines of a text. -/
def ofText (t : Text) : List Text :=
  let pieces := Text.pieces Location.newline t
  if pieces.getLast? = some [] then pieces.dropLast else pieces

/-- What happens to a line. -/
inductive Change where
  | keep (line : Text)
  | drop (line : Text)
  | add (line : Text)
  deriving DecidableEq, Repr

/-- What leads from the first list of lines to the second. -/
def changes : List Text → List Text → List Change
  | [], new => new.map .add
  | old, [] => old.map .drop
  | a :: old, b :: new =>
    if a == b then .keep a :: changes old new else .drop a :: changes old (b :: new)

def Change.text : Change → Text
  | keep line => " " ++ line ++ "\n"
  | drop line => "-" ++ line ++ "\n"
  | add line => "+" ++ line ++ "\n"

/-- The differences between two contents of a file. -/
def difference (path old new : Text) : Text :=
  "--- " ++ path ++ "\n+++ " ++ path ++ "\n"
    ++ (changes (ofText old) (ofText new)).flatMap Change.text

end Tacit.Lines
