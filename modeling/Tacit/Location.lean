import Tacit.Text

/-!
# A place in a source

A place is a byte offset with the line and column it falls on, both counted from one. A line ends
with a newline byte, and columns count bytes.
-/

namespace Tacit

/-- A place in a named source. A line of zero says that lines were not counted, a negative offset
that nothing but the source is known. -/
structure Location where
  file : Text
  pos : Int
  line : Int
  col : Int
  deriving DecidableEq, Repr, Inhabited

namespace Location

/-- The byte that ends a line. -/
def newline : UInt8 := 10

/-- The name shown for a source without one. -/
def anonymous : Text := "<input>"

/-- The line of what follows `before`. -/
def lineAfter (before : Text) : Nat := 1 + before.count newline

/-- The column of what follows `before`. -/
def columnAfter (before : Text) : Nat := 1 + (before.reverse.takeWhile (· != newline)).length

/-- The place of a byte of `src`; an offset past the end is the end. -/
def within (file src : Text) (pos : Int) : Location :=
  let pos := min pos src.length
  let before := src.take pos.toNat
  ⟨file, pos, lineAfter before, columnAfter before⟩

/-- How a place is written: the file, with as much of line and column as is known. -/
def text (l : Location) : Text :=
  let file := if l.file.isEmpty then anonymous else l.file
  if l.pos < 0 then file
  else if l.line = 0 then file ++ "[" ++ Text.ofInt l.pos ++ "]"
  else if l.col = 0 then file ++ ":" ++ Text.ofInt l.line
  else file ++ ":" ++ Text.ofInt l.line ++ ":" ++ Text.ofInt l.col

end Location

end Tacit
