import Tacit.Diagnostic
import Tacit.Diagnostic.Color
import Tacit.FileSystem
import Tacit.Text.Lines
import Tacit.Text.Utf8

/-!
# Diagnostics with the source they speak of

Each region is shown with its line of source, tabs as four blanks, and carets under it. A line
too long to be held in the reader's buffer is treated as missing, and so are the lines behind it.
-/

namespace Tacit

/-- What snippets are rendered with. Sources given by name come before files. -/
structure Snippets where
  mode : ColorMode
  sources : List (Text × Text)
  files : Option FileSystem

namespace Snippets

/-- The length at which a line no longer fits the reader's buffer. -/
def lineLimit : Nat := 65536

/-- The line without a carriage return at its end. -/
def withoutReturn (line : Text) : Text := if line.getLast? = some 13 then line.dropLast else line

/-- A line of a source by its number, unless it or a line in front of it is too long. -/
def lineOf? (src : Text) (line : Int) : Option Text :=
  if line ≤ 0 then none
  else (((Lines.ofText src).takeWhile (·.length < lineLimit))[(line - 1).toNat]?).map withoutReturn

/-- The source with a name. -/
def source? (r : Snippets) (file : Text) : Option Text :=
  match r.sources.lookup file with
  | some src => some src
  | none =>
    if file.isEmpty then none else r.files.bind fun fs => (fs.read file).toOption

/-- The line a region lies on; empty if there is none. -/
def lineAt (r : Snippets) (file : Text) (line : Int) : Text :=
  ((r.source? file).bind fun src => lineOf? src line).getD []

/-- Whether a character divides what a reader takes for one thing. -/
def isDelimiter (c : Char) : Bool := " \t()[];".toList.contains c

/-- The bytes from a column to the end of what starts there; a delimiter stands alone. -/
def extent (line : Text) (col : Nat) : Text :=
  Text.ofGlyphs ((Text.glyphs (line.drop (col - 1))).takeWhile fun g => !isDelimiter g.toChar)

/-- The last column of what starts at a column. -/
def endColumn (line : Text) (col : Nat) : Nat := max col (col - 1 + (extent line col).length)

/-- How wide a text is shown. -/
def displayWidth (t : Text) : Nat :=
  (Text.chars t).foldl (fun n c => n + if c = '\t' then 4 else 1) 0

/-- The text with tabs shown as four blanks. -/
def withoutTabs (t : Text) : Text := t.flatMap fun b => if b = 9 then [32, 32, 32, 32] else [b]

/-- The blanks in front of the carets, and the number of carets. -/
def underline (line : Text) (region : Region) : Nat × Nat :=
  let col := if region.col ≤ 0 then 1 else region.col.toNat
  let stop := if region.endCol ≤ 0 then endColumn line col else max col region.endCol.toNat
  let before := if col - 1 ≤ line.length then line.take (col - 1) else []
  (displayWidth before, stop - col + 1)

/-- Where a region lies, as a reader is told. -/
def whereabouts (region : Region) : Text :=
  let file := if region.file.isEmpty then Location.anonymous else region.file
  if 0 < region.line then
    file ++ ":" ++ Text.ofInt region.line ++ ":" ++ Text.ofInt region.col
  else file

/-- A region with its line of source. -/
def regionText (r : Snippets) (color : Text) (region : Region) : Text :=
  let p := Palette.ofMode r.mode
  let head : Text := "  " ++ p.boldBlue ++ "-->" ++ p.reset ++ " " ++ whereabouts region ++ "\n"
  let line := r.lineAt region.file region.line
  if line.isEmpty then head ++ "   " ++ p.boldBlue ++ "|" ++ p.reset ++ "\n"
  else
    let number := Text.ofInt region.line
    let margin (inside : Text) : Text := " " ++ p.boldBlue ++ inside ++ " |" ++ p.reset
    let blank := margin (Text.repeated number.length ' ')
    let (indent, carets) := underline line region
    let label : Text := if region.label.isEmpty then [] else " " ++ color ++ region.label ++ p.reset
    head ++ blank ++ "\n"
      ++ margin number ++ "  " ++ withoutTabs line ++ "\n"
      ++ blank ++ "  " ++ Text.repeated indent ' ' ++ color ++ Text.repeated carets '^' ++ p.reset
      ++ label ++ "\n"
      ++ blank ++ "\n"

/-- A diagnostic as a reader sees it. -/
def render (r : Snippets) (d : Diagnostic) : Text :=
  let p := Palette.ofMode r.mode
  let severity : Text := if d.severity.isEmpty then "error" else d.severity
  let color := if severity == Text.ofString "error" then p.boldRed else p.boldYellow
  let condition : Text := if d.condition.isEmpty then [] else "[" ++ d.condition ++ "]"
  let noteText (n : Text) : Text := "   " ++ p.boldCyan ++ "=" ++ p.reset ++ " note: " ++ n ++ "\n"
  color ++ severity ++ condition ++ p.reset ++ ": " ++ p.bold ++ d.message ++ p.reset ++ "\n"
    ++ d.regions.flatMap (r.regionText color)
    ++ d.notes.flatMap noteText

/-- A fault as a reader sees it. -/
def renderFault (r : Snippets) (f : Fault) : Text := r.render (.ofFault f)

end Snippets

end Tacit
