import Tacit.Lint

/-!
# Findings as text and as JSON

The text of a finding is a line, with a further line for each note. The JSON of findings is
indented by two blanks a level; a column of zero and missing notes are left out, and no findings
at all are `null`.
-/

namespace Tacit.Lint

/-- A finding as a line, with a line for each note. -/
def Finding.text (f : Finding) : Text :=
  f.pos.text ++ ": " ++ f.message ++ " (" ++ f.check ++ ")"
    ++ f.notes.flatMap fun n => Text.ofString "\n  = note: " ++ n

/-- Findings as lines. -/
def textReport (fs : List Finding) : Text := fs.flatMap fun f => f.text ++ "\n"

/-- `n` levels of indentation on a new line. -/
def indented (n : Nat) : Text := "\n" ++ Text.repeated (2 * n) ' '

/-- Members between brackets, on lines of their own. -/
def block (opening closing : Text) (level : Nat) (members : List Text) : Text :=
  opening ++ indented (level + 1)
    ++ Text.joined ("," ++ indented (level + 1)) members ++ indented level ++ closing

/-- A member of an object. -/
def member (name value : Text) : Text := Json.string name ++ ": " ++ value

/-- The JSON of a position. -/
def Position.json (p : Position) (level : Nat) : Text :=
  let col : List Text := if p.col = 0 then [] else [member "col" (Text.ofInt p.col)]
  block "\x7b" "\x7d" level
    ([member "file" (Json.string p.file), member "line" (Text.ofInt p.line)] ++ col)

/-- The JSON of a finding. -/
def Finding.json (f : Finding) (level : Nat) : Text :=
  let notes : List Text :=
    if f.notes.isEmpty then []
    else [member "notes" (block "[" "]" (level + 1) (f.notes.map Json.string))]
  block "\x7b" "\x7d" level
    ([member "pos" (f.pos.json (level + 1)), member "message" (Json.string f.message),
      member "analyzer" (Json.string f.check),
      member "severity" (Json.string (Severity.reportName f.severity))] ++ notes)

/-- Findings as JSON. -/
def jsonReport (fs : List Finding) : Text :=
  if fs.isEmpty then "null\n"
  else block "[" "]" 0 (fs.map fun f => f.json 1) ++ "\n"

end Tacit.Lint
